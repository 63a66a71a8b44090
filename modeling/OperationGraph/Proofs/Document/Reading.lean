import OperationGraph.Document.Reader
import OperationGraph.Proofs.Definition.Recall

/-! # Readers that take lexemes

A reader takes a list of lexemes if it succeeds on all tokens that begin with them and leaves the tokens
after them, provided that the next one cannot belong to what was read. -/

namespace OperationGraph.Reader

/-- A reader takes these lexemes if what follows begins as `next` says, and gives what `P` says. -/
def Takes {α : Type} (x : Reader α) (ls : List Lexeme) (next : Lexeme → Prop) (P : α → Prop) : Prop :=
  ∀ ts more, ts.Forall₂ Token.Shows (ls ++ more) → next (more.headD (.sign .endOfInput)) →
    ∃ a ts', x ts = .ok (a, ts') ∧ ts'.Forall₂ Token.Shows more ∧ P a

def anything (_ : Lexeme) : Prop := True

theorem anything_of (l : Lexeme) : anything l := trivial

def noneOf (kinds : List TokenKind) (l : Lexeme) : Prop := l.kind ∉ kinds

instance (kinds : List TokenKind) (l : Lexeme) : Decidable (noneOf kinds l) :=
  inferInstanceAs (Decidable (l.kind ∉ kinds))

/-! ### Steps -/

section
variable {α β : Type} {x : Reader α} {f : α → Reader β} {ls ks : List Lexeme}
  {next next' : Lexeme → Prop} {P : β → Prop} {R : α → Prop}

theorem takes_pure {b : β} (h : P b) : (pure b : Reader β).Takes [] next P :=
  fun ts _ hts _ => ⟨b, ts, rfl, hts, h⟩

theorem Takes.mono {S : α → Prop} (h : x.Takes ls next' R) (hnext : ∀ l, next l → next' l)
    (hresult : ∀ a, R a → S a) : x.Takes ls next S := by
  intro ts more hts hmore
  obtain ⟨a, ts', ha, hts', hR⟩ := h ts more hts (hnext _ hmore)
  exact ⟨a, ts', ha, hts', hresult a hR⟩

theorem Takes.bind (hx : x.Takes ls next' R) (hf : ∀ a, R a → (f a).Takes ks next P)
    (hnext : ∀ l, next l → next' (ks.headD l)) : (x >>= f).Takes (ls ++ ks) next P := by
  intro ts more hts hmore
  have hhead : (ks ++ more).headD (.sign .endOfInput) = ks.headD (more.headD (.sign .endOfInput)) := by
    cases ks <;> rfl
  obtain ⟨a, ts₁, ha, hts₁, hR⟩ := hx ts (ks ++ more) (by rwa [← List.append_assoc])
    (hhead ▸ hnext _ hmore)
  obtain ⟨b, ts₂, hb, hts₂, hP⟩ := hf a hR ts₁ more hts₁ hmore
  refine ⟨b, ts₂, ?_, hts₂, hP⟩
  change (x ts >>= fun p => f p.1 p.2) = _
  rw [ha]
  exact hb

theorem Takes.bind_pure {g : α → β} (hx : x.Takes ls next R) (h : ∀ a, R a → P (g a)) :
    (x >>= fun a => pure (g a)).Takes ls next P := by
  have hbind := hx.bind (f := fun a => pure (g a)) (fun a ha => takes_pure (h a ha)) fun _ hl => hl
  rwa [List.append_nil] at hbind

/-- A reader of one token, whatever follows. -/
theorem Takes.cons {l : Lexeme} (hx : x.Takes [l] anything R)
    (hf : ∀ a, R a → (f a).Takes ks next P) : (x >>= f).Takes (l :: ks) next P :=
  hx.bind hf fun _ _ => trivial

theorem Takes.peek {f : Token → Reader β}
    (h : ∀ t l, next l → t.Shows (ls.headD l) → (f t).Takes ls next P) :
    (Reader.peek >>= f).Takes ls next P := by
  intro ts more hts hmore
  cases ts with
  | nil =>
    obtain ⟨rfl, rfl⟩ := List.append_eq_nil_iff.1 (List.forall₂_nil_left_iff.1 hts)
    exact h _ _ hmore ⟨rfl, .inl rfl⟩ [] [] hts hmore
  | cons t rest =>
    refine h t (more.headD (.sign .endOfInput)) hmore ?_ (t :: rest) more hts hmore
    cases ls with
    | nil =>
      cases more with
      | nil => cases hts
      | cons l more => exact (List.forall₂_cons.1 hts).1
    | cons l ls => exact (List.forall₂_cons.1 hts).1

theorem takes_skipOne (l : Lexeme) : skipOne.Takes [l] anything fun _ => True := by
  intro ts more hts _
  cases ts with
  | nil => cases hts
  | cons t rest => exact ⟨(), rest, rfl, (List.forall₂_cons.1 hts).2, trivial⟩

theorem Takes.bound {f : Nat → Reader β} (h : ∀ n, ls.length < n → (f n).Takes ls next P) :
    (Reader.bound >>= f).Takes ls next P := by
  intro ts more hts hmore
  have hlength : ts.length = ls.length + more.length := by
    simpa using hts.length_eq
  exact h (ts.length + 1) (by omega) ts more hts hmore

end

/-! ### Tokens -/

theorem takes_skip (kind : TokenKind) : (skip kind).Takes [.sign kind] anything (· = true) := by
  refine Takes.peek fun t l _ ht => ?_
  rw [if_pos (show t.kind = kind from ht.1)]
  exact (takes_skipOne _).cons fun _ _ => takes_pure rfl

theorem takes_skip_none (kind : TokenKind) : (skip kind).Takes [] (noneOf [kind]) (· = false) := by
  refine Takes.peek fun t l hl ht => ?_
  have hkind : t.kind ≠ kind := by
    rw [show t.kind = l.kind from ht.1]
    simpa [noneOf] using hl
  rw [if_neg hkind]
  exact takes_pure rfl

section
variable {β : Type} {f : Bool → Reader β} {kind : TokenKind} {ls : List Lexeme} {next : Lexeme → Prop}
  {P : β → Prop}

theorem Takes.skip (h : (f true).Takes ls next P) :
    (Reader.skip kind >>= f).Takes (.sign kind :: ls) next P :=
  (takes_skip kind).cons fun _ hb => hb ▸ h

theorem Takes.skip_none (h : (f false).Takes ls next P) (hls : ∀ l, next l → (ls.headD l).kind ≠ kind) :
    (Reader.skip kind >>= f).Takes ls next P :=
  (takes_skip_none kind).bind (fun _ hb => hb ▸ h) fun l hl => by simpa [noneOf] using hls l hl

end

theorem takes_expect (l : Lexeme) : (expect l.kind).Takes [l] anything (·.Shows l) := by
  refine Takes.peek fun t _ _ ht => ?_
  rw [if_pos (show t.kind = l.kind from ht.1)]
  exact (takes_skipOne _).cons fun _ _ => takes_pure ht

/-- A token of another kind than a block string has the value of its lexeme. -/
theorem value_of_shows {t : Token} {l : Lexeme} (h : t.Shows l) (hkind : l.kind ≠ .blockString) :
    t.value = l.value := by
  refine h.2.resolve_right ?_
  rintro rfl
  exact hkind rfl

theorem of_shows_word {t : Token} {w : String} (h : t.Shows (.word w)) :
    t.kind = .name ∧ t.value = w :=
  ⟨h.1, value_of_shows h nofun⟩

theorem takes_name (n : String) : name.Takes [.word n] anything (· = n) :=
  (takes_expect (.word n)).cons fun _ ht => takes_pure (of_shows_word ht).2

theorem takes_expectWord (w : String) : (expectWord w).Takes [.word w] anything fun _ => True := by
  refine Takes.peek fun t _ _ ht => ?_
  obtain ⟨hkind, hvalue⟩ := of_shows_word ht
  rw [if_pos (by simp [hkind, hvalue])]
  exact takes_skipOne _

/-! ### Groups -/

theorem headD_append_of_head? {ls : List Lexeme} {l : Lexeme} (h : l ∈ ls.head?) (ks : List Lexeme)
    (d : Lexeme) : (ls ++ ks).headD d = l := by
  cases ls with
  | nil => cases h
  | cons k ls => exact Option.some.inj h

section
variable {α β : Type} {item : Reader α} {f : β → List Lexeme} {R : β → α → Prop}
  {next : Lexeme → Prop} {bs : List β}

/-- Items are read one after the other if an item may follow another one. -/
theorem takes_itemsUntil {close : TokenKind} {fuel : Nat} (hfuel : bs.length < fuel)
    (h : ∀ b ∈ bs, item.Takes (f b) next (R b))
    (hfirst : ∀ b ∈ bs, ∃ l ∈ (f b).head?, next l ∧ l.kind ≠ close) (hclose : next (.sign close)) :
    (itemsUntil close item fuel).Takes (bs.flatMap f ++ [.sign close]) anything
      (bs.Forall₂ R) := by
  induction bs generalizing fuel with
  | nil =>
    obtain ⟨n, rfl⟩ : ∃ n, fuel = n + 1 := ⟨fuel - 1, by omega⟩
    exact Takes.skip (takes_pure .nil)
  | cons b rest ih =>
    obtain ⟨n, rfl⟩ : ∃ n, fuel = n + 1 := ⟨fuel - 1, by omega⟩
    obtain ⟨l, hl, -, hkind⟩ := hfirst b List.mem_cons_self
    refine Takes.skip_none ?_ fun d _ => ?_
    · rw [List.flatMap_cons, List.append_assoc]
      refine (h b List.mem_cons_self).bind (fun a ha => ?_) fun d _ => ?_
      · have hrest := ih (Nat.lt_of_succ_lt_succ hfuel) (fun c hc => h c (List.mem_cons_of_mem b hc))
          fun c hc => hfirst c (List.mem_cons_of_mem b hc)
        exact hrest.bind_pure fun as has => .cons ha has
      · cases rest with
        | nil => exact hclose
        | cons c rest =>
          obtain ⟨k, hk, hnext, -⟩ := hfirst c (by simp)
          rw [List.flatMap_cons, List.append_assoc, headD_append_of_head? hk]
          exact hnext
    · rwa [List.flatMap_cons, List.append_assoc, headD_append_of_head? hl]

theorem length_le_length_flatMap {p : Lexeme → Prop} (h : ∀ b ∈ bs, ∃ l ∈ (f b).head?, p l) :
    bs.length ≤ (bs.flatMap f).length := by
  induction bs with
  | nil => exact Nat.zero_le 0
  | cons b rest ih =>
    obtain ⟨l, hl, -⟩ := h b List.mem_cons_self
    have hb : 0 < (f b).length := List.length_pos_iff.2 fun hnil => by
      rw [hnil] at hl
      cases hl
    have hrest := ih fun c hc => h c (List.mem_cons_of_mem b hc)
    simp only [List.flatMap_cons, List.length_cons, List.length_append]
    omega

/-- Items between two signs, possibly none. -/
theorem takes_many {openKind close : TokenKind}
    (h : ∀ b ∈ bs, item.Takes (f b) next (R b))
    (hfirst : ∀ b ∈ bs, ∃ l ∈ (f b).head?, next l ∧ l.kind ≠ close) (hclose : next (.sign close)) :
    (many openKind close item).Takes (.sign openKind :: (bs.flatMap f ++ [.sign close])) anything
      (bs.Forall₂ R) := by
  refine Takes.skip (Takes.bound fun n hn => takes_itemsUntil ?_ h hfirst hclose)
  have hle := length_le_length_flatMap hfirst
  simp only [List.length_append, List.length_singleton] at hn
  omega

/-- Items between two signs, or nothing at all. -/
theorem takes_some {openKind close : TokenKind}
    (h : ∀ b ∈ bs, item.Takes (f b) next (R b))
    (hfirst : ∀ b ∈ bs, ∃ l ∈ (f b).head?, next l ∧ l.kind ≠ close) (hclose : next (.sign close)) :
    (some openKind close item).Takes (enclosed openKind close (bs.map f)) (noneOf [openKind])
      (bs.Forall₂ R) := by
  cases bs with
  | nil => exact Takes.skip_none (takes_pure .nil) fun l hl => by simpa [noneOf, enclosed] using hl
  | cons b rest =>
    obtain ⟨l, hl, -, hkind⟩ := hfirst b List.mem_cons_self
    rw [enclosed_map (List.cons_ne_nil b rest)]
    refine Takes.skip (Takes.peek fun t d _ ht => ?_)
    rw [List.flatMap_cons, List.append_assoc, headD_append_of_head? hl] at ht
    rw [if_neg (ht.1 ▸ hkind)]
    have hle := length_le_length_flatMap hfirst
    refine (Takes.bound fun n hn => takes_itemsUntil ?_ h hfirst hclose).mono (fun _ _ => trivial)
      fun _ has => has
    simp only [List.length_append, List.length_singleton] at hn
    omega

/-- Items with a sign before each. -/
theorem takes_each {lead : TokenKind} {fuel : Nat} (hfuel : bs.length ≤ fuel)
    (h : ∀ b ∈ bs, item.Takes (f b) next (R b)) (hlead : next (.sign lead)) :
    (each lead item fuel).Takes (bs.flatMap fun b => .sign lead :: f b)
      (fun l => next l ∧ l.kind ≠ lead) (bs.Forall₂ R) := by
  induction bs generalizing fuel with
  | nil =>
    cases fuel with
    | zero => exact takes_pure .nil
    | succ n => exact Takes.skip_none (takes_pure .nil) fun l hl => hl.2
  | cons b rest ih =>
    obtain ⟨n, rfl⟩ : ∃ n, fuel = n + 1 := ⟨fuel - 1, by simp at hfuel; omega⟩
    rw [List.flatMap_cons, List.cons_append]
    refine Takes.skip ((h b List.mem_cons_self).bind (fun a ha => ?_) fun l hl => ?_)
    · have hrest := ih (Nat.le_of_succ_le_succ hfuel) fun c hc => h c (List.mem_cons_of_mem b hc)
      exact hrest.bind_pure fun as has => .cons ha has
    · cases rest with
      | nil => exact hl.1
      | cons c rest => exact hlead

/-- Items with a separator between them. -/
theorem takes_separated {separator : TokenKind} (hne : bs ≠ [])
    (h : ∀ b ∈ bs, item.Takes (f b) next (R b))
    (hfirst : ∀ b ∈ bs, ∃ l ∈ (f b).head?, l.kind ≠ separator) (hnext : next (.sign separator)) :
    (separated separator item).Takes (joined [.sign separator] (bs.map f))
      (fun l => next l ∧ l.kind ≠ separator) (bs.Forall₂ R) := by
  cases bs with
  | nil => exact absurd rfl hne
  | cons b rest =>
    obtain ⟨l, hl, hkind⟩ := hfirst b List.mem_cons_self
    have hjoined : joined [.sign separator] ((b :: rest).map f) =
        f b ++ rest.flatMap fun c => .sign separator :: f c := by
      simp [joined, List.flatMap_map]
    rw [hjoined]
    refine Takes.skip_none ?_ fun d _ => by rwa [headD_append_of_head? hl]
    refine (h b List.mem_cons_self).bind (fun a ha => Takes.bound fun n hn => ?_) fun l hl => ?_
    · have hle := length_le_length_flatMap (fun c (_ : c ∈ rest) =>
        (⟨.sign separator, rfl, trivial⟩ : ∃ l ∈ (.sign separator :: f c).head?, True))
      have hrest := takes_each (Nat.le_of_lt (Nat.lt_of_le_of_lt hle hn))
        (fun c hc => h c (List.mem_cons_of_mem b hc)) hnext
      exact hrest.bind_pure fun as has => .cons ha has
    · cases rest with
      | nil => exact hl.1
      | cons c rest => exact hnext

end

/-! ### Types and values -/

theorem takes_bang (nonNull : Bool) :
    (skip .bang).Takes (bangLexemes nonNull) (noneOf [.bang]) (· = nonNull) := by
  cases nonNull with
  | false => exact takes_skip_none .bang
  | true => exact (takes_skip .bang).mono (fun _ _ => trivial) fun _ hb => hb

theorem takes_typeAt {t : TypeExpr} {fuel : Nat} (hfuel : t.lexemes.length ≤ fuel) :
    (typeAt fuel).Takes t.lexemes (noneOf [.bang]) fun t' => TypeRef.ofExpr t' = TypeRef.ofExpr t := by
  induction t generalizing fuel with
  | named n b pos =>
    obtain ⟨k, rfl⟩ : ∃ k, fuel = k + 1 := ⟨fuel - 1, by simp [TypeExpr.lexemes] at hfuel; omega⟩
    refine Takes.skip_none ?_ fun l hl => nofun
    refine Takes.peek fun t _ _ _ => ?_
    refine (takes_name n).cons fun n' hn => ?_
    exact (takes_bang b).bind_pure fun b' hb => by rw [hn, hb, TypeRef.ofExpr, TypeRef.ofExpr]
  | list e b pos ih =>
    obtain ⟨k, rfl⟩ : ∃ k, fuel = k + 1 := ⟨fuel - 1, by simp [TypeExpr.lexemes] at hfuel; omega⟩
    refine Takes.skip (Takes.peek fun t _ _ _ => ?_)
    refine (ih ?_).bind (fun e' he => ?_) fun _ _ => ?_
    · simp [TypeExpr.lexemes] at hfuel
      omega
    · refine (takes_expect (.sign .bracketR)).cons fun _ _ => ?_
      exact (takes_bang b).bind_pure fun b' hb => by rw [hb, TypeRef.ofExpr, TypeRef.ofExpr, he]
    · simp [noneOf]

theorem takes_type (t : TypeExpr) :
    type.Takes t.lexemes (noneOf [.bang]) fun t' => TypeRef.ofExpr t' = TypeRef.ofExpr t :=
  Takes.bound fun _ hn => takes_typeAt (Nat.le_of_lt hn)

theorem numeralKind_eq (cs : List Char) :
    Scan.numeralKind cs = .int ∨ Scan.numeralKind cs = .float := by
  unfold Scan.numeralKind
  split
  · exact .inl rfl
  · exact .inr rfl

theorem takes_number (r : String) (fuel : Nat) :
    (valueAt true (fuel + 1)).Takes [⟨Scan.numeralKind r.toList, r⟩] anything
      (· = if Scan.numeralKind r.toList = .int then .int r else .float r) := by
  refine Takes.peek fun t _ _ ht => ?_
  rcases numeralKind_eq r.toList with hkind | hkind
  all_goals
    rw [hkind] at ht ⊢
    rw [show t.kind = _ from ht.1]
    exact (takes_skipOne _).cons fun _ _ => takes_pure (by rw [value_of_shows ht nofun]; rfl)

theorem takes_text (v : String) (fuel : Nat) :
    (valueAt true (fuel + 1)).Takes [⟨.string, v⟩] anything (· = .string v) := by
  refine Takes.peek fun t _ _ ht => ?_
  rw [show t.kind = .string from ht.1]
  exact (takes_skipOne _).cons fun _ _ => takes_pure (by rw [value_of_shows ht nofun]; rfl)

theorem takes_word (w : String) (fuel : Nat) :
    (valueAt true (fuel + 1)).Takes [.word w] anything (· = Literal.ofWord w) := by
  refine Takes.peek fun t _ _ ht => ?_
  rw [show t.kind = .name from ht.1]
  exact (takes_skipOne _).cons fun _ _ => takes_pure (by rw [value_of_shows ht nofun]; rfl)

theorem exists_head?_lexemes (l : Literal) : ∃ k ∈ l.lexemes.head?, anything k ∧ k.kind ≠ .bracketR := by
  cases l with
  | int r | float r =>
    refine ⟨_, rfl, trivial, ?_⟩
    rcases numeralKind_eq r.toList with hkind | hkind <;> simp [hkind]
  | _ => exact ⟨_, rfl, anything_of _, nofun⟩

theorem length_le_of_mem {β : Type} {f : β → List Lexeme} {bs : List β} {b : β} (h : b ∈ bs) :
    (f b).length ≤ (bs.flatMap f).length := by
  obtain ⟨before, after, rfl⟩ := List.append_of_mem h
  simp only [List.flatMap_append, List.flatMap_cons, List.length_append]
  omega

theorem eq_map_of_forall₂ {α β : Type} {r : β → α} {bs : List β} {as : List α}
    (h : bs.Forall₂ (fun b a => a = r b) as) : as = bs.map r := by
  simpa using map_eq_of_forall₂ r id h fun _ _ _ hab => hab

/-- A legible literal is read as a constant. -/
theorem takes_valueAt {l : Literal} {fuel : Nat} (hl : l.isLegible = true)
    (hfuel : l.lexemes.length < fuel) :
    (valueAt true fuel).Takes l.lexemes anything (· = l.reread) := by
  induction l using Literal.induction_on generalizing fuel with
  | atom l hlist hobject =>
    obtain ⟨n, rfl⟩ : ∃ n, fuel = n + 1 := ⟨fuel - 1, by omega⟩
    cases l with
    | «variable» n => cases hl
    | int r | float r => exact takes_number r n
    | string v | block v => exact takes_text v n
    | boolean b => cases b <;> exact takes_word _ n
    | null => exact takes_word "null" n
    | enum w => exact takes_word w n
    | list items => exact absurd rfl (hlist items)
    | object fields => exact absurd rfl (hobject fields)
  | list items ih =>
    obtain ⟨n, rfl⟩ : ∃ n, fuel = n + 1 := ⟨fuel - 1, by omega⟩
    rw [Literal.lexemes, Literal.itemLexemes_eq] at hfuel ⊢
    refine Takes.peek fun t _ _ ht => ?_
    rw [show t.kind = .bracketL from ht.1]
    have hitems : (many .bracketL .bracketR (valueAt true n)).Takes
        (.sign .bracketL :: (items.flatMap Literal.lexemes ++ [.sign .bracketR])) anything
        (items.Forall₂ fun l l' => l' = l.reread) := by
      refine takes_many (fun l hmem => ?_) (fun l _ => exists_head?_lexemes l) (anything_of _)
      have hle := length_le_of_mem (f := Literal.lexemes) hmem
      simp only [List.length_cons, List.length_append, List.length_nil] at hfuel
      exact ih l hmem (Literal.itemsLegible_iff.1 hl l hmem) (by omega)
    refine hitems.bind_pure fun as has => ?_
    rw [eq_map_of_forall₂ has, Literal.reread, Literal.rereadItems_eq]
  | object fields ih =>
    obtain ⟨n, rfl⟩ : ∃ n, fuel = n + 1 := ⟨fuel - 1, by omega⟩
    rw [Literal.lexemes, Literal.fieldLexemes_eq] at hfuel ⊢
    refine Takes.peek fun t _ _ ht => ?_
    rw [show t.kind = .braceL from ht.1]
    have hfields : (many .braceL .braceR do
        let n' ← name
        let _ ← expect .colon
        return (n', ← valueAt true n)).Takes
        (.sign .braceL :: (fields.flatMap (fun f => .word f.1 :: .sign .colon :: f.2.lexemes) ++
          [.sign .braceR])) anything
        (fields.Forall₂ fun f f' => f' = (f.1, f.2.reread)) := by
      refine takes_many (fun f hmem => ?_) (fun f _ => ⟨_, rfl, anything_of _, nofun⟩) (anything_of _)
      refine (takes_name f.1).cons fun k hk => (takes_expect (.sign .colon)).cons fun _ _ => ?_
      have hle := length_le_of_mem
        (f := fun f : String × Literal => .word f.1 :: .sign .colon :: f.2.lexemes) hmem
      simp only [List.length_cons, List.length_append, List.length_nil] at hfuel hle
      have hvalue := ih f hmem (Literal.fieldsLegible_iff.1 hl f hmem).2 (by omega : _ < n)
      exact hvalue.bind_pure fun l hl => by rw [hk, hl]
    refine hfields.bind_pure fun as has => ?_
    rw [eq_map_of_forall₂ has, Literal.reread, Literal.rereadFields_eq]

theorem takes_value {l : Literal} (hl : l.isLegible = true) :
    (value true).Takes l.lexemes anything (· = l.reread) :=
  Takes.bound fun _ hn => takes_valueAt hl hn

/-! ### Arguments and directives -/

theorem takes_arguments {args : List Argument} (h : args.all Argument.isLegible = true) :
    (arguments true).Takes (enclosed .parenL .parenR (args.map Argument.lexemes)) (noneOf [.parenL])
      (args.Forall₂ Argument.Recalls) := by
  refine takes_some (fun a ha => ?_) (fun a _ => ⟨_, rfl, anything_of _, nofun⟩) (anything_of _)
  have hlegible := List.all_eq_true.1 h a ha
  rw [Argument.isLegible, Bool.and_eq_true] at hlegible
  refine Takes.peek fun t _ _ _ => (takes_name a.name).cons fun n hn => ?_
  refine (takes_expect (.sign .colon)).cons fun _ _ => ?_
  exact (takes_value hlegible.2).bind_pure fun l hl => ⟨hn, hl⟩

theorem takes_directives {ds : List Directive} (h : ds.all Directive.isLegible = true) :
    (directives true).Takes (Directive.listLexemes ds) (noneOf [.at_, .parenL])
      (ds.Forall₂ Directive.Recalls) := by
  refine Takes.bound fun n hn => ?_
  have hle := length_le_length_flatMap (f := fun d : Directive => .sign .at_ :: d.lexemes)
    fun d (_ : d ∈ ds) => ⟨_, rfl, anything_of _⟩
  have heach : (each .at_ (do
      let pos := (← peek).pos
      let name ← name
      return ({ name, arguments := ← arguments true, pos } : Directive)) n).Takes
      (Directive.listLexemes ds) (fun l => noneOf [.parenL] l ∧ l.kind ≠ .at_)
      (ds.Forall₂ Directive.Recalls) := by
    refine takes_each (by rw [Directive.listLexemes] at hn; omega) (fun d hd => ?_) (by decide)
    have hlegible := List.all_eq_true.1 h d hd
    rw [Directive.isLegible, Bool.and_eq_true] at hlegible
    refine Takes.peek fun t _ _ _ => (takes_name d.name).cons fun n hn => ?_
    exact (takes_arguments hlegible.2).bind_pure fun args hargs => ⟨hn, hargs⟩
  refine heach.mono (fun l hl => ?_) fun _ h => h
  simpa [noneOf, and_comm] using hl

theorem takes_defaultValue {v : Option Literal} (h : v.all Literal.isLegible = true) :
    defaultValue.Takes (defaultLexemes v) (noneOf [.equals]) (· = v.map Literal.reread) := by
  cases v with
  | none => exact Takes.skip_none (takes_pure rfl) fun l hl => by simpa [noneOf, defaultLexemes] using hl
  | some l =>
    refine Takes.skip (((takes_value h).bind_pure fun l' hl => ?_).mono (fun _ _ => trivial) fun _ h => h)
    rw [hl, Option.map_some]

end OperationGraph.Reader
