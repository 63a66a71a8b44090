import OperationGraph.Proofs.Token.Strings
import OperationGraph.Text.Blank

/-! # Settled texts

A text that is written on indented lines inside a block string is read back without the indentation. It
is read back as it is if it is settled: its lines are read as they are written, the first and the last of
them are not blank, and one of them is not indented (`value_indented`). -/

namespace OperationGraph

/-! ### Parts of a text -/

namespace Text

theorem exists_splitAt (sep : Char) (cs : List Char) : ∃ part rest, splitAt sep cs = part :: rest := by
  cases cs with
  | nil => exact ⟨[], [], rfl⟩
  | cons c cs =>
    rw [splitAt, List.foldr_cons]
    split
    · exact ⟨_, _, rfl⟩
    · split
      · exact ⟨_, _, rfl⟩
      · exact ⟨_, _, rfl⟩

theorem splitAt_cons_self (sep : Char) (cs : List Char) :
    splitAt sep (sep :: cs) = [] :: splitAt sep cs := by
  simp [splitAt]

theorem splitAt_cons_of_ne {sep c : Char} (h : c ≠ sep) {cs part : List Char}
    {rest : List (List Char)} (hparts : splitAt sep cs = part :: rest) :
    splitAt sep (c :: cs) = (c :: part) :: rest := by
  rw [splitAt] at hparts
  simp [splitAt, h, hparts]

theorem not_mem_of_mem_splitAt {sep : Char} {cs part : List Char} (h : part ∈ splitAt sep cs) :
    sep ∉ part := by
  induction cs generalizing part with
  | nil =>
    rw [List.mem_singleton.1 h]
    exact List.not_mem_nil
  | cons c cs ih =>
    obtain ⟨first, rest, hparts⟩ := exists_splitAt sep cs
    by_cases hc : c = sep
    · rw [hc, splitAt_cons_self] at h
      rcases List.mem_cons.1 h with rfl | h
      · exact List.not_mem_nil
      · exact ih h
    · rw [splitAt_cons_of_ne hc hparts] at h
      rw [hparts] at ih
      rcases List.mem_cons.1 h with rfl | h
      · have hfirst : sep ∉ first := ih List.mem_cons_self
        simpa [hfirst] using Ne.symm hc
      · exact ih (List.mem_cons_of_mem first h)

/-- The parts of a text with the separator between them are the text. -/
theorem intercalate_splitAt (sep : Char) (cs : List Char) :
    List.intercalate [sep] (splitAt sep cs) = cs := by
  induction cs with
  | nil => rfl
  | cons c cs ih =>
    obtain ⟨part, rest, hparts⟩ := exists_splitAt sep cs
    rw [hparts] at ih
    by_cases hc : c = sep
    · rw [hc, splitAt_cons_self, hparts]
      simpa [List.intercalate] using ih
    · rw [splitAt_cons_of_ne hc hparts]
      cases rest with
      | nil => simpa [List.intercalate] using ih
      | cons next rest => simpa [List.intercalate] using ih

end Text

/-! ### Lines of a block string -/

namespace BlockText

theorem lines_of_not_mem {line : List Char} (h : '\n' ∉ line) : lines line = [line] := by
  induction line with
  | nil => rfl
  | cons c line ih =>
    rw [List.mem_cons, not_or] at h
    rw [lines, if_neg (Ne.symm h.1), ih h.2]

theorem lines_append {line : List Char} (h : '\n' ∉ line) (more : List Char) :
    lines (line ++ '\n' :: more) = line :: lines more := by
  induction line with
  | nil => simp [lines]
  | cons c line ih =>
    rw [List.mem_cons, not_or] at h
    rw [List.cons_append, lines, if_neg (Ne.symm h.1), ih h.2]

theorem lines_flatMap {ls : List (List Char)} (h : ∀ l ∈ ls, '\n' ∉ l) {last : List Char}
    (hlast : '\n' ∉ last) : lines (ls.flatMap (· ++ ['\n']) ++ last) = ls ++ [last] := by
  induction ls with
  | nil => exact lines_of_not_mem hlast
  | cons l ls ih =>
    have hfirst : (l :: ls).flatMap (· ++ ['\n']) ++ last =
        l ++ '\n' :: (ls.flatMap (· ++ ['\n']) ++ last) := by simp
    rw [hfirst, lines_append (h l List.mem_cons_self), ih fun k hk => h k (List.mem_cons_of_mem l hk)]
    rfl

/-! ### Indentation -/

def indented (n : Nat) (line : List Char) : List Char := List.replicate n '\t' ++ line

@[simp] theorem isBlank_indented (n : Nat) (line : List Char) :
    isBlank (indented n line) = isBlank line := by
  have htab : isIndent '\t' = true := by decide
  simp [isBlank, indented, htab]

theorem takeWhile_indented (n : Nat) (line : List Char) :
    (indented n line).takeWhile isIndent = List.replicate n '\t' ++ line.takeWhile isIndent := by
  have htab : ∀ c ∈ List.replicate n '\t', isIndent c = true := by
    intro c hc
    rw [(List.mem_replicate.1 hc).2]
    decide
  exact List.takeWhile_append_of_pos htab

@[simp] theorem drop_indented (n : Nat) (line : List Char) : (indented n line).drop n = line := by
  simp [indented]

/-- Lines that one of is not indented have the indentation that they are written behind. -/
theorem commonIndent?_indented {ls : List (List Char)} (h : commonIndent? ls = some 0) (n : Nat) :
    commonIndent? ([] :: (ls.map (indented n) ++ [indented n []])) = some n := by
  obtain ⟨hmem, -⟩ := List.min?_eq_some_iff.1 h
  obtain ⟨line, hline, hindent⟩ := List.mem_map.1 hmem
  obtain ⟨hline, hblank⟩ := List.mem_filter.1 hline
  refine List.min?_eq_some_iff.2 ⟨List.mem_map.2 ⟨indented n line, ?_, ?_⟩, ?_⟩
  · exact List.mem_filter.2 ⟨by simp [List.mem_map_of_mem hline], by simpa using hblank⟩
  · simp [takeWhile_indented, hindent]
  · intro k hk
    simp only [List.mem_map, List.mem_filter, List.mem_cons, List.mem_append, List.not_mem_nil,
      or_false] at hk
    obtain ⟨l, ⟨rfl | ⟨l, -, rfl⟩ | rfl, hblank⟩, rfl⟩ := hk
    · cases hblank
    · simp [takeWhile_indented]
    · rw [isBlank_indented] at hblank
      cases hblank

/-- No line is dropped if neither the first nor the last is blank. -/
theorem trim_of_edges {ls : List (List Char)} (hfirst : ∃ l ∈ ls.head?, isBlank l = false)
    (hlast : ∃ l ∈ ls.getLast?, isBlank l = false) : trim ([] :: (ls ++ [[]])) = ls := by
  have hdrop {ks : List (List Char)} (h : ∃ l ∈ ks.head?, isBlank l = false) (more : List (List Char)) :
      (ks ++ more).dropWhile isBlank = ks ++ more := by
    obtain ⟨l, hl, hblank⟩ := h
    cases ks with
    | nil => cases hl
    | cons k ks =>
      obtain rfl : k = l := Option.some.inj hl
      simp [hblank]
  have hlast' : ∃ l ∈ ls.reverse.head?, isBlank l = false := by simpa using hlast
  have hnil : isBlank [] = true := rfl
  rw [trim, List.dropWhile_cons_of_pos hnil, hdrop hfirst, List.reverse_append, List.reverse_singleton,
    List.singleton_append, List.dropWhile_cons_of_pos hnil]
  simpa using congrArg List.reverse (hdrop hlast' [])

/-- Whether lines are read as they are written, none of them is dropped and all keep their indentation. -/
def isSettled (ls : List (List Char)) : Bool :=
  ls.all (fun l => Scan.inside l = l) && ls.head?.any (!isBlank ·) && ls.getLast?.any (!isBlank ·)
    && commonIndent? ls = some 0

/-- Settled lines are read back from indented lines of a block string, the first and the last of which
hold only the quotes. -/
theorem value_indented {ls : List (List Char)} (h : isSettled ls = true) (hfeed : ∀ l ∈ ls, '\n' ∉ l)
    (n : Nat) :
    value (([] :: ls.map (indented n)).flatMap (Scan.inside · ++ ['\n']) ++ List.replicate n '\t') =
      join ls := by
  simp only [isSettled, Bool.and_eq_true, List.all_eq_true, decide_eq_true_eq] at h
  obtain ⟨⟨⟨hinside, hfirst⟩, hlast⟩, hindent⟩ := h
  have hinside' (l : List Char) (hl : l ∈ ls) : Scan.inside (indented n l) = indented n l := by
    have htab (rest : List Char) : Scan.inside ('\t' :: rest) = '\t' :: Scan.inside rest := by
      have hsettled : Text.settled '\t' = '\t' := by decide
      rw [Scan.inside] <;> simp [hsettled]
    induction n with
    | zero => exact hinside l hl
    | succ n ih =>
      rw [indented, List.replicate_succ, List.cons_append, htab]
      exact congrArg _ ih
  have hraw : ([] :: ls.map (indented n)).flatMap (Scan.inside · ++ ['\n']) ++ List.replicate n '\t' =
      ([] :: ls.map (indented n)).flatMap (· ++ ['\n']) ++ indented n [] := by
    have hlines : (ls.map (indented n)).flatMap (Scan.inside · ++ ['\n']) =
        (ls.map (indented n)).flatMap (· ++ ['\n']) := by
      rw [List.flatMap_map, List.flatMap_map]
      exact List.flatMap_congr fun l hl => by rw [hinside' l hl]
    rw [List.flatMap_cons, List.flatMap_cons, hlines, indented, List.append_nil]
    rfl
  have hfeed' (l : List Char) (hl : '\n' ∉ l) : '\n' ∉ indented n l := by
    simp [indented, hl]
  have hlines : lines (([] :: ls.map (indented n)).flatMap (· ++ ['\n']) ++ indented n []) =
      [] :: (ls.map (indented n) ++ [indented n []]) := by
    refine lines_flatMap ?_ (hfeed' [] List.not_mem_nil)
    rintro l (_ | ⟨_, hl⟩)
    · exact List.not_mem_nil
    · obtain ⟨k, hk, rfl⟩ := List.mem_map.1 hl
      exact hfeed' k (hfeed k hk)
  rw [value, hraw, hlines]
  simp only [dedent, commonIndent?_indented hindent, List.map_append, List.map_map, Function.comp_def,
    drop_indented, List.map_id', List.map_cons, List.map_nil]
  rw [trim_of_edges]
  · cases hhead : ls.head? with
    | none => simp [hhead] at hfirst
    | some l => exact ⟨l, rfl, by simpa [hhead] using hfirst⟩
  · cases hhead : ls.getLast? with
    | none => simp [hhead] at hlast
    | some l => exact ⟨l, rfl, by simpa [hhead] using hlast⟩

end BlockText

end OperationGraph
