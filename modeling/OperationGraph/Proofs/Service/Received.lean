import OperationGraph.Proofs.Service.Remembering
import OperationGraph.Proofs.Service.Written

/-! # What clients send

Whatever is read from a client is a value of the exchange format: its numbers are finite doubles, and the
entries of its objects are in order. So requests without NUL characters in their queries and without stray
bytes in their variables are told apart by their canonical texts (`toldApart_of_isReceived`). -/

namespace OperationGraph

/-! ### Values -/

namespace Incoming

theorem belongsTo_of_magnitude? {negative : Bool} {cs rest : List Char} {x : Binary}
    (h : magnitude? .double negative cs = some (x, rest)) :
    ∃ s m e, x = .finite s m e ∧ (Binary.finite false m e).BelongsTo .double := by
  unfold magnitude? at h
  simp only at h
  split at h
  · cases h
  split at h
  · next s m e hread =>
    obtain ⟨rfl, -⟩ := Prod.mk.inj (Option.some.inj h)
    refine ⟨s, m, e, rfl, ?_⟩
    simp only [Binary.readUnsigned?] at hread
    split_ifs at hread
    obtain ⟨k, -, hscaled⟩ := Option.map_eq_some_iff.1 hread
    have hbelongs : (Binary.finite s m e).BelongsTo .double := by
      rw [← hscaled]
      exact Binary.belongsTo_ofScaled _ _ _ _
    exact hbelongs
  · cases h

theorem received_of_number? {cs rest : List Char} {x : Binary} (h : number? cs = some (x, rest)) :
    (Value.float .double x).Received := by
  have hread : ∃ negative cs', magnitude? .double negative cs' = some (x, rest) := by
    unfold number? at h
    split at h
    · exact ⟨_, _, h⟩
    · exact ⟨_, _, h⟩
  obtain ⟨negative, cs', hread⟩ := hread
  obtain ⟨s, m, e, rfl, hbelongs⟩ := belongsTo_of_magnitude? hread
  exact .float s m e hbelongs

/-- What the readers of a value, of items and of members give with some fuel is received. -/
structure ReadsReceived (fuel : ℕ) : Prop where
  value : ∀ {room cs v rest}, value? fuel room cs = some (v, rest) → v.Received
  items : ∀ {room cs vs rest}, items? fuel room cs = some (vs, rest) → ∀ v ∈ vs, v.Received
  members : ∀ {room cs es rest}, members? fuel room cs = some (es, rest) → ∀ e ∈ es, e.2.Received

namespace ReadsReceived
variable {fuel room : ℕ} {cs rest : List Char}

theorem value_succ (hreads : ReadsReceived fuel) {v : Value}
    (h : value? (fuel + 1) room cs = some (v, rest)) : v.Received := by
  unfold value? at h
  split at h
  · obtain ⟨rfl, -⟩ := Prod.mk.inj (Option.some.inj h)
    exact .null
  · obtain ⟨rfl, -⟩ := Prod.mk.inj (Option.some.inj h)
    exact .boolean true
  · obtain ⟨rfl, -⟩ := Prod.mk.inj (Option.some.inj h)
    exact .boolean false
  · obtain ⟨⟨s, r⟩, -, hs⟩ := Option.map_eq_some_iff.1 h
    obtain ⟨rfl, -⟩ := Prod.mk.inj hs
    exact .string s
  · split at h
    · cases h
    split at h
    · obtain ⟨rfl, -⟩ := Prod.mk.inj (Option.some.inj h)
      exact .list [] (by simp)
    · obtain ⟨⟨vs, r⟩, hread, hvs⟩ := Option.map_eq_some_iff.1 h
      obtain ⟨rfl, -⟩ := Prod.mk.inj hvs
      exact .list vs (hreads.items hread)
  · split at h
    · cases h
    split at h
    · obtain ⟨rfl, -⟩ := Prod.mk.inj (Option.some.inj h)
      exact .object [] Ordered.nil (by simp)
    · obtain ⟨⟨es, r⟩, hread, hes⟩ := Option.map_eq_some_iff.1 h
      obtain ⟨rfl, -⟩ := Prod.mk.inj hes
      exact .object _ (Entries.ordered_ofList es) fun e he =>
        hreads.members hread e (Entries.mem_of_mem_ofList he)
    · cases h
  · split at h
    · obtain ⟨⟨x, r⟩, hread, hx⟩ := Option.map_eq_some_iff.1 h
      obtain ⟨rfl, -⟩ := Prod.mk.inj hx
      exact received_of_number? hread
    · cases h
  · cases h

theorem items_succ (hreads : ReadsReceived fuel) {vs : List Value}
    (h : items? (fuel + 1) room cs = some (vs, rest)) : ∀ v ∈ vs, v.Received := by
  unfold items? at h
  simp only [Option.bind_eq_bind, Option.bind_eq_some_iff, Prod.exists] at h
  obtain ⟨v, r, hread, h⟩ := h
  have hv := hreads.value hread
  split at h
  · simp only [Option.bind_eq_some_iff, Prod.exists] at h
    obtain ⟨vs', r', hrest, h⟩ := h
    obtain ⟨rfl, -⟩ := Prod.mk.inj (Option.some.inj h)
    exact List.forall_mem_cons.2 ⟨hv, hreads.items hrest⟩
  · obtain ⟨rfl, -⟩ := Prod.mk.inj (Option.some.inj h)
    simpa using hv
  · cases h

theorem members_succ (hreads : ReadsReceived fuel) {es : List (String × Value)}
    (h : members? (fuel + 1) room cs = some (es, rest)) : ∀ e ∈ es, e.2.Received := by
  unfold members? at h
  simp only [Option.bind_eq_bind, Option.bind_eq_some_iff, Prod.exists] at h
  obtain ⟨name, r, -, h⟩ := h
  split at h
  · simp only [Option.bind_eq_some_iff, Prod.exists] at h
    obtain ⟨v, r', hread, h⟩ := h
    have hv := hreads.value hread
    split at h
    · simp only [Option.bind_eq_some_iff, Prod.exists] at h
      obtain ⟨es', r'', hrest, h⟩ := h
      obtain ⟨rfl, -⟩ := Prod.mk.inj (Option.some.inj h)
      exact List.forall_mem_cons.2 ⟨hv, hreads.members hrest⟩
    · obtain ⟨rfl, -⟩ := Prod.mk.inj (Option.some.inj h)
      simpa using hv
    · cases h
  · cases h

end ReadsReceived

theorem readsReceived (fuel : ℕ) : ReadsReceived fuel := by
  induction fuel with
  | zero => constructor <;> simp [value?, items?, members?]
  | succ fuel ih => exact ⟨ih.value_succ, ih.items_succ, ih.members_succ⟩

theorem received_of_entries? {fuel room : ℕ} {before es : Entries} {cs rest : List Char}
    (hbefore : (Value.object before).Received) (h : entries? fuel room before cs = some (es, rest)) :
    (Value.object es).Received := by
  unfold entries? at h
  split at h
  · obtain ⟨rfl, -⟩ := Prod.mk.inj (Option.some.inj h)
    exact .object [] Ordered.nil (by simp)
  · split at h
    · obtain ⟨rfl, -⟩ := Prod.mk.inj (Option.some.inj h)
      exact hbefore
    · obtain ⟨⟨ps, r⟩, hread, hes⟩ := Option.map_eq_some_iff.1 h
      obtain ⟨rfl, -⟩ := Prod.mk.inj hes
      cases hbefore with
      | object _ ordered hreceived =>
        obtain ⟨hordered, hmem⟩ := Entries.foldl_put_spec ps ordered
        refine .object _ hordered fun e he => ?_
        rcases hmem e he with he | he
        · exact (readsReceived fuel).members hread e he
        · exact hreceived e he
  · cases h

end Incoming

/-! ### Requests -/

namespace AnalysisRequest

/-- The variables of a request are such as clients send. -/
def IsReceived (q : AnalysisRequest) : Prop := (Value.object q.variableValues).Received

theorem isReceived_empty : ({} : AnalysisRequest).IsReceived := .object [] Ordered.nil (by simp)

theorem isReceived_of_readMember? {fuel : ℕ} {r r' : AnalysisRequest} {name : String}
    {cs rest : List Char} (hr : r.IsReceived) (h : readMember? fuel r name cs = some (r', rest)) :
    r'.IsReceived := by
  unfold readMember? at h
  split at h
  all_goals
    obtain ⟨p, hread, hp⟩ := Option.map_eq_some_iff.1 h
    obtain ⟨rfl, -⟩ := Prod.mk.inj hp
  · exact hr
  · exact hr
  · exact Incoming.received_of_entries? hr hread
  · exact hr
  · exact hr

theorem isReceived_of_readMembers? {fuel : ℕ} {r r' : AnalysisRequest} {cs rest : List Char}
    (hr : r.IsReceived) (h : readMembers? fuel r cs = some (r', rest)) : r'.IsReceived := by
  induction fuel generalizing r cs with
  | zero => cases h
  | succ fuel ih =>
    unfold readMembers? at h
    simp only [Option.bind_eq_bind, Option.bind_eq_some_iff, Prod.exists] at h
    obtain ⟨name, after, -, h⟩ := h
    split at h
    · simp only [Option.bind_eq_some_iff, Prod.exists] at h
      obtain ⟨q, after', hmember, h⟩ := h
      have hq := isReceived_of_readMember? hr hmember
      split at h
      · exact ih hq h
      · obtain ⟨rfl, -⟩ := Prod.mk.inj (Option.some.inj h)
        exact hq
      · cases h
    · cases h

theorem isReceived_of_read? {fuel : ℕ} {q : AnalysisRequest} {cs rest : List Char}
    (h : read? fuel cs = some (q, rest)) : q.IsReceived := by
  unfold read? at h
  split at h
  · obtain ⟨rfl, -⟩ := Prod.mk.inj (Option.some.inj h)
    exact isReceived_empty
  · split at h
    · obtain ⟨rfl, -⟩ := Prod.mk.inj (Option.some.inj h)
      exact isReceived_empty
    · exact isReceived_of_readMembers? isReceived_empty h
  · cases h

theorem isReceived_of_readItems? {fuel : ℕ} {qs : List AnalysisRequest} {cs rest : List Char}
    (h : readItems? fuel cs = some (qs, rest)) : ∀ q ∈ qs, q.IsReceived := by
  induction fuel generalizing qs cs rest with
  | zero => cases h
  | succ fuel ih =>
    unfold readItems? at h
    simp only [Option.bind_eq_bind, Option.bind_eq_some_iff, Prod.exists] at h
    obtain ⟨q, after, hread, h⟩ := h
    have hq := isReceived_of_read? hread
    split at h
    · simp only [Option.bind_eq_some_iff, Prod.exists] at h
      obtain ⟨qs', after', hrest, h⟩ := h
      obtain ⟨rfl, -⟩ := Prod.mk.inj (Option.some.inj h)
      exact List.forall_mem_cons.2 ⟨hq, ih hrest⟩
    · obtain ⟨rfl, -⟩ := Prod.mk.inj (Option.some.inj h)
      simpa using hq
    · cases h

theorem isReceived_of_readBatch? {fuel : ℕ} {qs : List AnalysisRequest} {cs rest : List Char}
    (h : readBatch? fuel cs = some (qs, rest)) : ∀ q ∈ qs, q.IsReceived := by
  unfold readBatch? at h
  split at h
  · split at h
    · obtain ⟨rfl, -⟩ := Prod.mk.inj (Option.some.inj h)
      simp
    · exact isReceived_of_readItems? h
  · cases h

theorem isReceived_of_ofTarget {t : Http.Target} {q : AnalysisRequest} (h : ofTarget t = .ok q) :
    q.IsReceived := by
  unfold ofTarget at h
  simp only at h
  split at h
  · cases h
  split at h
  · cases h
  · next es hes =>
    obtain rfl := Except.ok.inj h
    split at hes
    · obtain rfl := Option.some.inj hes
      exact isReceived_empty
    · unfold variablesOf? at hes
      simp only at hes
      split at hes
      · next es' rest hread =>
        split at hes
        · obtain rfl := Option.some.inj hes
          exact Incoming.received_of_entries? isReceived_empty hread
        · cases hes
      · cases hes

end AnalysisRequest

namespace Submission

theorem isReceived_of_ofBody {body : String} {sub : Submission} (h : ofBody body = .ok sub) :
    ∀ q ∈ sub.documents, q.IsReceived := by
  unfold ofBody at h
  simp only at h
  split at h
  · split at h
    · cases h
    · next qs rest hread =>
      split_ifs at h
      obtain rfl := Except.ok.inj h
      exact AnalysisRequest.isReceived_of_readBatch? hread
  · split at h
    · cases h
    · next q rest hread =>
      split_ifs at h
      obtain rfl := Except.ok.inj h
      simpa [documents] using AnalysisRequest.isReceived_of_read? hread

theorem isReceived_of_ofRequest {limit : Int64} {r : Http.Request} {sub : Submission}
    (h : ofRequest limit r = .ok sub) : ∀ q ∈ sub.documents, q.IsReceived := by
  unfold ofRequest at h
  split at h
  · cases htarget : AnalysisRequest.ofTarget r.target with
    | error e =>
      rw [htarget] at h
      cases h
    | ok q =>
      rw [htarget] at h
      obtain rfl := Except.ok.inj h
      simpa [documents] using AnalysisRequest.isReceived_of_ofTarget htarget
  · split at h
    · split at h
      · cases h
      · exact isReceived_of_ofBody h
    · cases h

theorem isReceived_of_mem_asked {limit : Int64} {r : Http.Request} {q : AnalysisRequest}
    (h : q ∈ asked limit r) : q.IsReceived := by
  unfold asked at h
  split at h
  · cases hsub : ofRequest limit r with
    | error e => simp [hsub, requests] at h
    | ok sub =>
      refine isReceived_of_ofRequest hsub q ?_
      rw [hsub] at h
      cases sub <;> exact h
  · cases h

end Submission

/-- A request whose canonical text tells all: there is no NUL character in its query and no stray byte in
its variables. -/
def AnalysisRequest.isTold (q : AnalysisRequest) : Bool :=
  !q.query.toList.contains '\x00' && Value.entriesAreWhole q.variableValues

/-- Requests that were read are told apart by their canonical texts. -/
theorem AnalysisRequest.toldApart_of_isReceived {known : List AnalysisRequest}
    (hreceived : ∀ q ∈ known, q.IsReceived) (htold : ∀ q ∈ known, q.isTold = true) :
    ToldApart known := by
  have hparts (q : AnalysisRequest) (hq : q ∈ known) :
      '\x00' ∉ q.query.toList ∧ Value.entriesAreWhole q.variableValues = true := by
    simpa [isTold] using htold q hq
  have hreads (q : AnalysisRequest) (hq : q ∈ known) : (Value.object q.variableValues).ReadsBack :=
    (hreceived q hq).readsBack (by rw [Value.isWhole]; exact (hparts q hq).2)
  exact ⟨fun q hq => (hparts q hq).1, fun q hq q' hq' h =>
    variableValues_eq_of_variablesText_eq (hreads q hq) (hreads q' hq') h⟩

end OperationGraph
