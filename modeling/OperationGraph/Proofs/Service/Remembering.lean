import OperationGraph.Proofs.Service.Exchange

/-! # Services that remember

A service takes a result from its memory only where it would find the same result anew. This holds for
every memory that gives back nothing but what was set last under a key, whatever it forgets and when, and
for every digest, since a result is used again only for the schema and the canonical text it was made
for. -/

namespace OperationGraph

/-- A memory gives back nothing but the value that was set last under a key. Looking up or setting a
value may make it forget any others. -/
class LawfulMemory (μ : Type) {κ α : Type} [Memory μ κ α] : Prop where
  find?_touch {m : μ} {k l : κ} {a : α} :
    Memory.find? (Memory.touch m k) l = some a → Memory.find? m l = some a
  find?_add {m : μ} {k l : κ} {a b : α} :
    Memory.find? (Memory.add m k a) l = some b → l = k ∧ b = a ∨ l ≠ k ∧ Memory.find? m l = some b

namespace Cache
variable {κ α : Type} [DecidableEq κ]

theorem find?_cons (c : Cache κ α) (k : κ) (a : α) (rest : List (κ × α)) (l : κ) :
    find? { c with entries := (k, a) :: rest } l =
      if l = k then some a else find? { c with entries := rest } l := by
  by_cases h : l = k
  · simp [find?, h]
  · simp [find?, h, Ne.symm h]

theorem find?_erase_of_ne (c : Cache κ α) {k l : κ} (h : l ≠ k) :
    (c.erase k).find? l = c.find? l := by
  have hentries : (c.entries.filter (·.1 ≠ k)).find? (·.1 = l) = c.entries.find? (·.1 = l) := by
    rw [List.find?_filter]
    congr 1
    funext e
    by_cases he : e.1 = l <;> simp [he, h]
  simp only [find?, erase, hentries]

theorem find?_touch (c : Cache κ α) (k l : κ) : (c.touch k).find? l = c.find? l := by
  unfold touch
  cases hk : c.find? k with
  | none => rfl
  | some a =>
    rw [find?_cons]
    by_cases h : l = k
    · rw [if_pos h, h, hk]
    · rw [if_neg h]
      exact c.find?_erase_of_ne h

theorem find?_add {c : Cache κ α} {k l : κ} {a b : α} (h : (c.add k a).find? l = some b) :
    l = k ∧ b = a ∨ l ≠ k ∧ c.find? l = some b := by
  have hwhole : find? { c with entries := (k, a) :: (c.erase k).entries } l = some b := by
    unfold find? at h ⊢
    cases he : (c.add k a).entries.find? (·.1 = l) with
    | none => simp [he] at h
    | some e =>
      have htaken : (c.add k a).entries <+: (k, a) :: (c.erase k).entries := List.take_prefix _ _
      rw [htaken.find?_eq_some he]
      simpa [he] using h
  rw [find?_cons] at hwhole
  by_cases hl : l = k
  · rw [if_pos hl] at hwhole
    exact .inl ⟨hl, (Option.some.inj hwhole).symm⟩
  · rw [if_neg hl] at hwhole
    exact .inr ⟨hl, (c.find?_erase_of_ne hl).symm.trans hwhole⟩

instance : LawfulMemory (Cache κ α) where
  find?_touch {m k l _} h := (m.find?_touch k l).symm.trans h
  find?_add := find?_add

end Cache

/-! ### What a service remembers -/

/-- Requests that their canonical texts tell apart: no query has a NUL character, and different
variables are written differently. -/
structure AnalysisRequest.ToldApart (known : List AnalysisRequest) : Prop where
  query_nul : ∀ q ∈ known, '\x00' ∉ q.query.toList
  variables_inj : ∀ q ∈ known, ∀ q' ∈ known,
    q.variablesText = q'.variablesText → q.variableValues = q'.variableValues

theorem AnalysisRequest.ToldApart.eq_of_canonical_eq {known : List AnalysisRequest}
    (h : ToldApart known) {q q' : AnalysisRequest} (hq : q ∈ known) (hq' : q' ∈ known)
    (hcanonical : q.canonical = q'.canonical) : q = q' := by
  have hnuls : q.queryNuls = q'.queryNuls := by
    rw [queryNuls, queryNuls, List.count_eq_zero_of_not_mem (h.query_nul q hq),
      List.count_eq_zero_of_not_mem (h.query_nul q' hq')]
  obtain ⟨hquery, hname⟩ := query_eq_of_canonical_eq hcanonical hnuls
  have hvariables := h.variables_inj q hq q' hq' (canonical_eq_iff.1 hcanonical).2
  cases q
  cases q'
  simp_all

/-- A remembered result is not newer than the schema in use. If it was made for that schema, it is the
result of a known request. -/
structure CachedResult.Holds (known : List AnalysisRequest) (source : SchemaSource)
    (e : CachedResult) : Prop where
  number_le : e.schemaNumber ≤ source.number
  result_eq : e.schemaNumber = source.number →
    ∃ q ∈ known, e.canonical = q.canonical ∧ q.analyze source.schema = some e.result

/-- A schema put in place makes all results of before useless. -/
theorem CachedResult.Holds.replace {known : List AnalysisRequest} {source : SchemaSource}
    {e : CachedResult} (h : e.Holds known source) (schema : Schema) (generation : Nat) :
    e.Holds known (source.replace schema generation) := by
  obtain ⟨hle, hresult⟩ := h
  have holder : e.schemaNumber ≠ source.number + 1 := Nat.ne_of_lt (Nat.lt_succ_of_le hle)
  unfold SchemaSource.replace
  cases source.kind with
  | fixed => exact ⟨hle, hresult⟩
  | changing | versioned => exact ⟨Nat.le_succ_of_le hle, fun he => absurd he holder⟩

/-- An event without what depends on the way to a result. -/
def Event.unmarked : Event → Event
  | .analysisFinished r => .analysisFinished { r with cached := false, duration := 0 }
  | e => e

namespace AnalysisRequest

def freshReply (schema : Schema) (expired : Bool) (r : AnalysisRequest) : Option Reply :=
  if expired then some .timedOut else (r.analyze schema).map (·.reply)

/-- What is told about a document that is analyzed anew. -/
def freshEvents (schema : Schema) (expired : Bool) (r : AnalysisRequest) : List Event :=
  if expired then []
  else
    match r.analyze schema with
    | none => [.analysisStarted r.query r.operationName r.operationType]
    | some a => (ServiceWith.account { freshId := "" } "" r false a).events

/-- What is told about documents that are analyzed anew, up to the first one without a reply. -/
def freshEventsOf (schema : Schema) (expired : Bool) : List AnalysisRequest → List Event
  | [] => []
  | r :: rest =>
    r.freshEvents schema expired ++
      if (r.freshReply schema expired).isSome then freshEventsOf schema expired rest else []

end AnalysisRequest

namespace ServiceWith
variable {μ : Type} [Memory μ UInt64 CachedResult]

/-- All that a service remembers holds. -/
def Faithful (known : List AnalysisRequest) (s : ServiceWith μ) : Prop :=
  ∀ k e, Memory.find? s.memory k = some e → e.Holds known s.source

theorem faithful_of_empty {known : List AnalysisRequest} {s : ServiceWith μ}
    (h : ∀ k, Memory.find? s.memory k = none) : s.Faithful known := by
  intro k e he
  simp [h k] at he

section
variable {known : List AnalysisRequest} {s : ServiceWith μ}

theorem Faithful.touch [LawfulMemory μ] (h : s.Faithful known) (k : UInt64) :
    ServiceWith.Faithful known { s with memory := Memory.touch s.memory k } :=
  fun l e he => h l e (LawfulMemory.find?_touch he)

theorem Faithful.add [LawfulMemory μ] (h : s.Faithful known) (k : UInt64) {e : CachedResult}
    (he : e.Holds known s.source) :
    ServiceWith.Faithful known { s with memory := Memory.add s.memory k e } := by
  intro l b hb
  rcases LawfulMemory.find?_add hb with ⟨-, rfl⟩ | ⟨-, hb⟩
  · exact he
  · exact h l b hb

theorem Faithful.replaceSchema (h : s.Faithful known) (schema : Schema) (generation : Nat) :
    (s.replaceSchema schema generation).Faithful known :=
  fun k e he => (h k e he).replace schema generation

variable (hk : AnalysisRequest.ToldApart known) (hs : s.Faithful known)
  (digest : List Nat → UInt64) (c : Circumstances) (requestId : String)

include hk hs

/-- What is remembered for a known request is what its analysis gives. -/
theorem remembered?_eq {r : AnalysisRequest} (hr : r ∈ known) {key : UInt64} {a : AnalysisResult}
    (h : s.remembered? key r.canonical = some a) : r.analyze s.source.schema = some a := by
  unfold remembered? at h
  cases he : Memory.find? s.memory key with
  | none => simp [he] at h
  | some e =>
    simp only [he, Bool.and_eq_true, decide_eq_true_eq] at h
    split at h
    · next hmatch =>
      obtain ⟨q, hq, hcanonical, hresult⟩ := (hs key e he).result_eq hmatch.1
      have hqr : q = r := hk.eq_of_canonical_eq hq hr (hcanonical.symm.trans hmatch.2)
      rw [← Option.some.inj h, ← hqr, hresult]
    · cases h

variable [LawfulMemory μ]

/-- A document changes nothing but the memory, which stays faithful, and is answered as if it was
analyzed anew. -/
theorem answer_spec {r : AnalysisRequest} (hr : r ∈ known) :
    ∃ memory told, s.answer digest c requestId r =
        ({ s with memory }, r.freshReply s.source.schema c.expired, told) ∧
      ServiceWith.Faithful known { s with memory } ∧
      told.events.map Event.unmarked = r.freshEvents s.source.schema c.expired := by
  unfold AnalysisRequest.freshReply AnalysisRequest.freshEvents
  cases hc : c.expired with
  | true =>
    rw [answer_of_expired digest s requestId hc]
    exact ⟨s.memory, {}, rfl, hs, rfl⟩
  | false =>
    cases hm : s.remembered? (s.keyOf digest r) r.canonical with
    | some a =>
      rw [answer_of_remembered digest s requestId hc hm, remembered?_eq hk hs hr hm]
      exact ⟨_, _, rfl, hs.touch _, rfl⟩
    | none =>
      cases ha : r.analyze s.source.schema with
      | none =>
        rw [answer_of_endless digest s requestId hc hm ha]
        exact ⟨_, _, rfl, hs.touch _, rfl⟩
      | some a =>
        have hholds : CachedResult.Holds known s.source ⟨s.source.number, r.canonical, a⟩ :=
          ⟨Nat.le_refl _, fun _ => ⟨r, hr, rfl, ha⟩⟩
        rw [answer_of_analyze digest s requestId hc hm ha]
        exact ⟨_, _, rfl, (hs.touch _).add _ hholds, rfl⟩

/-- Documents in turn get their replies, or none of them does if one has none. -/
theorem answerAll_spec {rs : List AnalysisRequest} (hrs : ∀ r ∈ rs, r ∈ known) :
    ∃ memory told, s.answerAll digest c requestId rs =
        ({ s with memory }, rs.mapM (·.freshReply s.source.schema c.expired), told) ∧
      ServiceWith.Faithful known { s with memory } ∧
      told.events.map Event.unmarked =
        AnalysisRequest.freshEventsOf s.source.schema c.expired rs := by
  induction rs generalizing s with
  | nil => exact ⟨s.memory, {}, rfl, hs, rfl⟩
  | cons r rest ih =>
    simp only [List.mem_cons, forall_eq_or_imp] at hrs
    obtain ⟨memory, told, hanswer, hfaithful, hevents⟩ := answer_spec hk hs digest c requestId hrs.1
    rw [answerAll, hanswer, AnalysisRequest.freshEventsOf, List.mapM_cons]
    cases hreply : r.freshReply s.source.schema c.expired with
    | none =>
      refine ⟨memory, told, rfl, hfaithful, ?_⟩
      rw [hevents]
      exact (List.append_nil _).symm
    | some reply =>
      obtain ⟨memory', more, hrest, hfaithful', hmore⟩ := ih hfaithful hrs.2
      refine ⟨memory', told ++ more, ?_, hfaithful', ?_⟩
      · simp only [hrest]
        cases rest.mapM (·.freshReply s.source.schema c.expired) <;> rfl
      · rw [Account.events_append, List.map_append, hevents, hmore]
        rfl

end

/-! ### Requests -/

/-- The service that remembers nothing, with the same schema. -/
def uncached (s : ServiceWith μ) : Service :=
  Service.create { s.options with cacheSize := 0 } s.source

/-- A request changes nothing but the memory, which stays faithful. It gets the response of the service
that remembers nothing, and the same is told about it. -/
theorem process_spec [LawfulMemory μ] {known : List AnalysisRequest} {s : ServiceWith μ}
    (hk : AnalysisRequest.ToldApart known) (hs : s.Faithful known) (digest : List Nat → UInt64)
    (c : Circumstances) (elapsed : Int) (requestId : String) {r : Http.Request}
    (hr : ∀ q ∈ Submission.asked s.options.maxBodyBytes r, q ∈ known) :
    ∃ memory response told told',
      s.process digest c requestId r = ({ s with memory }, response, told) ∧
      (s.uncached.process digest { c with elapsed } requestId r).2 = (response, told') ∧
      ServiceWith.Faithful known { s with memory } ∧
      told.events.map Event.unmarked = told'.events.map Event.unmarked := by
  have ht : s.uncached.Faithful known := faithful_of_empty fun _ => rfl
  by_cases hoptions : r.method = "OPTIONS"
  · simp only [process, if_pos hoptions]
    exact ⟨s.memory, _, _, _, rfl, rfl, hs, rfl⟩
  by_cases hmethod : r.method = "POST" ∨ r.method = "GET"
  · have hpasses : (decide (r.method ≠ "POST") && decide (r.method ≠ "GET")) = false := by
      rcases hmethod with h | h <;> simp [h]
    rw [Submission.asked, if_pos hmethod] at hr
    have hlimit : s.uncached.options.maxBodyBytes = s.options.maxBodyBytes := rfl
    simp only [process, if_neg hoptions, hpasses, Bool.false_eq_true, if_false, hlimit]
    cases hsub : Submission.ofRequest s.options.maxBodyBytes r with
    | error e => exact ⟨s.memory, _, _, _, rfl, rfl, hs, rfl⟩
    | ok sub =>
      rw [hsub] at hr
      cases sub with
      | single q =>
        have hq : q ∈ known := hr q List.mem_cons_self
        obtain ⟨memory, told, hanswer, hfaithful, hevents⟩ :=
          answer_spec hk hs digest c requestId hq
        obtain ⟨memory', told', hanswer', -, hevents'⟩ :=
          answer_spec hk ht digest { c with elapsed } requestId hq
        simp only [hanswer, hanswer']
        exact ⟨memory, _, told, told', rfl, rfl, hfaithful, hevents.trans hevents'.symm⟩
      | batch qs =>
        have hqs : ∀ q ∈ qs, q ∈ known := hr
        obtain ⟨memory, told, hanswer, hfaithful, hevents⟩ :=
          answerAll_spec hk hs digest c requestId hqs
        obtain ⟨memory', told', hanswer', -, hevents'⟩ :=
          answerAll_spec hk ht digest { c with elapsed } requestId hqs
        simp only [hanswer, hanswer']
        exact ⟨memory, _, told, told', rfl, rfl, hfaithful, hevents.trans hevents'.symm⟩
  · have hrefused : (decide (r.method ≠ "POST") && decide (r.method ≠ "GET")) = true := by
      simpa using hmethod
    simp only [process, if_neg hoptions, hrefused, if_true]
    exact ⟨s.memory, _, _, _, rfl, rfl, hs, rfl⟩

/-- Serving a request is like processing it. -/
theorem serve_spec [LawfulMemory μ] {known : List AnalysisRequest} {s : ServiceWith μ}
    (hk : AnalysisRequest.ToldApart known) (hs : s.Faithful known) (digest : List Nat → UInt64)
    (c : Circumstances) (elapsed : Int) {r : Http.Request}
    (hr : ∀ q ∈ Submission.asked s.options.maxBodyBytes r, q ∈ known) :
    ∃ memory response told told',
      s.serve digest c r = ({ s with memory }, response, told) ∧
      (s.uncached.serve digest { c with elapsed } r).2 = (response, told') ∧
      ServiceWith.Faithful known { s with memory } ∧
      told.events.map Event.unmarked = told'.events.map Event.unmarked := by
  obtain ⟨memory, response, told, told', hs', ht', hfaithful, hevents⟩ :=
    process_spec hk hs digest c elapsed
      (Http.RequestId.ofIncoming c.freshId (r.headers.get Http.requestIdHeader)) hr
  simp only [serve, hs', ht']
  refine ⟨memory, response, _, _, rfl, rfl, hfaithful, ?_⟩
  simp [hevents]

end ServiceWith

/-! ### Runs -/

/-- What happens to a service: a request comes in, or the schema is loaded again. -/
inductive Incident where
  | request (c : Circumstances) (r : Http.Request)
  | reload (schema : Schema) (generation : Nat)

def Incident.asked (limit : Int64) : Incident → List AnalysisRequest
  | request _ r => Submission.asked limit r
  | reload .. => []

def Incident.askedIn (limit : Int64) (is : List Incident) : List AnalysisRequest :=
  is.flatMap (Incident.asked limit)

def SchemaSource.after (s : SchemaSource) : List Incident → SchemaSource
  | [] => s
  | .request .. :: rest => s.after rest
  | .reload schema generation :: rest => (s.replace schema generation).after rest

namespace ServiceWith
variable {μ : Type} [Memory μ UInt64 CachedResult]

def after (digest : List Nat → UInt64) (s : ServiceWith μ) : List Incident → ServiceWith μ
  | [] => s
  | .request c r :: rest => (s.serve digest c r).1.after digest rest
  | .reload schema generation :: rest => (s.replaceSchema schema generation).after digest rest

theorem after_spec [LawfulMemory μ] {known : List AnalysisRequest} {s : ServiceWith μ}
    (hk : AnalysisRequest.ToldApart known) (hs : s.Faithful known) (digest : List Nat → UInt64)
    {past : List Incident}
    (hpast : ∀ i ∈ past, ∀ q ∈ i.asked s.options.maxBodyBytes, q ∈ known) :
    (s.after digest past).options = s.options ∧
      (s.after digest past).source = s.source.after past ∧
      (s.after digest past).Faithful known := by
  induction past generalizing s with
  | nil => exact ⟨rfl, rfl, hs⟩
  | cons i rest ih =>
    simp only [List.mem_cons, forall_eq_or_imp] at hpast
    cases i with
    | request c r =>
      obtain ⟨memory, response, told, told', hserve, -, hfaithful, -⟩ :=
        serve_spec hk hs digest c c.elapsed hpast.1
      simp only [after, SchemaSource.after, hserve]
      exact ih hfaithful hpast.2
    | reload schema generation =>
      exact ih (hs.replaceSchema schema generation) hpast.2

/-- After any requests and reloads, a request gets the response that it gets from a service that
remembers nothing and has the present schema, and the same is told about it, save for how long the
analysis took and whether the result was remembered. -/
theorem serve_after_eq_uncached [LawfulMemory μ] (digest : List Nat → UInt64) (s : ServiceWith μ)
    (hempty : ∀ k, Memory.find? s.memory k = none) (past : List Incident) (c : Circumstances)
    (elapsed : Int) (r : Http.Request)
    (hk : AnalysisRequest.ToldApart
      (Incident.askedIn s.options.maxBodyBytes (past ++ [Incident.request c r]))) :
    let served := (s.after digest past).serve digest c r
    let fresh := (Service.create { s.options with cacheSize := 0 } (s.source.after past)).serve digest
      { c with elapsed } r
    served.2.1 = fresh.2.1 ∧
      served.2.2.events.map Event.unmarked = fresh.2.2.events.map Event.unmarked := by
  have hasked : ∀ i ∈ past ++ [Incident.request c r], ∀ q ∈ i.asked s.options.maxBodyBytes,
      q ∈ Incident.askedIn s.options.maxBodyBytes (past ++ [Incident.request c r]) :=
    fun i hi q hq => List.mem_flatMap.2 ⟨i, hi, hq⟩
  obtain ⟨hoptions, hsource, hfaithful⟩ := after_spec hk (faithful_of_empty hempty) digest
    fun i hi => hasked i (List.mem_append_left _ hi)
  have hr : ∀ q ∈ Submission.asked (s.after digest past).options.maxBodyBytes r,
      q ∈ Incident.askedIn s.options.maxBodyBytes (past ++ [Incident.request c r]) := by
    rw [hoptions]
    exact hasked (.request c r) (List.mem_append_right _ (List.mem_singleton_self _))
  obtain ⟨memory, response, told, told', hserve, hfresh, -, hevents⟩ :=
    serve_spec hk hfaithful digest c elapsed hr
  rw [uncached, hoptions, hsource] at hfresh
  simp only [hserve, hfresh]
  exact ⟨trivial, hevents⟩

end ServiceWith

namespace Repeated

def ask (query : String) : Http.Request := { method := "GET", target := { path := "/", query } }

/-- A request for a field that is not known, a new schema that has it, a request for another field, and
the first request again. -/
def past : List Incident :=
  [.request { freshId := "1" } (ask "query=%7Bself%7D"), .reload Endless.schema 2,
    .request { freshId := "2" } (ask "query=%7Bme%7D"),
    .request { freshId := "3" } (ask "query=%7Bself%7D")]

def service : Service :=
  Service.create { cacheSize := 1 } { kind := .versioned, schema := Endless.renamed, generation := 1 }

theorem toldApart : AnalysisRequest.ToldApart
    (Incident.askedIn service.options.maxBodyBytes
      (past ++ [Incident.request { freshId := "4" } (ask "query=%7Bself%7D")])) where
  query_nul := by decide
  variables_inj := by
    have hempty : ∀ q ∈ Incident.askedIn service.options.maxBodyBytes
        (past ++ [Incident.request { freshId := "4" } (ask "query=%7Bself%7D")]),
        q.variableValues.isEmpty := by decide
    intro q hq q' hq' _
    rw [List.isEmpty_iff.1 (hempty q hq), List.isEmpty_iff.1 (hempty q' hq')]

def informed (source : SchemaSource) (number : Nat) (q : AnalysisRequest) (a : AnalysisResult) :
    Service :=
  { service with
    source
    memory := { capacity := 1, entries := [(0, ⟨number, q.canonical, a⟩)] } }

/-- A document that is not remembered is, once it was asked for. -/
theorem serve_anew {s : Service} {c : Circumstances} (hc : c.expired = false) {r : Http.Request}
    {q : AnalysisRequest} {a : AnalysisResult} (hr : s.options.accepted? r = some (.single q))
    (hmiss : s.remembered? 0 q.canonical = none) (ha : q.analyze s.source.schema = some a) :
    (s.serve (fun _ => 0) c r).1 =
      { s with
        memory := Memory.add (Memory.touch s.memory 0) 0 ⟨s.source.number, q.canonical, a⟩ } := by
  obtain ⟨headers, hserve⟩ := ServiceWith.serve_of_single (fun _ => 0) s c hr
    (ServiceWith.answer_of_analyze (fun _ => 0) s _ hc hmiss ha)
  rw [hserve]
  rfl

theorem accepted_self :
    service.options.accepted? (ask "query=%7Bself%7D") = some (.single Endless.single) := rfl

theorem accepted_me :
    service.options.accepted? (ask "query=%7Bme%7D") = some (.single Endless.renamedSingle) := rfl

def renewed : SchemaSource :=
  { kind := .versioned, schema := Endless.schema, number := 1, generation := 2 }

theorem after_past :
    service.after (fun _ => 0) past = informed renewed 1 Endless.single Endless.singleResult := by
  have hfirst : (service.serve (fun _ => 0) { freshId := "1" } (ask "query=%7Bself%7D")).1 =
      informed service.source 0 Endless.single (Endless.unknownField "self") :=
    serve_anew rfl accepted_self rfl Endless.analyze_unknownField.1
  -- what was remembered before the new schema is of no use
  have hsecond : ((informed renewed 0 Endless.single (Endless.unknownField "self")).serve (fun _ => 0)
      { freshId := "2" } (ask "query=%7Bme%7D")).1 =
      informed renewed 1 Endless.renamedSingle (Endless.unknownField "me") :=
    serve_anew rfl accepted_me rfl Endless.analyze_unknownField.2
  have hthird : ((informed renewed 1 Endless.renamedSingle (Endless.unknownField "me")).serve
      (fun _ => 0) { freshId := "3" } (ask "query=%7Bself%7D")).1 =
      informed renewed 1 Endless.single Endless.singleResult :=
    serve_anew rfl accepted_self rfl Endless.analyze_single
  have hreload : (informed service.source 0 Endless.single
      (Endless.unknownField "self")).replaceSchema Endless.schema 2 =
      informed renewed 0 Endless.single (Endless.unknownField "self") := rfl
  simp only [past, ServiceWith.after, hfirst, hreload, hsecond, hthird]

/-- The answer to the first request when it comes once more. -/
def served : Service × Option Http.Response × Account :=
  (service.after (fun _ => 0) past).serve (fun _ => 0) { freshId := "4" } (ask "query=%7Bself%7D")

def fresh : Service × Option Http.Response × Account :=
  (Service.create { service.options with cacheSize := 0 } (service.source.after past)).serve
    (fun _ => 0) { freshId := "4", elapsed := 7 } (ask "query=%7Bself%7D")

theorem served_spec :
    served.2.1.map (·.body) = some (Endless.singleResult.reply.toJson.document false) ∧
      ∃ report, Event.analysisFinished report ∈ served.2.2.events ∧ report.cached = true := by
  obtain ⟨headers, hserve⟩ := ServiceWith.serve_of_single (fun _ => 0)
    (informed renewed 1 Endless.single Endless.singleResult) { freshId := "4" } accepted_self
    (ServiceWith.answer_of_remembered (fun _ => 0) _ _ rfl rfl)
  rw [served, after_past, hserve]
  exact ⟨rfl, _, .tail _ (.tail _ (.head _)), rfl⟩

end Repeated

/-- Although one key is used for all, and the request failed before, the last answer is the graph that is
remembered, and it is right. -/
theorem ServiceWith.serve_after_eq_uncached_repeated :
    Repeated.served.2.1.map (·.body) =
        some (Endless.singleResult.reply.toJson.document false) ∧
      (∃ report, Event.analysisFinished report ∈ Repeated.served.2.2.events ∧
        report.cached = true) ∧
      Repeated.served.2.1 = Repeated.fresh.2.1 ∧
      Repeated.served.2.2.events.map Event.unmarked =
        Repeated.fresh.2.2.events.map Event.unmarked := by
  have h := serve_after_eq_uncached (fun _ => 0) Repeated.service (fun _ => rfl) Repeated.past
    { freshId := "4" } 7 (Repeated.ask "query=%7Bself%7D") Repeated.toldApart
  refine ⟨Repeated.served_spec.1, Repeated.served_spec.2, ?_⟩
  simp only [Repeated.served, Repeated.fresh]
  -- nothing is to be computed here
  with_reducible exact h

end OperationGraph
