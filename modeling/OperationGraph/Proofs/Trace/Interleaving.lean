import Mathlib.Data.List.FinRange
import Mathlib.Logic.Function.Basic
import OperationGraph.Trace.Span

/-! # Spans of interleaved requests

A request is told as a start, its analyses one after the other, and a finish. The events of several
requests may be interleaved in any way in which requests with one identifier are not in flight
together. The tracer then starts and ends one span for every request and one for every analysis, with
what the finish of the request or the analysis says (`Tracer.observe_interleaving`). -/

namespace OperationGraph

/-! ### Streams of events -/

/-- What the start and the finish of an analysis say. -/
structure AnalysisStream where
  query : String
  operationName : String
  operationType : String
  report : AnalysisReport
deriving DecidableEq

/-- What the events of a request say, in their order. -/
structure RequestStream where
  requestId : String
  method : String
  path : String
  analyses : List AnalysisStream
  status : Int
deriving DecidableEq

namespace AnalysisStream

def events (a : AnalysisStream) : List Event :=
  [.analysisStarted a.query a.operationName a.operationType, .analysisFinished a.report]

/-- The span of an analysis on its way, inside the span of a request. -/
def openSpan (a : AnalysisStream) (parent number : Nat) : Span where
  number
  name := Span.analysisName
  parent := some (parent, Span.requestName)
  attributes := [("graphql.operation.name", .text a.operationName),
    ("graphql.operation.type", .text a.operationType)]

def span (parent number : Nat) (a : AnalysisStream) : Span where
  number
  name := Span.analysisName
  parent := some (parent, Span.requestName)
  attributes := [("graphql.operation.name", .text a.operationName),
    ("graphql.operation.type", .text a.operationType),
    ("fieldgraph.vertices", .int a.report.vertices), ("fieldgraph.cached", .flag a.report.cached)]
  status := match a.report.failure with
    | some e => .error e
    | none => .unset
  exceptions := a.report.failure.toList

theorem finishAnalysis_openSpan (a : AnalysisStream) (parent number : Nat) :
    (a.openSpan parent number).finishAnalysis a.report = span parent number a := by
  cases hfailure : a.report.failure <;> simp [Span.finishAnalysis, openSpan, span, hfailure]

end AnalysisStream

namespace RequestStream

def eventsFrom (s : RequestStream) (rest : List AnalysisStream) : List Event :=
  rest.flatMap AnalysisStream.events ++ [.requestFinished s.status]

def events (s : RequestStream) : List Event :=
  .requestStarted s.method s.path :: s.eventsFrom s.analyses

def openSpan (s : RequestStream) (number : Nat) : Span where
  number
  name := Span.requestName
  attributes := [("http.method", .text s.method), ("http.target", .text s.path),
    ("http.request_id", .text s.requestId)]

def span (s : RequestStream) (number : Nat) : Span where
  number
  name := Span.requestName
  attributes := [("http.method", .text s.method), ("http.target", .text s.path),
    ("http.request_id", .text s.requestId), ("http.status_code", .int s.status)]
  status := if 500 ≤ s.status then .error "" else .unset

theorem finishRequest_openSpan (s : RequestStream) (number : Nat) :
    (s.openSpan number).finishRequest s.status = s.span number := rfl

/-- The spans of a request and of its analyses, by the numbers that they get. -/
def spans (s : RequestStream) : List Nat → List Span
  | [] => []
  | number :: numbers => s.span number :: List.zipWith (AnalysisStream.span number) numbers s.analyses

theorem map_number_zipWith (parent : Nat) {numbers : List Nat} {as : List AnalysisStream}
    (h : numbers.length = as.length) :
    (List.zipWith (AnalysisStream.span parent) numbers as).map Span.number = numbers := by
  induction numbers generalizing as with
  | nil => rfl
  | cons number rest ih =>
    cases as with
    | nil => cases h
    | cons a as => exact congrArg (number :: ·) (ih (Nat.succ.inj h))

theorem map_number_spans {s : RequestStream} {numbers : List Nat}
    (h : numbers.length = s.analyses.length + 1) : (s.spans numbers).map Span.number = numbers := by
  cases numbers with
  | nil => rfl
  | cons number numbers => exact congrArg (number :: ·) (map_number_zipWith number (Nat.succ.inj h))

end RequestStream

/-! ### Interleaving -/

def Event.startsSpan : Event → Bool
  | requestStarted .. | analysisStarted .. => true
  | _ => false

section
variable {n : Nat}

/-- The events of requests in one order, each with its request: those of one request are the events of
its stream. -/
def Interleaves (streams : Fin n → RequestStream) (run : List (Fin n × Event)) : Prop :=
  ∀ i, (run.filter (·.1 = i)).map (·.2) = (streams i).events

/-- A request that has started and not finished between two parts of a run. -/
def InFlight (before after : List (Fin n × Event)) (i : Fin n) : Prop :=
  i ∈ before.map Prod.fst ∧ i ∈ after.map Prod.fst

/-- No two requests that are in flight at the same time share an identifier. -/
def IdsApart (streams : Fin n → RequestStream) (run : List (Fin n × Event)) : Prop :=
  ∀ before after, run = before ++ after → ∀ i j, InFlight before after i → InFlight before after j →
    (streams i).requestId = (streams j).requestId → i = j

instance (before after : List (Fin n × Event)) (i : Fin n) : Decidable (InFlight before after i) :=
  inferInstanceAs (Decidable (_ ∧ _))

/-- It is enough to look at the run after each number of events. -/
instance (streams : Fin n → RequestStream) (run : List (Fin n × Event)) :
    Decidable (IdsApart streams run) :=
  decidable_of_iff (∀ k < run.length + 1, ∀ i j, InFlight (run.take k) (run.drop k) i →
      InFlight (run.take k) (run.drop k) j → (streams i).requestId = (streams j).requestId → i = j) <| by
    refine ⟨fun h before after hsplit => ?_, fun h k _ => h _ _ (List.take_append_drop k run).symm⟩
    have hk := h before.length (by rw [hsplit, List.length_append]; omega)
    rwa [hsplit, List.take_left, List.drop_left] at hk

instance (streams : Fin n → RequestStream) (run : List (Fin n × Event)) :
    Decidable (Interleaves streams run) :=
  inferInstanceAs (Decidable (∀ _, _ = _))

def occurrence (streams : Fin n → RequestStream) (e : Fin n × Event) : Occurrence :=
  { requestId := (streams e.1).requestId, event := e.2 }

/-- The numbers of the spans that the events of a request start, if `count` spans were started before. -/
def spanNumbers (count : Nat) : List (Fin n × Event) → Fin n → List Nat
  | [], _ => []
  | (j, e) :: rest, i =>
    if e.startsSpan then
      if j = i then count :: spanNumbers (count + 1) rest i else spanNumbers (count + 1) rest i
    else spanNumbers count rest i

theorem length_spanNumbers (count : Nat) (run : List (Fin n × Event)) (i : Fin n) :
    (spanNumbers count run i).length =
      (((run.filter (·.1 = i)).map (·.2)).filter Event.startsSpan).length := by
  induction run generalizing count with
  | nil => rfl
  | cons head rest ih =>
    obtain ⟨j, e⟩ := head
    cases he : e.startsSpan <;> by_cases hj : j = i <;> simp [spanNumbers, he, hj, ih]

/-- An element that one of several lists gets in front stands in front of them all. -/
theorem perm_flatMap_finRange {α : Type} {f g : Fin n → List α} {i : Fin n} {x : α}
    (hi : (f i).Perm (x :: g i)) (hother : ∀ j, j ≠ i → f j = g j) :
    ((List.finRange n).flatMap f).Perm (x :: (List.finRange n).flatMap g) := by
  obtain ⟨before, after, hsplit⟩ := List.append_of_mem (List.mem_finRange i)
  have hnodup : (before ++ i :: after).Nodup := hsplit ▸ List.nodup_finRange n
  obtain ⟨hbefore, hafter⟩ : i ∉ before ∧ i ∉ after := by
    rw [List.nodup_middle, List.nodup_cons, List.mem_append] at hnodup
    exact ⟨fun h => hnodup.1 (.inl h), fun h => hnodup.1 (.inr h)⟩
  have hsame {l : List (Fin n)} (hl : i ∉ l) : l.flatMap f = l.flatMap g :=
    List.flatMap_congr fun j hj => hother j fun heq => hl (heq ▸ hj)
  rw [hsplit, List.flatMap_append, List.flatMap_append, List.flatMap_cons, List.flatMap_cons,
    hsame hbefore, hsame hafter]
  exact (List.Perm.append_left _ (hi.append_right _)).trans List.perm_middle

/-- The numbers of all spans are those from the first one on, each once. -/
theorem perm_spanNumbers (count : Nat) (run : List (Fin n × Event)) :
    ((List.finRange n).flatMap (spanNumbers count run)).Perm
      (List.range' count (run.filter (·.2.startsSpan)).length) := by
  induction run generalizing count with
  | nil => simp [spanNumbers]
  | cons head rest ih =>
    obtain ⟨j, e⟩ := head
    cases he : e.startsSpan with
    | false =>
      have hsame : spanNumbers count ((j, e) :: rest) = spanNumbers count rest := by
        funext i
        simp [spanNumbers, he]
      simpa [hsame, he] using ih count
    | true =>
      have hperm : ((List.finRange n).flatMap (spanNumbers count ((j, e) :: rest))).Perm
          (count :: (List.finRange n).flatMap (spanNumbers (count + 1) rest)) := by
        refine perm_flatMap_finRange (i := j) ?_ fun i hi => ?_
        · simp [spanNumbers, he]
        · simp [spanNumbers, he, hi.symm]
      simpa [he, List.range'_succ] using hperm.trans ((ih (count + 1)).cons count)

end

/-! ### Spans on their way -/

namespace OpenSpans

variable {o : OpenSpans} {id id' : String} {s : Span}

@[simp] theorem get?_set_self : (o.set id s).get? id = some s := by
  simp [get?, set]

theorem get?_erase_of_ne (h : id' ≠ id) : (o.erase id).get? id' = o.get? id' := by
  rw [get?, get?, erase, List.find?_filter]
  congr 2
  funext e
  by_cases he : e.1 = id'
  · simp [he, h]
  · simp [he]

theorem get?_set_of_ne (h : id' ≠ id) : (o.set id s).get? id' = o.get? id' := by
  rw [← get?_erase_of_ne (o := o) h, get?, set, List.find?_cons_of_neg (by simpa using h.symm)]
  rfl

theorem mem_erase {e : String × Span} : e ∈ o.erase id ↔ e ∈ o ∧ e.1 ≠ id := by
  simp [erase]

/-- Spans on their way that belong to requests: `own i` is that of the `i`th, if it has one. -/
structure Holds {n : Nat} (ids : Fin n → String) (own : Fin n → Option Span) (o : OpenSpans) :
    Prop where
  get : ∀ i s, own i = some s → o.get? (ids i) = some s
  only : ∀ e ∈ o, ∃ i, (own i).isSome ∧ e.1 = ids i

section
variable {n : Nat} {ids : Fin n → String} {own : Fin n → Option Span} {i : Fin n}

theorem Holds.set (h : Holds ids own o) (hids : ∀ j, j ≠ i → (own j).isSome → ids j ≠ ids i) (s : Span) :
    Holds ids (Function.update own i (some s)) (o.set (ids i) s) where
  get j s' hj := by
    by_cases hij : j = i
    · subst hij
      rw [Function.update_self] at hj
      rw [get?_set_self, hj]
    · rw [Function.update_of_ne hij] at hj
      rw [get?_set_of_ne (hids j hij (by simp [hj]))]
      exact h.get j s' hj
  only e he := by
    rcases List.mem_cons.1 he with rfl | he
    · exact ⟨i, by simp, rfl⟩
    · obtain ⟨he, hne⟩ := mem_erase.1 he
      obtain ⟨j, hj, hid⟩ := h.only e he
      have hij : j ≠ i := fun hij => hne (hij ▸ hid)
      exact ⟨j, by rwa [Function.update_of_ne hij], hid⟩

theorem Holds.erase (h : Holds ids own o) (hids : ∀ j, j ≠ i → (own j).isSome → ids j ≠ ids i) :
    Holds ids (Function.update own i none) (o.erase (ids i)) where
  get j s' hj := by
    by_cases hij : j = i
    · subst hij
      rw [Function.update_self] at hj
      cases hj
    · rw [Function.update_of_ne hij] at hj
      rw [get?_erase_of_ne (hids j hij (by simp [hj]))]
      exact h.get j s' hj
  only e he := by
    obtain ⟨he, hne⟩ := mem_erase.1 he
    obtain ⟨j, hj, hid⟩ := h.only e he
    have hij : j ≠ i := fun hij => hne (hij ▸ hid)
    exact ⟨j, by rwa [Function.update_of_ne hij], hid⟩

theorem Holds.eq_nil (h : Holds ids own o) (hown : ∀ i, own i = none) : o = [] := by
  refine List.eq_nil_iff_forall_not_mem.2 fun e he => ?_
  obtain ⟨i, hi, -⟩ := h.only e he
  simp [hown i] at hi

end

end OpenSpans

/-! ### Phases -/

/-- How far a request has come: the number of its span, that of the analysis on its way, and the
analyses still to come. -/
inductive Phase where
  | waiting
  | serving (number : Nat) (rest : List AnalysisStream)
  | analyzing (number inner : Nat) (a : AnalysisStream) (rest : List AnalysisStream)
  | ended

namespace Phase

def events (s : RequestStream) : Phase → List Event
  | waiting => s.events
  | serving _ rest => s.eventsFrom rest
  | analyzing _ _ a rest => .analysisFinished a.report :: s.eventsFrom rest
  | ended => []

/-- The spans still to be ended; `numbers` are those of the spans still to be started. -/
def due (s : RequestStream) : Phase → List Nat → List Span
  | waiting, numbers => s.spans numbers
  | serving number rest, numbers =>
    s.span number :: List.zipWith (AnalysisStream.span number) numbers rest
  | analyzing number inner a rest, numbers =>
    s.span number :: a.span number inner :: List.zipWith (AnalysisStream.span number) numbers rest
  | ended, _ => []

def request? (s : RequestStream) : Phase → Option Span
  | serving number _ | analyzing number _ _ _ => some (s.openSpan number)
  | _ => none

def analysis? : Phase → Option Span
  | analyzing number inner a _ => some (a.openSpan number inner)
  | _ => none

theorem events_ne_nil {s : RequestStream} {p : Phase} (h : (p.request? s).isSome) :
    p.events s ≠ [] := by
  cases p <;> simp_all [request?, events, RequestStream.eventsFrom]

theorem isSome_request? {s : RequestStream} {p : Phase} (h : p.analysis?.isSome) :
    (p.request? s).isSome := by
  cases p <;> simp_all [request?, analysis?]

end Phase

section
variable {n : Nat} {streams : Fin n → RequestStream} {run : List (Fin n × Event)}
  {phases : Fin n → Phase}

/-- What is still to come of a run if requests are in these phases. -/
def Remains (streams : Fin n → RequestStream) (phases : Fin n → Phase)
    (run : List (Fin n × Event)) : Prop :=
  ∀ i, (run.filter (·.1 = i)).map (·.2) = (phases i).events (streams i)

theorem Remains.cons {i : Fin n} {e : Event} {p : Phase} (h : Remains streams phases ((i, e) :: run))
    (hp : (phases i).events (streams i) = e :: p.events (streams i)) :
    Remains streams (Function.update phases i p) run := by
  intro j
  have hj := h j
  by_cases hij : j = i
  · subst hij
    rw [hp] at hj
    simpa using hj
  · simpa [Function.update_of_ne hij, Ne.symm hij] using hj

theorem Remains.head {i : Fin n} {e : Event} (h : Remains streams phases ((i, e) :: run)) :
    ∃ es, (phases i).events (streams i) = e :: es := by
  refine ⟨(run.filter (·.1 = i)).map (·.2), ?_⟩
  rw [← h i]
  simp

/-- A request on its way has events to come. -/
theorem Remains.mem {i : Fin n} (h : Remains streams phases run)
    (hi : ((phases i).request? (streams i)).isSome) : i ∈ run.map Prod.fst := by
  have hne := Phase.events_ne_nil hi
  rw [← h i] at hne
  obtain ⟨e, he⟩ := List.exists_mem_of_ne_nil _ hne
  obtain ⟨⟨j, e'⟩, hmem, -⟩ := List.mem_map.1 he
  obtain ⟨hmem, hj⟩ := List.mem_filter.1 hmem
  exact List.mem_map.2 ⟨_, hmem, by simpa using hj⟩

/-- Identifiers stay apart in what is to come, requests that are on their way included. -/
def StayApart (streams : Fin n → RequestStream) (phases : Fin n → Phase)
    (run : List (Fin n × Event)) : Prop :=
  ∀ before after, run = before ++ after → ∀ i j,
    (((phases i).request? (streams i)).isSome ∨ i ∈ before.map Prod.fst) → i ∈ after.map Prod.fst →
    (((phases j).request? (streams j)).isSome ∨ j ∈ before.map Prod.fst) → j ∈ after.map Prod.fst →
    (streams i).requestId = (streams j).requestId → i = j

theorem StayApart.cons {i : Fin n} {e : Event} (h : StayApart streams phases ((i, e) :: run)) (p : Phase) :
    StayApart streams (Function.update phases i p) run := by
  intro before after hrun j k hj hj' hk hk' hids
  have hwas {l : Fin n} (hl : ((Function.update phases i p l).request? (streams l)).isSome ∨
      l ∈ before.map Prod.fst) :
      ((phases l).request? (streams l)).isSome ∨ l ∈ ((i, e) :: before).map Prod.fst := by
    by_cases hil : l = i
    · exact .inr (by simp [hil])
    · rw [Function.update_of_ne hil] at hl
      exact hl.imp_right (List.mem_cons_of_mem _)
  exact h ((i, e) :: before) after (by rw [hrun]; rfl) j k (hwas hj) hj' (hwas hk) hk' hids

/-- Requests on their way have identifiers of their own. -/
theorem StayApart.ne {i j : Fin n} (h : StayApart streams phases run)
    (hrun : Remains streams phases run) (hi : ((phases i).request? (streams i)).isSome)
    (hj : ((phases j).request? (streams j)).isSome) (hij : j ≠ i) :
    (streams j).requestId ≠ (streams i).requestId :=
  fun hids => hij (h [] run rfl j i (.inl hj) (hrun.mem hj) (.inl hi) (hrun.mem hi) hids)

end

/-! ### The tracer -/

namespace Tracer

def observeAll (t : Tracer) (os : List Occurrence) : Tracer := os.foldl observe t

section
variable {n : Nat} {streams : Fin n → RequestStream} {phases : Fin n → Phase} {t : Tracer}

/-- The spans on their way are those of the requests in these phases. -/
structure Agrees (streams : Fin n → RequestStream) (phases : Fin n → Phase) (t : Tracer) : Prop where
  requests : OpenSpans.Holds (fun i => (streams i).requestId)
    (fun i => (phases i).request? (streams i)) t.requests
  analyses : OpenSpans.Holds (fun i => (streams i).requestId)
    (fun i => (phases i).analysis?) t.analyses

def dueAfter (streams : Fin n → RequestStream) (phases : Fin n → Phase) (count : Nat)
    (run : List (Fin n × Event)) : List Span :=
  (List.finRange n).flatMap fun i => (phases i).due (streams i) (spanNumbers count run i)

theorem update_comp {α : Type} (f : (i : Fin n) → Phase → α) (i : Fin n) (p : Phase) :
    (fun j => f j (Function.update phases i p j)) =
      Function.update (fun j => f j (phases j)) i (f i p) := by
  funext j
  by_cases hij : j = i
  · subst hij
    simp
  · simp [Function.update_of_ne hij]

theorem dueAfter_start {i : Fin n} {e : Event} (he : e.startsSpan = true) {p : Phase} {count : Nat}
    (hp : ∀ numbers, (phases i).due (streams i) (count :: numbers) = p.due (streams i) numbers)
    (run : List (Fin n × Event)) :
    dueAfter streams phases count ((i, e) :: run) =
      dueAfter streams (Function.update phases i p) (count + 1) run := by
  refine List.flatMap_congr fun j _ => ?_
  by_cases hij : j = i
  · subst hij
    simp [spanNumbers, he, hp]
  · simp [spanNumbers, he, Ne.symm hij, Function.update_of_ne hij]

theorem perm_dueAfter_finish {i : Fin n} {e : Event} (he : e.startsSpan = false) {p : Phase} {x : Span}
    (hp : ∀ numbers, ((phases i).due (streams i) numbers).Perm (x :: p.due (streams i) numbers))
    (count : Nat) (run : List (Fin n × Event)) :
    (dueAfter streams phases count ((i, e) :: run)).Perm
      (x :: dueAfter streams (Function.update phases i p) count run) := by
  refine perm_flatMap_finRange (i := i) ?_ fun j hij => ?_
  · simpa [spanNumbers, he] using hp _
  · simp [spanNumbers, he, Function.update_of_ne hij]

/-- The phase that an event leads to: the tracer agrees with it, and the spans that are ended at the
event or later stay the same. -/
structure LeadsTo (streams : Fin n → RequestStream) (phases : Fin n → Phase) (t : Tracer) (i : Fin n)
    (e : Event) (run : List (Fin n × Event)) (p : Phase) : Prop where
  agrees : Agrees streams (Function.update phases i p) (t.observe (occurrence streams (i, e)))
  due : (t.ended ++ dueAfter streams phases t.started ((i, e) :: run)).Perm
    ((t.observe (occurrence streams (i, e))).ended ++ dueAfter streams (Function.update phases i p)
      (t.observe (occurrence streams (i, e))).started run)
  started : (t.observe (occurrence streams (i, e))).started =
    t.started + if e.startsSpan then 1 else 0

section
variable {i : Fin n} {e : Event} {run : List (Fin n × Event)} {p : Phase}

theorem agrees_update {t' : Tracer}
    (hrequests : OpenSpans.Holds (fun j => (streams j).requestId) (Function.update
      (fun j => (phases j).request? (streams j)) i (p.request? (streams i))) t'.requests)
    (hanalyses : OpenSpans.Holds (fun j => (streams j).requestId) (Function.update
      (fun j => (phases j).analysis?) i p.analysis?) t'.analyses) :
    Agrees streams (Function.update phases i p) t' where
  requests := by rwa [update_comp (fun j q => q.request? (streams j))]
  analyses := by rwa [update_comp fun _ q => q.analysis?]

/-- The spans of the other requests stand under other identifiers. -/
theorem request?_apart (hrun : Remains streams (Function.update phases i p) run)
    (hids : StayApart streams (Function.update phases i p) run)
    (hi : (p.request? (streams i)).isSome) (j : Fin n) (hij : j ≠ i)
    (hj : ((phases j).request? (streams j)).isSome) :
    (streams j).requestId ≠ (streams i).requestId := by
  refine hids.ne hrun ?_ ?_ hij
  · rwa [Function.update_self]
  · rwa [Function.update_of_ne hij]

theorem leadsTo_serving (ht : Agrees streams phases t) (hphase : phases i = .waiting)
    (hids : ∀ j, j ≠ i → ((phases j).request? (streams j)).isSome →
      (streams j).requestId ≠ (streams i).requestId) :
    LeadsTo streams phases t i (.requestStarted (streams i).method (streams i).path) run
      (.serving t.started (streams i).analyses) where
  agrees := by
    refine agrees_update (ht.requests.set hids ((streams i).openSpan t.started)) ?_
    rw [Function.update_eq_self_iff.2 (by rw [hphase]; rfl)]
    exact ht.analyses
  due := by
    rw [dueAfter_start rfl (p := .serving t.started (streams i).analyses)
      (fun numbers => by rw [hphase]; rfl)]
    exact .refl _
  started := rfl

theorem leadsTo_analyzing {number : Nat} {a : AnalysisStream} {rest : List AnalysisStream}
    (ht : Agrees streams phases t) (hphase : phases i = .serving number (a :: rest))
    (hids : ∀ j, j ≠ i → ((phases j).analysis?).isSome →
      (streams j).requestId ≠ (streams i).requestId) :
    LeadsTo streams phases t i (.analysisStarted a.query a.operationName a.operationType) run
      (.analyzing number t.started a rest) where
  agrees := by
    have hparent : t.requests.get? (streams i).requestId = some ((streams i).openSpan number) :=
      ht.requests.get i _ (by rw [hphase]; rfl)
    have hspan : (t.observe (occurrence streams (i, .analysisStarted a.query a.operationName
        a.operationType))).analyses =
        t.analyses.set (streams i).requestId (a.openSpan number t.started) := by
      simp [observe, occurrence, hparent, AnalysisStream.openSpan, RequestStream.openSpan]
    refine agrees_update ?_ (hspan ▸ ht.analyses.set hids _)
    rw [Function.update_eq_self_iff.2 (by rw [hphase]; rfl)]
    exact ht.requests
  due := by
    rw [dueAfter_start rfl (p := .analyzing number t.started a rest)
      (fun numbers => by rw [hphase]; rfl)]
    exact .refl _
  started := rfl

theorem leadsTo_serving_of_analyzing {number inner : Nat} {a : AnalysisStream}
    {rest : List AnalysisStream} (ht : Agrees streams phases t)
    (hphase : phases i = .analyzing number inner a rest)
    (hids : ∀ j, j ≠ i → ((phases j).analysis?).isSome →
      (streams j).requestId ≠ (streams i).requestId) :
    LeadsTo streams phases t i (.analysisFinished a.report) run (.serving number rest) := by
  have hopen : t.analyses.get? (streams i).requestId = some (a.openSpan number inner) :=
    ht.analyses.get i _ (by rw [hphase]; rfl)
  have hnext : t.observe (occurrence streams (i, .analysisFinished a.report)) =
      { t with analyses := t.analyses.erase (streams i).requestId
               ended := t.ended ++ [a.span number inner] } := by
    simp [observe, occurrence, hopen, AnalysisStream.finishAnalysis_openSpan]
  constructor
  · rw [hnext]
    refine agrees_update ?_ (ht.analyses.erase hids)
    rw [Function.update_eq_self_iff.2 (by rw [hphase]; rfl)]
    exact ht.requests
  · rw [hnext, List.append_assoc]
    refine List.Perm.append_left _ (perm_dueAfter_finish rfl (fun numbers => ?_) _ _)
    rw [hphase]
    exact List.Perm.swap ..
  · rw [hnext]
    rfl

theorem leadsTo_ended {number : Nat} (ht : Agrees streams phases t)
    (hphase : phases i = .serving number [])
    (hids : ∀ j, j ≠ i → ((phases j).request? (streams j)).isSome →
      (streams j).requestId ≠ (streams i).requestId) :
    LeadsTo streams phases t i (.requestFinished (streams i).status) run .ended := by
  have hopen : t.requests.get? (streams i).requestId = some ((streams i).openSpan number) :=
    ht.requests.get i _ (by rw [hphase]; rfl)
  have hnext : t.observe (occurrence streams (i, .requestFinished (streams i).status)) =
      { t with requests := t.requests.erase (streams i).requestId
               ended := t.ended ++ [(streams i).span number] } := by
    simp [observe, occurrence, hopen, RequestStream.finishRequest_openSpan]
  constructor
  · rw [hnext]
    refine agrees_update (ht.requests.erase hids) ?_
    rw [Function.update_eq_self_iff.2 (by rw [hphase]; rfl)]
    exact ht.analyses
  · rw [hnext, List.append_assoc]
    refine List.Perm.append_left _ (perm_dueAfter_finish rfl (fun numbers => ?_) _ _)
    rw [hphase]
    simp [Phase.due]
  · rw [hnext]
    rfl

/-- An event of a run leads to the next phase of its request. -/
theorem exists_leadsTo (hrun : Remains streams phases ((i, e) :: run))
    (hids : StayApart streams phases ((i, e) :: run)) (ht : Agrees streams phases t) :
    ∃ p, (phases i).events (streams i) = e :: p.events (streams i) ∧
      LeadsTo streams phases t i e run p := by
  obtain ⟨es, hes⟩ := hrun.head
  -- Before the finish the request is on its way, and after its start it is too.
  have hapart (hi : ((phases i).request? (streams i)).isSome) (j : Fin n) (hij : j ≠ i)
      (hj : ((phases j).request? (streams j)).isSome) :
      (streams j).requestId ≠ (streams i).requestId := hids.ne hrun hi hj hij
  cases hphase : phases i with
  | waiting =>
    rw [hphase] at hes
    obtain ⟨rfl, rfl⟩ := List.cons.inj hes
    have hnext : (phases i).events (streams i) = .requestStarted (streams i).method (streams i).path ::
        (Phase.serving t.started (streams i).analyses).events (streams i) := by
      rw [hphase]
      rfl
    exact ⟨_, hphase ▸ hnext, leadsTo_serving ht hphase
      (request?_apart (hrun.cons hnext) (hids.cons _) rfl)⟩
  | serving number rest =>
    have hlive : ((phases i).request? (streams i)).isSome := by simp [hphase, Phase.request?]
    rw [hphase] at hes
    cases rest with
    | nil =>
      obtain ⟨rfl, rfl⟩ := List.cons.inj hes
      exact ⟨.ended, rfl, leadsTo_ended ht hphase (hapart hlive)⟩
    | cons a rest =>
      obtain ⟨rfl, rfl⟩ := List.cons.inj hes
      exact ⟨.analyzing number t.started a rest, rfl, leadsTo_analyzing ht hphase
        fun j hij hj => hapart hlive j hij (Phase.isSome_request? hj)⟩
  | analyzing number inner a rest =>
    have hlive : ((phases i).request? (streams i)).isSome := by simp [hphase, Phase.request?]
    rw [hphase] at hes
    obtain ⟨rfl, rfl⟩ := List.cons.inj hes
    exact ⟨.serving number rest, rfl, leadsTo_serving_of_analyzing ht hphase
      fun j hij hj => hapart hlive j hij (Phase.isSome_request? hj)⟩
  | ended =>
    rw [hphase] at hes
    cases hes

end

/-- What a whole run does: every span is ended once, and none is left. -/
theorem observeAll_of_remains {run : List (Fin n × Event)} (hrun : Remains streams phases run)
    (hids : StayApart streams phases run) (ht : Agrees streams phases t) :
    (t.observeAll (run.map (occurrence streams))).ended.Perm
        (t.ended ++ dueAfter streams phases t.started run) ∧
      (t.observeAll (run.map (occurrence streams))).started =
        t.started + (run.filter (·.2.startsSpan)).length ∧
      (t.observeAll (run.map (occurrence streams))).requests = [] ∧
      (t.observeAll (run.map (occurrence streams))).analyses = [] := by
  induction run generalizing phases t with
  | nil =>
    have hended (i : Fin n) : phases i = .ended := by
      have hi := hrun i
      cases hphase : phases i <;>
        simp [hphase, Phase.events, RequestStream.events, RequestStream.eventsFrom] at hi
      rfl
    have hnone : dueAfter streams phases t.started [] = [] := by
      simp [dueAfter, hended, Phase.due]
    refine ⟨by simp [observeAll, hnone], rfl, ?_, ?_⟩
    · exact ht.requests.eq_nil fun i => by simp [hended i, Phase.request?]
    · exact ht.analyses.eq_nil fun i => by simp [hended i, Phase.analysis?]
  | cons head run ih =>
    obtain ⟨i, e⟩ := head
    obtain ⟨p, hp, hleads⟩ := exists_leadsTo hrun hids ht
    obtain ⟨hended, hstarted, hrequests, hanalyses⟩ :=
      ih (hrun.cons hp) (hids.cons p) hleads.agrees
    refine ⟨hended.trans hleads.due.symm, hstarted.trans ?_, hrequests, hanalyses⟩
    rw [hleads.started]
    cases he : e.startsSpan <;> simp [he]
    omega

theorem length_filter_startsSpan (s : RequestStream) :
    (s.events.filter Event.startsSpan).length = s.analyses.length + 1 := by
  have hanalyses (as : List AnalysisStream) :
      ((as.flatMap AnalysisStream.events).filter Event.startsSpan).length = as.length := by
    induction as with
    | nil => rfl
    | cons a as ih => simp [AnalysisStream.events, List.filter_cons, Event.startsSpan, ih]
  simp [RequestStream.events, RequestStream.eventsFrom, List.filter_cons, Event.startsSpan, hanalyses]

/-- The spans of any interleaving of requests, if no two in flight together share an identifier: those of
every request and its analyses, with what their own finish says and each analysis inside its own
request; every span that was started has ended once; and none is left on its way. -/
theorem observe_interleaving {run : List (Fin n × Event)} (hrun : Interleaves streams run)
    (hids : IdsApart streams run) :
    (observeAll {} (run.map (occurrence streams))).ended.Perm
        ((List.finRange n).flatMap fun i => (streams i).spans (spanNumbers 0 run i)) ∧
      (∀ i, (spanNumbers 0 run i).length = (streams i).analyses.length + 1) ∧
      ((observeAll {} (run.map (occurrence streams))).ended.map Span.number).Perm
        (List.range (observeAll {} (run.map (occurrence streams))).started) ∧
      (observeAll {} (run.map (occurrence streams))).requests = [] ∧
      (observeAll {} (run.map (occurrence streams))).analyses = [] := by
  have hapart : StayApart streams (fun _ => .waiting) run := by
    intro before after hsplit i j hi hi' hj hj'
    refine hids before after hsplit i j ⟨?_, hi'⟩ ⟨?_, hj'⟩
    · exact hi.resolve_left nofun
    · exact hj.resolve_left nofun
  have hnone : Agrees streams (fun _ => .waiting) {} :=
    ⟨⟨nofun, by simp⟩, ⟨nofun, by simp⟩⟩
  have hremains : Remains streams (fun _ => .waiting) run := hrun
  obtain ⟨hended, hstarted, hrequests, hanalyses⟩ := observeAll_of_remains hremains hapart hnone
  have hlength (i : Fin n) : (spanNumbers 0 run i).length = (streams i).analyses.length + 1 := by
    rw [length_spanNumbers, hrun i, length_filter_startsSpan]
  refine ⟨hended, hlength, ?_, hrequests, hanalyses⟩
  have hnumbers : (dueAfter streams (fun _ => .waiting) 0 run).map Span.number =
      (List.finRange n).flatMap (spanNumbers 0 run) := by
    rw [dueAfter, List.map_flatMap]
    exact List.flatMap_congr fun i _ => RequestStream.map_number_spans (hlength i)
  rw [hstarted, List.range_eq_range', Nat.zero_add]
  exact (hended.map Span.number).trans (hnumbers ▸ perm_spanNumbers 0 run)

end

def namedAnalysis (name : String) (vertices : Int) (failure : Option String) : AnalysisStream where
  query := "query " ++ name
  operationName := name
  operationType := "query"
  report := { operationName := name, operationType := "query", vertices, failure }

/-- A batch of two, a request that fails, and one that has the identifier of the first. -/
def overlappingStreams : Fin 3 → RequestStream
  | 0 => { requestId := "r", method := "POST", path := "/graphql", status := 200
           analyses := [namedAnalysis "A" 2 none, namedAnalysis "B" 0 (some "unknown field")] }
  | 1 => { requestId := "q", method := "GET", path := "/graphql", status := 200
           analyses := [namedAnalysis "C" 5 none] }
  | 2 => { requestId := "r", method := "PUT", path := "/", status := 500, analyses := [] }

/-- The second request overlaps the two others; the third begins when the first is over. -/
def overlappingRun : List (Fin 3 × Event) :=
  [(0, .requestStarted "POST" "/graphql"), (0, .analysisStarted "query A" "A" "query"),
   (1, .requestStarted "GET" "/graphql"), (1, .analysisStarted "query C" "C" "query"),
   (0, .analysisFinished (namedAnalysis "A" 2 none).report),
   (0, .analysisStarted "query B" "B" "query"),
   (1, .analysisFinished (namedAnalysis "C" 5 none).report),
   (0, .analysisFinished (namedAnalysis "B" 0 (some "unknown field")).report),
   (0, .requestFinished 200), (2, .requestStarted "PUT" "/"), (1, .requestFinished 200),
   (2, .requestFinished 500)]

theorem observe_interleaving_overlapping :
    Interleaves overlappingStreams overlappingRun ∧ IdsApart overlappingStreams overlappingRun ∧
      (observeAll {} (overlappingRun.map (occurrence overlappingStreams))).ended.Perm
        ((overlappingStreams 0).spans [0, 1, 4] ++ (overlappingStreams 1).spans [2, 3] ++
          (overlappingStreams 2).spans [5]) ∧
      (observeAll {} (overlappingRun.map (occurrence overlappingStreams))).requests = [] ∧
      (observeAll {} (overlappingRun.map (occurrence overlappingStreams))).analyses = [] := by
  have hrun : Interleaves overlappingStreams overlappingRun := by decide
  have hids : IdsApart overlappingStreams overlappingRun := by decide
  obtain ⟨hended, -, -, hrequests, hanalyses⟩ := observe_interleaving hrun hids
  exact ⟨hrun, hids, hended, hrequests, hanalyses⟩

end Tracer

end OperationGraph
