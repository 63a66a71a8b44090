import OperationGraph.Event.Script
import OperationGraph.Proofs.Event.Subscriptions

/-! # Who is called by a publication

Whatever is done on a bus, by the program or by handlers while they run, a publication calls the handlers
whose subscriptions were live when it started, one after another in the order of their subscription
(`Dispatch.calls_after`). Each step keeps a balance for every publication: its calls and the handlers that
wait make up the subscriptions that were live, and there is one more call than there are returns as long
as a handler of it runs. -/

namespace OperationGraph

/-- What can be done on a bus; a handler that runs may return. -/
inductive Act (τ η υ : Type) where
  | subscribe (topic : τ) (handler : η)
  | unsubscribe (handle : Handle τ)
  | publish (topic : τ) (value : υ)
  | finish

def Act.topic? {τ η υ : Type} : Act τ η υ → Option τ
  | subscribe topic _ => some topic
  | unsubscribe handle => some handle.topic
  | publish topic _ => some topic
  | finish => none

section
variable {τ η υ : Type}

namespace Happening

def call? (publication : Nat) : Happening τ η υ → Option (Call τ η υ)
  | called n c => if n = publication then some c else none
  | _ => none

def isReturn (publication : Nat) : Happening τ η υ → Bool
  | returned n => n = publication
  | _ => false

end Happening

def callsOf (publication : Nat) (log : List (Happening τ η υ)) : List (Call τ η υ) :=
  log.filterMap (·.call? publication)

/-- How many handlers of a publication have returned in a history. -/
def returnsOf (publication : Nat) (log : List (Happening τ η υ)) : Nat :=
  log.countP (·.isReturn publication)

@[simp] theorem callsOf_append (n : Nat) (xs ys : List (Happening τ η υ)) :
    callsOf n (xs ++ ys) = callsOf n xs ++ callsOf n ys :=
  List.filterMap_append

@[simp] theorem returnsOf_append (n : Nat) (xs ys : List (Happening τ η υ)) :
    returnsOf n (xs ++ ys) = returnsOf n xs + returnsOf n ys :=
  List.countP_append

section
variable (n m : Nat) (topic : τ) (value : υ) (c : Call τ η υ)

@[simp] theorem callsOf_published :
    callsOf n [(.published m topic value : Happening τ η υ)] = [] := rfl

@[simp] theorem callsOf_called : callsOf n [.called m c] = if m = n then [c] else [] := by
  by_cases h : m = n <;> simp [callsOf, Happening.call?, h]

@[simp] theorem callsOf_returned : callsOf n [(.returned m : Happening τ η υ)] = [] := rfl

@[simp] theorem returnsOf_published :
    returnsOf n [(.published m topic value : Happening τ η υ)] = 0 := rfl

@[simp] theorem returnsOf_called : returnsOf n [.called m c] = 0 := rfl

@[simp] theorem returnsOf_returned :
    returnsOf n [(.returned m : Happening τ η υ)] = if m = n then 1 else 0 := by
  by_cases h : m = n <;> simp [returnsOf, Happening.isReturn, h]

end

def numbered (number : Nat) (ps : List (Publication τ η υ)) : List (Publication τ η υ) :=
  ps.filter (·.number = number)

@[simp] theorem numbered_cons (n : Nat) (p : Publication τ η υ) (ps : List (Publication τ η υ)) :
    numbered n (p :: ps) = if p.number = n then p :: numbered n ps else numbered n ps := by
  by_cases h : p.number = n <;> simp [numbered, h]

theorem mem_numbered {n : Nat} {p : Publication τ η υ} {ps : List (Publication τ η υ)} :
    p ∈ numbered n ps ↔ p ∈ ps ∧ p.number = n := by
  simp [numbered]

namespace Dispatch

/-- The balance of a publication that has to reach some subscriptions; `due` are publications without a
running handler that are about to call the next one. -/
structure Balanced (d : Dispatch τ η υ) (due : List (Publication τ η υ)) (number : Nat) (topic : τ)
    (value : υ) (reached : List (Subscription η)) : Prop where
  known : number < d.publications
  increasing : reached.Pairwise (·.number < ·.number)
  same : ∀ p ∈ due ++ d.ongoing, p.number = number → p.topic = topic ∧ p.value = value
  calls : callsOf number d.log ++
    ((numbered number (due ++ d.ongoing)).flatMap (·.waiting)).map (Call.mk topic value) =
      reached.map (Call.mk topic value)
  returns : (callsOf number d.log).length =
    returnsOf number d.log + (numbered number d.ongoing).length

/-- Calling the next handler keeps the balance of every publication. -/
theorem balanced_callNext {d : Dispatch τ η υ} {p : Publication τ η υ} {number : Nat} {topic : τ}
    {value : υ} {reached : List (Subscription η)}
    (h : d.Balanced [p] number topic value reached) :
    (d.callNext p).1.Balanced [] number topic value reached := by
  obtain ⟨known, increasing, same, calls, returns⟩ := h
  rw [callNext]
  split
  · next hwaiting =>
    refine ⟨known, increasing, fun q hq => same q (List.mem_cons_of_mem p hq), ?_, returns⟩
    by_cases hp : p.number = number
    · simpa [hp, hwaiting] using calls
    · simpa [hp] using calls
  · next s waiting hwaiting =>
    obtain ⟨hsame, hrest⟩ := List.forall_mem_cons.1 same
    refine ⟨known, increasing, List.forall_mem_cons.2 ⟨hsame, hrest⟩, ?_, ?_⟩
    · by_cases hp : p.number = number
      · obtain ⟨rfl, rfl⟩ := hsame hp
        simpa [hp, hwaiting] using calls
      · simpa [hp] using calls
    · by_cases hp : p.number = number
      · simp only [callsOf_append, callsOf_called, returnsOf_append, returnsOf_called, numbered_cons,
          hp, if_true, List.length_append, List.length_cons, List.length_nil]
        omega
      · simpa [hp] using returns

/-- A publication has called the first of its handlers, one more than have returned. -/
theorem Balanced.callsOf_eq {d : Dispatch τ η υ} {n : Nat} {topic : τ} {value : υ}
    {reached : List (Subscription η)} (h : d.Balanced [] n topic value reached)
    (hsingle : (numbered n d.ongoing).length ≤ 1) :
    callsOf n d.log = (reached.take (returnsOf n d.log + 1)).map (Call.mk topic value) := by
  have hcalls := h.calls
  rw [List.map_take, ← hcalls]
  have hreturns := h.returns
  cases hnumbered : numbered n d.ongoing with
  | nil =>
    -- the publication is over, and no handler waits
    simp only [hnumbered, List.length_nil] at hreturns
    rw [List.nil_append, hnumbered, List.flatMap_nil, List.map_nil, List.append_nil,
      List.take_of_length_le (by omega)]
  | cons p rest =>
    have hlength : (callsOf n d.log).length = returnsOf n d.log + 1 := by
      simp only [hnumbered, List.length_cons] at hreturns hsingle
      omega
    rw [← hlength, List.take_left]

theorem bus_callNext (d : Dispatch τ η υ) (p : Publication τ η υ) :
    (d.callNext p).1.bus = d.bus := by
  rw [callNext]
  split <;> rfl

variable [DecidableEq τ]

/-- Every publication of the history is balanced for the subscriptions that were live when it started. -/
structure Serves (d : Dispatch τ η υ) (due : List (Publication τ η υ)) : Prop where
  fresh : ∀ n, d.publications ≤ n → callsOf n d.log = [] ∧ returnsOf n d.log = 0 ∧
    numbered n (due ++ d.ongoing) = []
  single : ∀ n, (numbered n (due ++ d.ongoing)).length ≤ 1
  balanced : ∀ before n topic value later, d.log = before ++ .published n topic value :: later →
    d.Balanced due n topic value (live topic before)

/-- What happens without a publication, a call or a return. -/
def Silent (x : Happening τ η υ) : Prop :=
  (∀ n, x.call? n = none) ∧ (∀ n, x.isReturn n = false) ∧ ∀ n topic value, x ≠ .published n topic value

theorem Serves.of_silent {d d' : Dispatch τ η υ} (h : d.Serves []) {x : Happening τ η υ}
    (hx : Silent x) (hcount : d'.publications = d.publications) (hongoing : d'.ongoing = d.ongoing)
    (hlog : d'.log = d.log ++ [x]) : d'.Serves [] := by
  have hcalls (n : Nat) : callsOf n d'.log = callsOf n d.log := by
    simp [hlog, callsOf, hx.1]
  have hreturns (n : Nat) : returnsOf n d'.log = returnsOf n d.log := by
    simp [hlog, returnsOf, hx.2.1]
  constructor
  · intro n hn
    rw [hcalls, hreturns, hongoing]
    exact h.fresh n (hcount ▸ hn)
  · intro n
    rw [hongoing]
    exact h.single n
  · intro before n topic value later hsplit
    rw [hlog] at hsplit
    rcases exists_of_concat_eq hsplit with ⟨mid, hold, -⟩ | ⟨-, hnew, -⟩
    · obtain ⟨known, increasing, same, calls, returns⟩ := h.balanced before n topic value mid hold
      exact ⟨hcount ▸ known, increasing, hongoing ▸ same, by rw [hcalls, hongoing, calls],
        by rw [hcalls, hreturns, hongoing, returns]⟩
    · exact absurd hnew (hx.2.2 n topic value)

theorem serves_callNext {d : Dispatch τ η υ} {p : Publication τ η υ} (h : d.Serves [p]) :
    (d.callNext p).1.Serves [] := by
  constructor
  · intro n hn
    have hcount : (d.callNext p).1.publications = d.publications := by
      rw [callNext]
      split <;> rfl
    obtain ⟨hcalls, hreturns, hnone⟩ := h.fresh n (hcount ▸ hn)
    have hp : p.number ≠ n := by
      intro hp
      simp [hp] at hnone
    rw [callNext]
    split
    · exact ⟨hcalls, hreturns, by simpa [hp] using hnone⟩
    · exact ⟨by simp [hcalls, hp], by simp [hreturns], by simpa [hp] using hnone⟩
  · intro n
    have hsingle := h.single n
    rw [callNext]
    split
    · refine Nat.le_trans ?_ hsingle
      exact (List.Sublist.filter _ (List.sublist_cons_self p d.ongoing)).length_le
    · by_cases hp : p.number = n
      · simpa [hp] using hsingle
      · simpa [hp] using hsingle
  · intro before n topic value later hsplit
    have hlog : ∃ mid, d.log = before ++ .published n topic value :: mid := by
      rw [callNext] at hsplit
      split at hsplit
      · exact ⟨later, hsplit⟩
      · rcases exists_of_concat_eq hsplit with ⟨mid, hold, -⟩ | ⟨-, hnew, -⟩
        · exact ⟨mid, hold⟩
        · cases hnew
    obtain ⟨mid, hold⟩ := hlog
    exact balanced_callNext (h.balanced before n topic value mid hold)

theorem serves_publish {d : Dispatch τ η υ} (hlive : d.HoldsLive) (h : d.Serves []) (topic : τ)
    (value : υ) : (d.publish topic value).1.Serves [] := by
  apply serves_callNext
  have hnone : numbered d.publications d.ongoing = [] := (h.fresh _ (Nat.le_refl _)).2.2
  constructor
  · intro n hn
    have hne : d.publications ≠ n := Nat.ne_of_lt hn
    obtain ⟨hcalls, hreturns, hnumbered⟩ := h.fresh n (Nat.le_of_lt hn)
    exact ⟨by simp [hcalls], by simp [hreturns], by simpa [hne] using hnumbered⟩
  · intro n
    by_cases hn : d.publications = n
    · subst hn
      simp [hnone]
    · simpa [hn] using h.single n
  · intro before n t v later hsplit
    rcases exists_of_concat_eq hsplit with ⟨mid, hold, -⟩ | ⟨rfl, hnew, -⟩
    · -- an earlier publication has another number
      obtain ⟨known, increasing, same, calls, returns⟩ := h.balanced before n t v mid hold
      have hne : d.publications ≠ n := Nat.ne_of_gt known
      refine ⟨Nat.lt_succ_of_lt known, increasing, ?_, ?_, ?_⟩
      · exact List.forall_mem_cons.2 ⟨fun heq => absurd heq hne, same⟩
      · simpa [hne] using calls
      · simpa [hne] using returns
    · obtain ⟨rfl, rfl, rfl⟩ := Happening.published.inj hnew
      obtain ⟨hcalls, hreturns, -⟩ := h.fresh _ (Nat.le_refl d.publications)
      rw [← hlive.subscriptions_eq]
      refine ⟨Nat.lt_succ_self _, hlive.wellFormed.increasing topic, ?_, ?_, ?_⟩
      · refine List.forall_mem_cons.2 ⟨fun _ => ⟨rfl, rfl⟩, fun q hq heq => ?_⟩
        have hmem : q ∈ numbered d.publications d.ongoing := mem_numbered.2 ⟨hq, heq⟩
        rw [hnone] at hmem
        cases hmem
      · simp [hcalls, hnone]
      · simp [hcalls, hreturns, hnone]

theorem serves_finish {d : Dispatch τ η υ} (h : d.Serves []) : d.finish.1.Serves [] := by
  rw [finish]
  cases hongoing : d.ongoing with
  | nil => exact h
  | cons p outer =>
    apply serves_callNext
    obtain ⟨fresh, single, balanced⟩ := h
    rw [hongoing] at fresh single
    constructor
    · intro n hn
      obtain ⟨hcalls, hreturns, hnone⟩ := fresh n hn
      have hp : p.number ≠ n := by
        intro hp
        simp [hp] at hnone
      exact ⟨by simp [hcalls], by simp [hreturns, hp], hnone⟩
    · exact single
    · intro before n t v later hsplit
      rcases exists_of_concat_eq hsplit with ⟨mid, hold, -⟩ | ⟨-, hnew, -⟩
      · obtain ⟨known, increasing, same, calls, returns⟩ := balanced before n t v mid hold
        rw [hongoing] at same calls returns
        refine ⟨known, increasing, same, ?_, ?_⟩
        · simpa using calls
        · by_cases hp : p.number = n
          · simp only [numbered_cons, hp, if_true, List.length_cons] at returns
            simp only [callsOf_append, callsOf_returned, returnsOf_append, returnsOf_returned, hp,
              if_true, List.append_nil]
            omega
          · simpa [hp] using returns
      · cases hnew

/-! ### Any sequence of acts -/

def act (d : Dispatch τ η υ) : Act τ η υ → Dispatch τ η υ
  | .subscribe topic handler => (d.subscribe topic handler).1
  | .unsubscribe handle => d.unsubscribe handle
  | .publish topic value => (d.publish topic value).1
  | .finish => d.finish.1

def record (d : Dispatch τ η υ) : Act τ η υ → List (Happening τ η υ)
  | .subscribe topic handler => [.subscribed topic { number := d.bus.last + 1, handler }]
  | .unsubscribe handle => [.unsubscribed handle]
  | .publish topic value => [.published d.publications topic value]
  | .finish => []

def after (acts : List (Act τ η υ)) : Dispatch τ η υ := acts.foldl act {}

theorem holdsLive_callNext {d : Dispatch τ η υ} (h : d.HoldsLive) (p : Publication τ η υ) :
    (d.callNext p).1.HoldsLive := by
  rw [callNext]
  split
  · exact h
  · exact h.of_inert ⟨fun _ => rfl, fun _ => rfl⟩ rfl rfl

/-- One act keeps what the bus holds and the balance of every publication. -/
theorem act_keeps {d : Dispatch τ η υ} (hlive : d.HoldsLive) (hserves : d.Serves [])
    (a : Act τ η υ) : (d.act a).HoldsLive ∧ (d.act a).Serves [] := by
  cases a with
  | subscribe topic handler =>
    refine ⟨holdsLive_subscribe hlive topic handler, hserves.of_silent ?_ rfl rfl rfl⟩
    exact ⟨fun _ => rfl, fun _ => rfl, fun _ _ _ h => by cases h⟩
  | unsubscribe handle =>
    refine ⟨holdsLive_unsubscribe hlive handle, hserves.of_silent ?_ rfl rfl rfl⟩
    exact ⟨fun _ => rfl, fun _ => rfl, fun _ _ _ h => by cases h⟩
  | publish topic value =>
    refine ⟨?_, serves_publish hlive hserves topic value⟩
    apply holdsLive_callNext
    exact hlive.of_inert ⟨fun _ => rfl, fun _ => rfl⟩ rfl rfl
  | finish =>
    refine ⟨?_, serves_finish hserves⟩
    rw [act, finish]
    split
    · exact hlive
    · apply holdsLive_callNext
      exact hlive.of_inert ⟨fun _ => rfl, fun _ => rfl⟩ rfl rfl

theorem after_concat (acts : List (Act τ η υ)) (a : Act τ η υ) :
    after (acts ++ [a]) = (after acts).act a := by
  simp [after]

theorem after_keeps (acts : List (Act τ η υ)) :
    (after acts).HoldsLive ∧ (after acts).Serves [] := by
  refine List.foldlRecOn (motive := fun d => d.HoldsLive ∧ d.Serves []) acts act
    ⟨holdsLive_empty, ?_⟩ fun d hd a _ => act_keeps hd.1 hd.2 a
  refine ⟨fun _ _ => ⟨rfl, rfl, rfl⟩, fun _ => Nat.zero_le 1, ?_⟩
  intro before n topic value later hsplit
  simp at hsplit

theorem exists_log_callNext (d : Dispatch τ η υ) (p : Publication τ η υ) :
    ∃ later, (d.callNext p).1.log = d.log ++ later ∧ ∀ x ∈ later, x.Inert := by
  rw [callNext]
  split
  · exact ⟨[], (List.append_nil _).symm, List.forall_mem_nil _⟩
  · exact ⟨_, rfl, List.forall_mem_singleton.2 ⟨fun _ => rfl, fun _ => rfl⟩⟩

/-- Every act is on record, and calls and returns are all that is recorded besides. -/
theorem exists_log_act (d : Dispatch τ η υ) (a : Act τ η υ) :
    ∃ later, (d.act a).log = d.log ++ (d.record a ++ later) ∧ ∀ x ∈ later, x.Inert := by
  cases a with
  | subscribe topic handler => exact ⟨[], rfl, List.forall_mem_nil _⟩
  | unsubscribe handle => exact ⟨[], rfl, List.forall_mem_nil _⟩
  | publish topic value =>
    obtain ⟨later, hlog, hlater⟩ := exists_log_callNext
      { d with publications := d.publications + 1,
               log := d.log ++ [.published d.publications topic value] }
      { number := d.publications, topic, value, waiting := d.bus.subscriptions topic }
    exact ⟨later, hlog.trans (List.append_assoc ..), hlater⟩
  | finish =>
    rw [act, finish]
    split
    · exact ⟨[], (List.append_nil _).symm, List.forall_mem_nil _⟩
    · next p outer _ =>
      obtain ⟨later, hlog, hlater⟩ := exists_log_callNext
        { d with ongoing := outer, log := d.log ++ [.returned p.number] } p
      refine ⟨.returned p.number :: later, hlog.trans (List.append_assoc ..), ?_⟩
      exact List.forall_mem_cons.2 ⟨⟨fun _ => rfl, fun _ => rfl⟩, hlater⟩

/-- An act about one topic leaves the handlers of the others alone. -/
theorem subscriptions_act_of_ne (d : Dispatch τ η υ) {a : Act τ η υ} {topic : τ}
    (h : a.topic? ≠ some topic) : (d.act a).bus.subscriptions topic = d.bus.subscriptions topic := by
  cases a with
  | subscribe t handler =>
    have hne : topic ≠ t := fun heq => h (congrArg some heq.symm)
    exact (d.bus.subscriptions_subscribe t handler topic).trans (if_neg hne)
  | unsubscribe handle =>
    have hne : topic ≠ handle.topic := fun heq => h (congrArg some heq.symm)
    exact (d.bus.subscriptions_unsubscribe handle topic).trans (if_neg hne)
  | publish t value => rw [act, publish, bus_callNext]
  | finish =>
    rw [act, finish]
    split
    · rfl
    · rw [bus_callNext]

/-- Everything that is done is on record, and each publication calls the handlers that were subscribed to
its topic when it started and whose handles had not been used, in the order of subscription, the next one
as soon as the one before it has returned; what is done in the meantime makes no difference. Using a
handle again changes nothing, and what is done about one topic leaves the handlers of the others alone. -/
theorem calls_after (acts : List (Act τ η υ)) :
    (∀ a, ∃ later, (after (acts ++ [a])).log =
      (after acts).log ++ ((after acts).record a ++ later) ∧ ∀ x ∈ later, x.Inert) ∧
    (∀ before n topic value later,
      (after acts).log = before ++ .published n topic value :: later →
        (live topic before).Pairwise (·.number < ·.number) ∧
        callsOf n (after acts).log =
          ((live topic before).take (returnsOf n (after acts).log + 1)).map (Call.mk topic value)) ∧
    (∀ before topic s later, (after acts).log = before ++ .subscribed topic s :: later →
      later.any (·.uses ⟨topic, s.number⟩) →
        ((after acts).unsubscribe ⟨topic, s.number⟩).bus = (after acts).bus) ∧
    ∀ (a : Act τ η υ) (topic : τ), a.topic? ≠ some topic →
      ((after acts).act a).bus.subscriptions topic = (after acts).bus.subscriptions topic := by
  obtain ⟨hlive, hserves⟩ := after_keeps acts
  refine ⟨?_, ?_, ?_, ?_⟩
  · intro a
    rw [after_concat]
    exact exists_log_act _ a
  · intro before n topic value later hsplit
    have hbalanced := hserves.balanced before n topic value later hsplit
    exact ⟨hbalanced.increasing, hbalanced.callsOf_eq (hserves.single n)⟩
  · intro before topic s later hsplit hused
    exact hlive.wellFormed.unsubscribe_eq_self ((hlive.used before topic s later hsplit).2 hused)
  · intro a topic ha
    exact subscriptions_act_of_ne _ ha

end Dispatch

end

/-- Two handlers of a topic. The first takes the second away while it runs, and subscribes a third. -/
def Dispatch.replacement : List (Act String String Nat) :=
  [.subscribe "A" "first", .subscribe "A" "second", .subscribe "B" "other", .publish "A" 1,
   .unsubscribe ⟨"A", 2⟩, .subscribe "A" "third", .finish, .finish, .publish "A" 2]

/-- The second handler is still called by the publication in the course of which it is taken away, and
the third by the next one only. -/
theorem Dispatch.calls_after_replacement :
    (∃ before later, (after replacement).log = before ++ .published 0 "A" 1 :: later ∧
      callsOf 0 (after replacement).log = [⟨"A", 1, ⟨1, "first"⟩⟩, ⟨"A", 1, ⟨2, "second"⟩⟩]) ∧
    (∃ before later, (after replacement).log = before ++ .published 1 "A" 2 :: later ∧
      live "A" before = [⟨1, "first"⟩, ⟨4, "third"⟩] ∧
      callsOf 1 (after replacement).log = [⟨"A", 2, ⟨1, "first"⟩⟩]) ∧
    ((after replacement).unsubscribe ⟨"A", 2⟩).bus = (after replacement).bus ∧
    ((after replacement).act (.publish "A" 3)).bus.subscriptions "B" = [⟨3, "other"⟩] := by
  obtain ⟨-, hcalls, hused, hothers⟩ := calls_after replacement
  refine ⟨⟨(after replacement).log.take 3, (after replacement).log.drop 4, rfl, ?_⟩,
    ⟨(after replacement).log.take 10, (after replacement).log.drop 11, rfl, rfl, ?_⟩, ?_, ?_⟩
  · exact (hcalls ((after replacement).log.take 3) 0 "A" 1 _ rfl).2
  · exact (hcalls ((after replacement).log.take 10) 1 "A" 2 _ rfl).2
  · exact hused ((after replacement).log.take 1) "A" ⟨2, "second"⟩ _ rfl rfl
  · exact hothers (.publish "A" 3) "B" (by decide)

/-! ### Scripts -/

namespace Stage
variable {τ : Type} [DecidableEq τ]

/-- What was done on the bus is a sequence of acts. Of the scripts that are left one is the script itself,
and each of the others is that of a handler that runs. -/
def Follows (s : Stage τ) : Prop :=
  ∃ acts, s.bus = some (Dispatch.after acts) ∧
    (s.scripts.length = (Dispatch.after acts).ongoing.length + 1 ∨
      s.scripts = [] ∧ (Dispatch.after acts).ongoing = [])

theorem follows_enter {s : Stage τ} {d : Dispatch τ (Reaction τ) String}
    {p : Publication τ (Reaction τ) String} {acts : List (Act τ (Reaction τ) String)}
    (hacts : (d.callNext p).1 = Dispatch.after acts)
    (hlength : s.scripts.length = d.ongoing.length + 1) : (s.enter (d.callNext p)).Follows := by
  refine ⟨acts, congrArg some hacts, .inl ?_⟩
  rw [← hacts, enter, Dispatch.callNext]
  split
  · simpa using hlength
  · simpa using hlength

theorem follows_advance {s : Stage τ} (h : s.Follows) : s.advance.Follows := by
  obtain ⟨acts, hbus, hscripts⟩ := h
  have hact (a : Act τ (Reaction τ) String) := (Dispatch.after_concat acts a).symm
  rw [advance, hbus]
  rcases hs : s.scripts with - | ⟨- | ⟨step, rest⟩, outer⟩
  · have hnone : (Dispatch.after acts).ongoing = [] := by simpa [hs] using hscripts
    exact ⟨acts, rfl, .inr ⟨rfl, hnone⟩⟩
  · have hlength : outer.length = (Dispatch.after acts).ongoing.length := by
      simpa [hs] using hscripts
    cases outer with
    | nil => exact ⟨acts, rfl, .inr ⟨rfl, List.length_eq_zero_iff.1 hlength.symm⟩⟩
    | cons script outer =>
      have hfinish := hact .finish
      rw [Dispatch.act, Dispatch.finish] at hfinish
      dsimp only
      rw [Dispatch.finish]
      cases hongoing : (Dispatch.after acts).ongoing with
      | nil => simp [hongoing] at hlength
      | cons p below =>
        simp only [hongoing] at hfinish
        exact follows_enter hfinish (by simpa [hongoing] using hlength)
  · have hlength : (rest :: outer).length = (Dispatch.after acts).ongoing.length + 1 := by
      simpa [hs] using hscripts
    cases step with
    | subscribe topic name steps =>
      refine ⟨_, congrArg some (hact (.subscribe topic { name := name, steps })), .inl ?_⟩
      rw [← hact]
      exact hlength
    | unsubscribe name =>
      dsimp only
      rw [perform]
      split
      · next handle _ =>
        refine ⟨_, congrArg some (hact (.unsubscribe handle.2)), .inl ?_⟩
        rw [← hact]
        exact hlength
      · exact ⟨acts, rfl, .inl hlength⟩
    | publish topic value => exact follows_enter (hact (.publish topic value)) hlength

theorem follows_settle (fuel : Nat) {s : Stage τ} (h : s.Follows) : (settle fuel s).Follows := by
  induction fuel generalizing s with
  | zero => exact h
  | succ fuel ih =>
    rw [settle]
    split
    · exact h
    · exact ih (follows_advance h)

/-- When a script has come to its end, each publication in the course of it has reached all the handlers
that were live when it started, and no others. -/
theorem callsOf_run {fuel : Nat} {script : List (Step τ)} {d : Dispatch τ (Reaction τ) String}
    (hbus : (run fuel {} script).1.bus = some d) (hend : (run fuel {} script).1.scripts = [])
    {before later : List (Happening τ (Reaction τ) String)} {n : Nat} {topic : τ} {value : String}
    (hlog : d.log = before ++ .published n topic value :: later) :
    callsOf n d.log = (live topic before).map (Call.mk topic value) := by
  have hstart : Follows ({ scripts := [script] } : Stage τ) := ⟨[], rfl, .inl rfl⟩
  obtain ⟨acts, hacts, hscripts⟩ := follows_settle fuel hstart
  obtain rfl : Dispatch.after acts = d := Option.some.inj (hacts.symm.trans hbus)
  have hnone : (Dispatch.after acts).ongoing = [] := by
    rcases hscripts with hlength | ⟨-, hnone⟩
    · have hzero : (settle fuel { scripts := [script] }).scripts.length = 0 :=
        congrArg List.length hend
      omega
    · exact hnone
  have hcalls := ((Dispatch.after_keeps acts).2.balanced before n topic value later hlog).calls
  simpa [hnone, numbered] using hcalls

end Stage

end OperationGraph
