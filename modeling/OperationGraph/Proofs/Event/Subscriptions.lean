import OperationGraph.Event.Dispatch

/-! # Live subscriptions

What a bus holds under a topic are the subscriptions that were made for it and whose handles were not
used since, in the order in which they were made. Storing lists by topic, dropping a topic with its last
handler and making it anew later leave no trace in this. -/

namespace OperationGraph

section
variable {τ η : Type} [DecidableEq τ]

namespace Bus

/-! ### What is stored under a topic -/

theorem find?_store (topic : τ) (subs : List (Subscription η))
    (entries : List (τ × List (Subscription η))) (t : τ) :
    (store topic subs entries).find? (·.1 = t) =
      if t = topic then some (topic, subs) else entries.find? (·.1 = t) := by
  induction entries with
  | nil =>
    by_cases h : t = topic
    · simp [store, h]
    · simp [store, h, Ne.symm h]
  | cons entry rest ih =>
    by_cases hentry : entry.1 = topic
    · by_cases h : t = topic
      · simp [store, hentry, h]
      · simp [store, hentry, h, Ne.symm h]
    · by_cases h : entry.1 = t
      · have hne : t ≠ topic := h ▸ hentry
        simp [store, h, hne]
      · simp [store, hentry, h, ih]

theorem find?_filter_ne (topic : τ) (entries : List (τ × List (Subscription η))) (t : τ) :
    (entries.filter (·.1 ≠ topic)).find? (·.1 = t) =
      if t = topic then none else entries.find? (·.1 = t) := by
  rw [List.find?_filter]
  by_cases h : t = topic
  · rw [if_pos h, List.find?_eq_none]
    intro entry _
    simp only [decide_not, Bool.not_eq_true', decide_eq_false_iff_not, decide_eq_true_eq, not_and]
    exact fun hne heq => hne (heq.trans h)
  · rw [if_neg h]
    congr 1
    funext entry
    by_cases he : entry.1 = t <;> simp [he, h]

theorem subscriptions_subscribe (b : Bus τ η) (topic : τ) (handler : η) (t : τ) :
    (b.subscribe topic handler).1.subscriptions t =
      if t = topic then b.subscriptions topic ++ [{ number := b.last + 1, handler }]
      else b.subscriptions t := by
  rw [subscribe, subscriptions, find?_store]
  by_cases h : t = topic
  · simp [h]
  · simp [h, subscriptions]

theorem subscriptions_unsubscribe (b : Bus τ η) (h : Handle τ) (t : τ) :
    (b.unsubscribe h).subscriptions t =
      if t = h.topic then (b.subscriptions t).eraseP (·.number = h.number)
      else b.subscriptions t := by
  rw [unsubscribe]
  by_cases hempty : ((b.subscriptions h.topic).eraseP (·.number = h.number)).isEmpty
  · rw [if_pos hempty, subscriptions, find?_filter_ne]
    by_cases ht : t = h.topic
    · subst ht
      simp [List.isEmpty_iff.1 hempty]
    · simp [ht, subscriptions]
  · rw [if_neg hempty, subscriptions, find?_store]
    by_cases ht : t = h.topic
    · simp [ht]
    · simp [ht, subscriptions]

theorem last_unsubscribe (b : Bus τ η) (h : Handle τ) : (b.unsubscribe h).last = b.last := by
  rw [unsubscribe]
  split <;> rfl

/-! ### Buses in use -/

/-- What holds of every bus in use: under each topic the numbers increase, none is above the one given
out last, and no topic is held without a subscription. -/
structure WellFormed (b : Bus τ η) : Prop where
  increasing : ∀ topic, (b.subscriptions topic).Pairwise (·.number < ·.number)
  le_last : ∀ topic, ∀ s ∈ b.subscriptions topic, s.number ≤ b.last
  nonempty : ∀ entry ∈ b.topics, entry.2 ≠ []

theorem nonempty_store {topic : τ} {subs : List (Subscription η)} (hsubs : subs ≠ [])
    {entries : List (τ × List (Subscription η))} (h : ∀ entry ∈ entries, entry.2 ≠ []) :
    ∀ entry ∈ store topic subs entries, entry.2 ≠ [] := by
  induction entries with
  | nil => simpa [store] using hsubs
  | cons first rest ih =>
    obtain ⟨hfirst, hrest⟩ := List.forall_mem_cons.1 h
    rw [store]
    split
    · exact List.forall_mem_cons.2 ⟨hsubs, hrest⟩
    · exact List.forall_mem_cons.2 ⟨hfirst, ih hrest⟩

theorem WellFormed.subscribe {b : Bus τ η} (h : b.WellFormed) (topic : τ) (handler : η) :
    (b.subscribe topic handler).1.WellFormed := by
  constructor
  · intro t
    rw [subscriptions_subscribe]
    split
    · refine List.pairwise_append.2 ⟨h.increasing topic, List.pairwise_singleton .., ?_⟩
      intro s hs s' hs'
      obtain rfl := List.mem_singleton.1 hs'
      exact Nat.lt_succ_of_le (h.le_last topic s hs)
    · exact h.increasing t
  · intro t s hs
    change s.number ≤ b.last + 1
    rw [subscriptions_subscribe] at hs
    split at hs
    · rcases List.mem_append.1 hs with hs | hs
      · exact Nat.le_succ_of_le (h.le_last topic s hs)
      · obtain rfl := List.mem_singleton.1 hs
        exact Nat.le_refl _
    · exact Nat.le_succ_of_le (h.le_last t s hs)
  · exact nonempty_store (by simp) h.nonempty

theorem WellFormed.unsubscribe {b : Bus τ η} (h : b.WellFormed) (handle : Handle τ) :
    (b.unsubscribe handle).WellFormed := by
  have hsublist (t : τ) :
      ((b.unsubscribe handle).subscriptions t).Sublist (b.subscriptions t) := by
    rw [subscriptions_unsubscribe]
    split
    · exact List.eraseP_sublist
    · exact List.Sublist.refl _
  constructor
  · exact fun t => (h.increasing t).sublist (hsublist t)
  · intro t s hs
    rw [last_unsubscribe]
    exact h.le_last t s ((hsublist t).subset hs)
  · rw [Bus.unsubscribe]
    split
    · exact fun entry hentry => h.nonempty entry (List.mem_filter.1 hentry).1
    · next hkept => exact nonempty_store (by simpa using hkept) h.nonempty

/-- Where the numbers increase, taking one away takes away all subscriptions of that number. -/
theorem eraseP_eq_filter {subs : List (Subscription η)} (h : subs.Pairwise (·.number < ·.number))
    (number : Nat) :
    subs.eraseP (·.number = number) = subs.filter (·.number ≠ number) := by
  induction subs with
  | nil => rfl
  | cons s rest ih =>
    obtain ⟨hs, hrest⟩ := List.pairwise_cons.1 h
    by_cases heq : s.number = number
    · have hall : rest.filter (·.number ≠ number) = rest := by
        rw [List.filter_eq_self]
        intro s' hs'
        have hlt := hs s' hs'
        simp only [ne_eq, decide_not, Bool.not_eq_true', decide_eq_false_iff_not]
        omega
      rw [List.eraseP_cons_of_pos (by simpa using heq), List.filter_cons_of_neg (by simpa using heq),
        hall]
    · rw [List.eraseP_cons_of_neg (by simpa using heq), List.filter_cons_of_pos (by simpa using heq),
        ih hrest]

theorem store_eq_self {topic : τ} {entry : τ × List (Subscription η)}
    {entries : List (τ × List (Subscription η))} (h : entries.find? (·.1 = topic) = some entry) :
    store topic entry.2 entries = entries := by
  induction entries with
  | nil => cases h
  | cons first rest ih =>
    by_cases hfirst : first.1 = topic
    · obtain rfl : first = entry := by simpa [hfirst] using h
      simp [store, ← hfirst]
    · simp only [List.find?_cons, hfirst, decide_false] at h
      simp [store, hfirst, ih h]

/-- A handle that no subscription has changes nothing. -/
theorem WellFormed.unsubscribe_eq_self {b : Bus τ η} (h : b.WellFormed) {handle : Handle τ}
    (hgone : ∀ s ∈ b.subscriptions handle.topic, s.number ≠ handle.number) :
    b.unsubscribe handle = b := by
  have hkept : (b.subscriptions handle.topic).eraseP (·.number = handle.number) =
      b.subscriptions handle.topic :=
    List.eraseP_of_forall_not fun s hs => by simpa using hgone s hs
  rw [Bus.unsubscribe, hkept, subscriptions]
  cases hfind : b.topics.find? (·.1 = handle.topic) with
  | none =>
    have hall : b.topics.filter (·.1 ≠ handle.topic) = b.topics := by
      rw [List.filter_eq_self]
      intro entry hentry
      simpa using List.find?_eq_none.1 hfind entry hentry
    simp only [List.isEmpty_nil, if_true, hall]
  | some entry =>
    have hentry := h.nonempty entry (List.mem_of_find?_eq_some hfind)
    simp [hentry, store_eq_self hfind]

end Bus

end

/-! ### The subscriptions of a history -/

section
variable {τ η υ : Type} [DecidableEq τ]

namespace Happening

def added (topic : τ) : Happening τ η υ → List (Subscription η)
  | subscribed t s => if t = topic then [s] else []
  | _ => []

def uses (handle : Handle τ) : Happening τ η υ → Bool
  | unsubscribed h => h = handle
  | _ => false

end Happening

/-- The subscriptions that a history leaves to a topic: those made for it whose handles were not used
afterwards. -/
def live (topic : τ) : List (Happening τ η υ) → List (Subscription η)
  | [] => []
  | x :: later =>
    (x.added topic).filter (fun s => !later.any (·.uses ⟨topic, s.number⟩)) ++ live topic later

theorem live_concat (topic : τ) (log : List (Happening τ η υ)) (x : Happening τ η υ) :
    live topic (log ++ [x]) =
      (live topic log).filter (fun s => !x.uses ⟨topic, s.number⟩) ++ x.added topic := by
  induction log with
  | nil => simp [live]
  | cons y rest ih =>
    simp only [List.cons_append, live, ih, List.any_append, List.any_cons, List.any_nil,
      Bool.or_false, Bool.not_or, List.filter_append, List.filter_filter, List.append_assoc]
    congr 2
    funext s
    exact Bool.and_comm ..

/-- What is neither a subscription nor the use of a handle. -/
def Happening.Inert (x : Happening τ η υ) : Prop :=
  (∀ topic, x.added topic = []) ∧ ∀ handle, x.uses handle = false

theorem live_concat_of_inert (topic : τ) (log : List (Happening τ η υ)) {x : Happening τ η υ}
    (hx : x.Inert) : live topic (log ++ [x]) = live topic log := by
  rw [live_concat, hx.1 topic]
  simp [hx.2]

/-- An element of a list that grew at its end was there before, or it is the new one. -/
theorem exists_of_concat_eq {α : Type} {xs before later : List α} {x y : α}
    (h : xs ++ [x] = before ++ y :: later) :
    (∃ mid, xs = before ++ y :: mid ∧ later = mid ++ [x]) ∨
      before = xs ∧ x = y ∧ later = [] := by
  rcases List.eq_nil_or_concat later with rfl | ⟨mid, z, rfl⟩
  · obtain ⟨rfl, hx⟩ := List.append_inj' h rfl
    exact .inr ⟨rfl, List.singleton_inj.1 hx, rfl⟩
  · have hmid : xs ++ [x] = (before ++ y :: mid) ++ [z] := by simpa using h
    obtain ⟨rfl, hx⟩ := List.append_inj' hmid rfl
    obtain rfl := List.singleton_inj.1 hx
    exact .inl ⟨mid, rfl, by simp⟩

namespace Dispatch

/-- The bus holds what the history leaves to each topic, and no subscription whose handle was used after
it was given out. -/
structure HoldsLive (d : Dispatch τ η υ) : Prop where
  wellFormed : d.bus.WellFormed
  subscriptions_eq : ∀ topic, d.bus.subscriptions topic = live topic d.log
  used : ∀ before topic s later, d.log = before ++ .subscribed topic s :: later →
    s.number ≤ d.bus.last ∧ (later.any (·.uses ⟨topic, s.number⟩) →
      ∀ s' ∈ d.bus.subscriptions topic, s'.number ≠ s.number)

theorem holdsLive_empty : ({} : Dispatch τ η υ).HoldsLive := by
  refine ⟨⟨?_, ?_, ?_⟩, ?_, ?_⟩
  · exact fun _ => List.Pairwise.nil
  · intro topic s hs
    cases hs
  · intro entry hentry
    cases hentry
  · exact fun _ => rfl
  · intro before topic s later hlog
    simp at hlog

theorem holdsLive_subscribe {d : Dispatch τ η υ} (h : d.HoldsLive) (topic : τ) (handler : η) :
    (d.subscribe topic handler).1.HoldsLive := by
  constructor
  · exact h.wellFormed.subscribe topic handler
  · intro t
    change (d.bus.subscribe topic handler).1.subscriptions t = live t (d.log ++ [_])
    have hall : (live t d.log).filter (fun _ => !false) = live t d.log := by simp
    rw [live_concat, Bus.subscriptions_subscribe]
    simp only [Happening.uses, Happening.added, hall]
    by_cases ht : t = topic
    · subst ht
      rw [if_pos rfl, if_pos rfl, h.subscriptions_eq]
    · rw [if_neg ht, if_neg (Ne.symm ht), List.append_nil, h.subscriptions_eq]
  · intro before t s later hlog
    rcases exists_of_concat_eq hlog with ⟨mid, hold, rfl⟩ | ⟨-, hnew, rfl⟩
    · obtain ⟨hle, hused⟩ := h.used before t s mid hold
      refine ⟨Nat.le_succ_of_le hle, fun hlater s' hs' => ?_⟩
      have hmid : mid.any (·.uses ⟨t, s.number⟩) := by
        simpa [Happening.uses] using hlater
      change s' ∈ (d.bus.subscribe topic handler).1.subscriptions t at hs'
      rw [Bus.subscriptions_subscribe] at hs'
      split at hs'
      · next ht =>
        subst ht
        rcases List.mem_append.1 hs' with hs' | hs'
        · exact hused hmid s' hs'
        · obtain rfl := List.mem_singleton.1 hs'
          exact Nat.ne_of_gt (Nat.lt_succ_of_le hle)
      · exact hused hmid s' hs'
    · obtain ⟨-, rfl⟩ := Happening.subscribed.inj hnew
      exact ⟨Nat.le_refl _, fun hlater => by simp at hlater⟩

theorem subscriptions_unsubscribe {d : Dispatch τ η υ} (h : d.HoldsLive) (handle : Handle τ)
    (t : τ) : (d.bus.unsubscribe handle).subscriptions t =
      (d.bus.subscriptions t).filter fun s => !decide (handle = ⟨t, s.number⟩) := by
  obtain ⟨topic, number⟩ := handle
  rw [Bus.subscriptions_unsubscribe]
  by_cases ht : t = topic
  · subst ht
    rw [if_pos rfl, Bus.eraseP_eq_filter (h.wellFormed.increasing t)]
    congr 1
    funext s
    simp [eq_comm]
  · rw [if_neg ht, eq_comm, List.filter_eq_self]
    intro s _
    simp [Ne.symm ht]

theorem holdsLive_unsubscribe {d : Dispatch τ η υ} (h : d.HoldsLive) (handle : Handle τ) :
    (d.unsubscribe handle).HoldsLive := by
  constructor
  · exact h.wellFormed.unsubscribe handle
  · intro t
    change (d.bus.unsubscribe handle).subscriptions t = live t (d.log ++ [_])
    rw [live_concat, subscriptions_unsubscribe h, h.subscriptions_eq]
    simp only [Happening.uses, Happening.added, List.append_nil]
  · intro before t s later hlog
    rcases exists_of_concat_eq hlog with ⟨mid, hold, rfl⟩ | ⟨-, hnew, -⟩
    · obtain ⟨hle, hused⟩ := h.used before t s mid hold
      refine ⟨(d.bus.last_unsubscribe handle).symm ▸ hle, fun hlater s' hs' => ?_⟩
      change s' ∈ (d.bus.unsubscribe handle).subscriptions t at hs'
      rw [subscriptions_unsubscribe h] at hs'
      obtain ⟨hs', hkept⟩ := List.mem_filter.1 hs'
      simp only [List.any_append, List.any_cons, List.any_nil, Bool.or_false, Bool.or_eq_true,
        Happening.uses, decide_eq_true_eq] at hlater
      rcases hlater with hmid | rfl
      · exact hused hmid s' hs'
      · intro heq
        simp [heq] at hkept
    · cases hnew

theorem HoldsLive.of_inert {d d' : Dispatch τ η υ} (h : d.HoldsLive) {x : Happening τ η υ}
    (hx : x.Inert) (hbus : d'.bus = d.bus) (hlog : d'.log = d.log ++ [x]) : d'.HoldsLive := by
  constructor
  · exact hbus ▸ h.wellFormed
  · intro t
    rw [hbus, hlog, live_concat_of_inert t d.log hx, h.subscriptions_eq]
  · intro before t s later hsplit
    rw [hlog] at hsplit
    rw [hbus]
    rcases exists_of_concat_eq hsplit with ⟨mid, hold, rfl⟩ | ⟨-, rfl, -⟩
    · simpa [hx.2] using h.used before t s mid hold
    · have hadded := hx.1 t
      simp [Happening.added] at hadded

end Dispatch

end

end OperationGraph
