import OperationGraph.Proofs.Schema.PossibleTypes
import OperationGraph.Proofs.Selection.Origin

/-! # Narrowing is intersection

Conditions narrow a set of object types one after another. What is left of a restricted set are the types
that all conditions admit, in the order of the set, so that neither the order of the conditions nor their
repetition matters. From no restriction at all the first condition sets the order, and the schema of a type
system lists the possible types of all its types in one order (`Collector.narrowAll_intersection`). -/

namespace OperationGraph

/-- A condition on the types of a set, and the place where it stands. -/
structure Condition where
  type : NamedType
  pos : Option Position := none

namespace Condition

/-- The same types stand in two lists of conditions, in whatever order and however often. -/
def SameTypes (xs ys : List Condition) : Prop := ∀ t, t ∈ xs.map type ↔ t ∈ ys.map type

theorem SameTypes.forall_iff {xs ys : List Condition} (h : SameTypes xs ys) (p : NamedType → Prop) :
    (∀ x ∈ xs, p x.type) ↔ ∀ y ∈ ys, p y.type :=
  calc (∀ x ∈ xs, p x.type)
    _ ↔ ∀ t ∈ xs.map type, p t := List.forall_mem_map.symm
    _ ↔ ∀ t ∈ ys.map type, p t := forall_congr' fun t => imp_congr_left (h t)
    _ ↔ ∀ y ∈ ys, p y.type := List.forall_mem_map

theorem SameTypes.all_eq {xs ys : List Condition} (h : SameTypes xs ys) (p : NamedType → Bool) :
    (xs.all fun x => p x.type) = ys.all fun y => p y.type := by
  rw [Bool.eq_iff_iff, List.all_eq_true, List.all_eq_true]
  exact h.forall_iff (p · = true)

theorem SameTypes.eq_nil_iff {xs ys : List Condition} (h : SameTypes xs ys) : xs = [] ↔ ys = [] := by
  have hempty (zs : List Condition) : zs = [] ↔ ∀ z ∈ zs, False := by
    simp [List.eq_nil_iff_forall_not_mem]
  rw [hempty, hempty]
  exact h.forall_iff fun _ => False

end Condition

namespace Schema
variable {s : Schema}

/-- The possible types of all conditions are known. -/
def Knows (s : Schema) (conditions : List Condition) : Prop :=
  ∀ x ∈ conditions, ∃ us, s.possibleTypes x.type = .ok us

/-- The types that a condition admits; none if they are not known. -/
def admitted (s : Schema) (condition : NamedType) : List NamedType :=
  match s.possibleTypes condition with
  | .ok us => us
  | .error _ => []

def admits (s : Schema) (condition t : NamedType) : Bool :=
  (s.admitted condition).any (·.name = t.name)

theorem admitted_eq {t : NamedType} {us : List NamedType} (h : s.possibleTypes t = .ok us) :
    s.admitted t = us := by
  rw [admitted, h]

theorem admits_iff {condition t : NamedType} :
    s.admits condition t ↔ t.name ∈ (s.admitted condition).map NamedType.name := by
  simp [admits]

theorem Knows.of_sameTypes {xs ys : List Condition} (h : s.Knows xs)
    (hsame : Condition.SameTypes ys xs) : s.Knows ys :=
  (hsame.forall_iff fun t => ∃ us, s.possibleTypes t = .ok us).2 h

end Schema

namespace Collector
variable {c : Collector}

def narrowAll (c : Collector) (current : TypeSet) (conditions : List Condition) :
    Except AnalysisError TypeSet :=
  conditions.foldlM (fun set x => c.narrow set x.type x.pos) current

/-! ### One condition -/

theorem narrow_of_possibleTypes {t : NamedType} {us : List NamedType}
    (h : c.schema.possibleTypes t = .ok us) (current : TypeSet) (pos : Option Position) :
    c.narrow current t pos = .ok (current.restrict us) := by
  simp [narrow, possibleTypes, Schema.isComposite_of_possibleTypes h, h]

/-- A condition whose possible types are not known is an error for every set alike. -/
theorem exists_narrow_eq_error {t : NamedType} (h : ∀ us, c.schema.possibleTypes t ≠ .ok us)
    (pos : Option Position) : ∃ e, ∀ current, c.narrow current t pos = .error e := by
  cases hp : c.possibleTypes t pos with
  | ok us => exact absurd (possibleTypes_eq_ok hp) (h us)
  | error e => exact ⟨e, fun current => by rw [narrow, hp]⟩

/-- So is a condition of a name that is unknown, or that names such a type. -/
theorem exists_enterCondition_eq_error {name : String}
    (h : ∀ t us, c.schema.type? name = some t → c.schema.possibleTypes t ≠ .ok us) (pos : Position) :
    ∃ e, ∀ current, c.enterCondition current name pos = .error e := by
  cases ht : c.schema.type? name with
  | none =>
    refine ⟨{ fault := .unknownType name, pos := some pos }, fun current => ?_⟩
    rw [enterCondition, conditionType, ht]
  | some t =>
    obtain ⟨e, he⟩ := exists_narrow_eq_error (fun us => h t us ht) (some pos)
    refine ⟨e, fun current => ?_⟩
    rw [enterCondition, conditionType, ht]
    simp only [he]

/-- A step from a restricted set leaves a part of it, and a step from no restriction leaves one. -/
theorem exists_narrow_eq_some {t : NamedType} {us : List NamedType}
    (h : c.schema.possibleTypes t = .ok us) (current : TypeSet) (pos : Option Position) :
    ∃ U, c.narrow current t pos = .ok (some U) ∧ ∀ S, current = some S → U.Sublist S := by
  rw [narrow_of_possibleTypes h]
  cases current with
  | none => exact ⟨us, rfl, by simp⟩
  | some ts =>
    refine ⟨_, rfl, fun S hS => ?_⟩
    cases hS
    exact List.filter_sublist

/-! ### Conditions in turn -/

variable {conditions others : List Condition}

theorem narrowAll_eq_foldl (h : c.schema.Knows conditions) (current : TypeSet) :
    c.narrowAll current conditions =
      .ok ((conditions.map fun x => c.schema.admitted x.type).foldl TypeSet.restrict current) := by
  induction conditions generalizing current with
  | nil => rfl
  | cons x rest ih =>
    obtain ⟨⟨us, hus⟩, hrest⟩ := List.forall_mem_cons.1 h
    rw [narrowAll, List.foldlM_cons, narrow_of_possibleTypes hus, List.map_cons, List.foldl_cons,
      Schema.admitted_eq hus]
    exact ih hrest _

/-- What is left of a restricted set are the types that all conditions admit. -/
theorem narrowAll_some (h : c.schema.Knows conditions) (S : List NamedType) :
    c.narrowAll (some S) conditions =
      .ok (some (S.filter fun t => conditions.all fun x => c.schema.admits x.type t)) := by
  rw [narrowAll_eq_foldl h, foldl_restrict]
  simp only [List.all_map, Function.comp_def, Schema.admits]

/-- From no restriction the first condition gives the types, and all conditions choose among them. -/
theorem narrowAll_none_cons {x : Condition} (h : c.schema.Knows (x :: conditions)) :
    c.narrowAll none (x :: conditions) = .ok (some ((c.schema.admitted x.type).filter fun t =>
      (x :: conditions).all fun y => c.schema.admits y.type t)) := by
  have hfirst : c.narrowAll none (x :: conditions) =
      c.narrowAll (some (c.schema.admitted x.type)) (x :: conditions) := by
    rw [narrowAll_eq_foldl h, narrowAll_eq_foldl h, List.map_cons, List.foldl_cons, List.foldl_cons]
    have hself : (c.schema.admitted x.type).filter
        (fun t => (c.schema.admitted x.type).any (·.name = t.name)) = c.schema.admitted x.type := by
      rw [List.filter_eq_self]
      exact fun t ht => List.any_eq_true.2 ⟨t, ht, by simp⟩
    rw [TypeSet.restrict, TypeSet.restrict, hself]
  rw [hfirst, narrowAll_some h]

/-! ### From no restriction -/

section
variable (h : c.schema.Knows conditions) {T : List NamedType}
  (hT : c.narrowAll none conditions = .ok (some T))
include h hT

/-- Where conditions have left some types, there was a first one. -/
theorem exists_first_of_narrowAll_none :
    ∃ x ∈ conditions, T = (c.schema.admitted x.type).filter fun t =>
      conditions.all fun y => c.schema.admits y.type t := by
  cases conditions with
  | nil => cases hT
  | cons x rest =>
    rw [narrowAll_none_cons h] at hT
    exact ⟨x, List.mem_cons_self, (Option.some.inj (Except.ok.inj hT)).symm⟩

theorem mem_map_name_narrowAll_none {name : String} :
    name ∈ T.map NamedType.name ↔
      ∀ x ∈ conditions, name ∈ (c.schema.admitted x.type).map NamedType.name := by
  obtain ⟨x, hx, rfl⟩ := exists_first_of_narrowAll_none h hT
  simp only [List.mem_map, List.mem_filter, List.all_eq_true, Schema.admits_iff]
  constructor
  · rintro ⟨t, ⟨-, hall⟩, rfl⟩ y hy
    exact hall y hy
  · intro hall
    obtain ⟨t, ht, rfl⟩ := hall x hx
    exact ⟨t, ⟨ht, hall⟩, rfl⟩

/-- Types of a schema leave types of the schema. -/
theorem mem_narrowAll_none (hown : ∀ x ∈ conditions, c.schema.lookup x.type.name = some x.type)
    {t : NamedType} :
    t ∈ T ↔ c.schema.lookup t.name = some t ∧
      ∀ x ∈ conditions, t.name ∈ (c.schema.admitted x.type).map NamedType.name := by
  obtain ⟨x, hx, rfl⟩ := exists_first_of_narrowAll_none h hT
  obtain ⟨us, hus⟩ := h x hx
  have hfirst := Schema.mem_possibleTypes_iff (u := t) (hown x hx) hus
  rw [← Schema.map_name_possibleTypes hus, ← Schema.admitted_eq hus] at hfirst
  simp only [List.mem_filter, List.all_eq_true, Schema.admits_iff, hfirst]
  constructor
  · rintro ⟨⟨hlookup, -⟩, hall⟩
    exact ⟨hlookup, hall⟩
  · rintro ⟨hlookup, hall⟩
    exact ⟨⟨hlookup, hall x hx⟩, hall⟩

/-- What is left of the types of a type system is in the order of their names. -/
theorem ordered_narrowAll_none {ts : TypeSystem} (hnd : (ts.types.map Definition.name).Nodup)
    (hts : c.schema = .ofTypeSystem ts)
    (hown : ∀ x ∈ conditions, c.schema.lookup x.type.name = some x.type) :
    Ordered NamedType.name T := by
  obtain ⟨x, hx, rfl⟩ := exists_first_of_narrowAll_none h hT
  obtain ⟨us, hus⟩ := h x hx
  have hmem := List.mem_of_find?_eq_some (hown x hx)
  rw [Schema.admitted_eq hus]
  rw [hts] at hus hmem
  exact (Schema.ordered_possibleTypes hnd hmem hus).sublist List.filter_sublist

end

theorem exists_narrowAll_none (h : c.schema.Knows conditions) (hne : conditions ≠ []) :
    ∃ T, c.narrowAll none conditions = .ok (some T) := by
  cases conditions with
  | nil => exact absurd rfl hne
  | cons x rest => exact ⟨_, narrowAll_none_cons h⟩

section
variable {T T' : List NamedType} (h : c.schema.Knows conditions)
  (hsame : Condition.SameTypes others conditions) (hT : c.narrowAll none conditions = .ok (some T))
  (hT' : c.narrowAll none others = .ok (some T'))
include h hsame hT hT'

theorem mem_map_name_of_sameTypes (name : String) :
    name ∈ T.map NamedType.name ↔ name ∈ T'.map NamedType.name := by
  rw [mem_map_name_narrowAll_none h hT, mem_map_name_narrowAll_none (h.of_sameTypes hsame) hT']
  exact (hsame.forall_iff fun t => name ∈ (c.schema.admitted t).map NamedType.name).symm

variable (hown : ∀ x ∈ conditions, c.schema.lookup x.type.name = some x.type)
include hown

theorem mem_of_sameTypes (t : NamedType) : t ∈ T ↔ t ∈ T' := by
  have hown' : ∀ x ∈ others, c.schema.lookup x.type.name = some x.type :=
    (hsame.forall_iff fun t => c.schema.lookup t.name = some t).2 hown
  rw [mem_narrowAll_none h hT hown, mem_narrowAll_none (h.of_sameTypes hsame) hT' hown']
  exact and_congr_right' (hsame.forall_iff
    fun u => t.name ∈ (c.schema.admitted u).map NamedType.name).symm

theorem eq_of_sameTypes {ts : TypeSystem} (hnd : (ts.types.map Definition.name).Nodup)
    (hts : c.schema = .ofTypeSystem ts) : T = T' := by
  have hown' : ∀ x ∈ others, c.schema.lookup x.type.name = some x.type :=
    (hsame.forall_iff fun t => c.schema.lookup t.name = some t).2 hown
  have hordered := ordered_narrowAll_none h hT hnd hts hown
  have hordered' := ordered_narrowAll_none (h.of_sameTypes hsame) hT' hnd hts hown'
  exact hordered.ext hordered' (mem_of_sameTypes h hsame hT hT' hown)

end

/-- Narrowing is intersection. Of a restricted set the types are left that all conditions admit, in the order
of the set; so it does not matter in which order and how often the conditions stand. Every step leaves a
restricted set, which is a part of the one before. From no restriction, the same conditions in two orders
leave the same names, the same types if the conditions are types of the schema, and the same set if the
schema is that of a type system. A condition whose possible types are not known is an error, the same one
for every set, whether it is given as a type or by name. -/
theorem narrowAll_intersection (c : Collector) (conditions : List Condition)
    (h : c.schema.Knows conditions) :
    (∀ S, c.narrowAll (some S) conditions =
        .ok (some (S.filter fun t => conditions.all fun x => c.schema.admits x.type t))) ∧
      (∀ S others, Condition.SameTypes others conditions →
        c.narrowAll (some S) others = c.narrowAll (some S) conditions) ∧
      (∀ current, ∀ x ∈ conditions, ∃ U, c.narrow current x.type x.pos = .ok (some U) ∧
        ∀ S, current = some S → U.Sublist S) ∧
      (∀ others, Condition.SameTypes others conditions →
        ∃ T T' : TypeSet, c.narrowAll none conditions = .ok T ∧ c.narrowAll none others = .ok T' ∧
          T.isSome = T'.isSome ∧
          (∀ name, name ∈ T.toList.map NamedType.name ↔ name ∈ T'.toList.map NamedType.name) ∧
          ((∀ x ∈ conditions, c.schema.lookup x.type.name = some x.type) →
            (∀ t, t ∈ T.toList ↔ t ∈ T'.toList) ∧
            ∀ ts : TypeSystem, (ts.types.map Definition.name).Nodup →
              c.schema = .ofTypeSystem ts → T = T')) ∧
      (∀ t pos, (∀ us, c.schema.possibleTypes t ≠ .ok us) →
        ∃ e, ∀ current, c.narrow current t pos = .error e) ∧
      ∀ name pos, (∀ t us, c.schema.type? name = some t → c.schema.possibleTypes t ≠ .ok us) →
        ∃ e, ∀ current, c.enterCondition current name pos = .error e := by
  refine ⟨narrowAll_some h, ?_, ?_, ?_, ?_, ?_⟩
  · intro S others hsame
    have hadmitted : (fun t => others.all fun x => c.schema.admits x.type t) =
        fun t => conditions.all fun x => c.schema.admits x.type t := by
      funext t
      exact hsame.all_eq (c.schema.admits · t)
    rw [narrowAll_some h, narrowAll_some (h.of_sameTypes hsame), hadmitted]
  · intro current x hx
    obtain ⟨us, hus⟩ := h x hx
    exact exists_narrow_eq_some hus current x.pos
  · intro others hsame
    by_cases hne : conditions = []
    case pos =>
      subst hne
      obtain rfl := hsame.eq_nil_iff.2 rfl
      exact ⟨none, none, rfl, rfl, rfl, fun name => .rfl, fun _ => ⟨fun t => .rfl, fun _ _ _ => rfl⟩⟩
    obtain ⟨T, hT⟩ := exists_narrowAll_none h hne
    obtain ⟨T', hT'⟩ :=
      exists_narrowAll_none (h.of_sameTypes hsame) fun hnil => hne (hsame.eq_nil_iff.1 hnil)
    refine ⟨some T, some T', hT, hT', rfl, mem_map_name_of_sameTypes h hsame hT hT', fun hown => ?_⟩
    refine ⟨mem_of_sameTypes h hsame hT hT' hown, fun ts hnd hts => ?_⟩
    rw [eq_of_sameTypes h hsame hT hT' hown hnd hts]
  · exact fun t pos hunknown => exists_narrow_eq_error hunknown pos
  · exact fun name pos hunknown => exists_enterCondition_eq_error hunknown pos

end Collector

namespace Pets

def conditionOn (name : String) : Condition :=
  { type := ((Schema.ofTypeSystem listed).lookup name).getD animal }

def listing : Collector := { schema := .ofTypeSystem listed }

theorem knows_conditionOn : ∀ name ∈ ["Animal", "Either", "Tagged"],
    ∃ us, listing.schema.possibleTypes (conditionOn name).type = .ok us := by
  have hall : ∀ name ∈ ["Animal", "Either", "Tagged"],
      (listing.schema.possibleTypes (conditionOn name).type).toOption.isSome = true := by decide
  intro name hname
  obtain ⟨us, hus⟩ := Option.isSome_iff_exists.1 (hall name hname)
  exact ⟨us, eq_ok_of_toOption hus⟩

theorem lookup_conditionOn : ∀ name ∈ ["Animal", "Either", "Tagged"],
    listing.schema.lookup (conditionOn name).type.name = some (conditionOn name).type := by
  have hall : ∀ name ∈ ["Animal", "Either", "Tagged"],
      (listing.schema.lookup name).isSome = true := by decide
  intro name hname
  obtain ⟨t, ht⟩ := Option.isSome_iff_exists.1 (hall name hname)
  have htype : (conditionOn name).type = t := congrArg (·.getD animal) ht
  rw [htype, Schema.name_of_lookup ht, ht]

end Pets

/-- Of the animals, the dog alone is tagged, whichever condition comes first. -/
theorem Collector.narrowAll_intersection_listed :
    Pets.listing.schema.Knows (["Animal", "Either", "Tagged"].map Pets.conditionOn) ∧
      Condition.SameTypes (["Tagged", "Animal", "Tagged", "Either"].map Pets.conditionOn)
        (["Animal", "Either", "Tagged"].map Pets.conditionOn) ∧
      ∃ T : TypeSet, T.toList.map NamedType.name = ["Dog"] ∧
        Pets.listing.narrowAll none (["Animal", "Either", "Tagged"].map Pets.conditionOn) = .ok T ∧
        Pets.listing.narrowAll none
          (["Tagged", "Animal", "Tagged", "Either"].map Pets.conditionOn) = .ok T := by
  have hknows : Pets.listing.schema.Knows (["Animal", "Either", "Tagged"].map Pets.conditionOn) :=
    List.forall_mem_map.2 Pets.knows_conditionOn
  have hsame : Condition.SameTypes (["Tagged", "Animal", "Tagged", "Either"].map Pets.conditionOn)
      (["Animal", "Either", "Tagged"].map Pets.conditionOn) := by
    have hnames : ∀ name, name ∈ ["Tagged", "Animal", "Tagged", "Either"] ↔
        name ∈ ["Animal", "Either", "Tagged"] := by
      intro name
      simp only [List.mem_cons, List.not_mem_nil, or_false]
      tauto
    intro t
    rw [List.map_map, List.map_map, List.mem_map, List.mem_map]
    exact exists_congr fun name => and_congr_left fun _ => hnames name
  obtain ⟨-, -, -, hnone, -⟩ := narrowAll_intersection Pets.listing _ hknows
  obtain ⟨T, T', hT, hT', -, -, hown⟩ := hnone _ hsame
  obtain ⟨-, hlist⟩ := hown (List.forall_mem_map.2 Pets.lookup_conditionOn)
  obtain rfl := hlist Pets.listed Pets.keyed_listed.types rfl
  have hnames : (Pets.listing.narrowAll none
      (["Animal", "Either", "Tagged"].map Pets.conditionOn)).toOption.map
        (·.toList.map NamedType.name) = some ["Dog"] := by decide
  rw [hT] at hnames
  exact ⟨hknows, hsame, T, Option.some.inj hnames, hT, hT'⟩

end OperationGraph
