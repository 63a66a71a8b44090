import OperationGraph.Definition.Check
import OperationGraph.Proofs.Success
import OperationGraph.Proofs.Text.Ordered

/-! # What the checks of a type system say

A check that passes is the same as a property of what it checks. The place and the words of a fault do
not matter to whether there is one. -/

namespace OperationGraph.TypeSystem

/-! ### Steps of checks -/

theorem require_eq_ok_iff {condition : Bool} {pos : Position} {fault : TypeSystemFault} :
    require condition pos fault = .ok () ↔ condition = true := by
  unfold require
  cases condition <;> simp

theorem checkAll_eq_ok_iff {α : Type} {check : α → Checked} {as : List α} :
    checkAll check as = .ok () ↔ ∀ a ∈ as, check a = .ok () := by
  induction as with
  | nil => simp [checkAll]
  | cons a rest ih => rw [checkAll, then_eq_ok_iff, ih, List.forall_mem_cons]

theorem checkName_eq_ok_iff {pos : Position} {name : String} :
    checkName pos name = .ok () ↔ "__".isPrefixOf name = false := by
  rw [checkName, require_eq_ok_iff, Bool.not_eq_true']

theorem checkType_bind_eq_ok_iff {ts : TypeSystem} {t : TypeExpr} {f : Definition → Checked} :
    ts.checkType t >>= f = .ok () ↔ ∃ d, ts.type? t.baseName = some d ∧ f d = .ok () := by
  rw [bind_eq_ok_iff]
  refine exists_congr fun d => and_congr_left fun _ => ?_
  unfold checkType
  cases ts.type? t.baseName <;> simp

/-! ### Directives and arguments -/

theorem checkDirective_eq_ok_iff {ts : TypeSystem} {location : String} {within : Option String}
    {d : Directive} :
    ts.checkDirective location within d = .ok () ↔
      "__".isPrefixOf d.name = false ∧ within ≠ some d.name ∧
        ∃ decl, ts.directive? d.name = some decl ∧ location ∈ decl.locations ∧
          checkGivenArguments d decl = .ok () := by
  unfold checkDirective
  rw [then_eq_ok_iff, then_eq_ok_iff, checkName_eq_ok_iff, require_eq_ok_iff, decide_eq_true_iff]
  cases ts.directive? d.name with
  | none => simp
  | some decl => simp [then_eq_ok_iff, require_eq_ok_iff]

theorem checkArguments_eq_ok_iff {ts : TypeSystem} {within : Option String}
    {args : List ArgumentDefinition} :
    ts.checkArguments within args = .ok () ↔
      ∀ a ∈ args, "__".isPrefixOf a.name = false ∧
        (∃ d, ts.type? a.type.baseName = some d ∧ d.kind.isInput = true) ∧
        ts.checkDirectives "ARGUMENT_DEFINITION" within a.directives = .ok () := by
  simp only [checkArguments, checkAll_eq_ok_iff, then_eq_ok_iff, checkName_eq_ok_iff,
    checkType_bind_eq_ok_iff, require_eq_ok_iff]
  refine forall₂_congr fun a _ => and_congr_right fun _ => ?_
  simp only [← and_assoc, exists_and_right]

def fieldLocation (kind : Kind) : String :=
  if kind = .inputObject then "INPUT_FIELD_DEFINITION" else "FIELD_DEFINITION"

theorem checkFields_eq_ok_iff {ts : TypeSystem} {d : Definition} :
    ts.checkFields d = .ok () ↔
      ∀ f ∈ d.fields, "__".isPrefixOf f.name = false ∧ (ts.type? f.type.baseName).isSome = true ∧
        ts.checkArguments none f.arguments = .ok () ∧
        ts.checkDirectives (fieldLocation d.kind) none f.directives = .ok () := by
  simp only [checkFields, checkAll_eq_ok_iff, then_eq_ok_iff, checkName_eq_ok_iff,
    checkType_bind_eq_ok_iff, exists_and_right, Option.isSome_iff_exists, fieldLocation]

/-! ### Members and interfaces -/

theorem checkMembers_eq_ok_iff {ts : TypeSystem} {d : Definition} :
    ts.checkMembers d = .ok () ↔
      ∀ m ∈ d.members, ∃ t, ts.type? m = some t ∧ t.kind = .object := by
  rw [checkMembers, checkAll_eq_ok_iff]
  refine forall₂_congr fun m _ => ?_
  cases ts.type? m <;> simp [require_eq_ok_iff]

theorem checkImplementedField_eq_ok_iff {ts : TypeSystem} {d i : Definition} {r : FieldDefinition} :
    ts.checkImplementedField d i r = .ok () ↔
      ∃ f, d.fields.find? (·.name = r.name) = some f ∧ ts.isCovariant r.type f.type = true ∧
        (∀ a ∈ r.arguments, ∃ b, f.arguments.find? (·.name = a.name) = some b ∧
          isCompatible a.type b.type = true) ∧
        ∀ b ∈ f.arguments, (r.arguments.any (·.name = b.name) || !isRequired b) = true := by
  unfold checkImplementedField
  cases d.fields.find? (·.name = r.name) with
  | none => simp
  | some f =>
    simp only [then_eq_ok_iff, require_eq_ok_iff, checkAll_eq_ok_iff, Option.some.injEq, exists_eq_left']
    refine and_congr_right fun _ => and_congr_left fun _ => forall₂_congr fun a _ => ?_
    cases f.arguments.find? (·.name = a.name) <;> simp [require_eq_ok_iff]

theorem checkImplements_eq_ok_iff {ts : TypeSystem} {d : Definition} {name : String} :
    ts.checkImplements d name = .ok () ↔
      ∃ i, ts.type? name = some i ∧ i.kind = .interface ∧
        (∀ r ∈ i.fields, ts.checkImplementedField d i r = .ok ()) ∧
        ∀ j ∈ i.interfaces, j ∈ d.interfaces := by
  unfold checkImplements
  cases ts.type? name with
  | none => simp
  | some i => simp [then_eq_ok_iff, require_eq_ok_iff, checkAll_eq_ok_iff]

/-! ### Kinds -/

def FitsKind (ts : TypeSystem) (d : Definition) : Prop :=
  match d.kind with
  | .object | .interface => d.fields ≠ [] ∧ ∀ f ∈ d.fields, ts.kindAllowed Kind.isOutput f = true
  | .enum => d.values ≠ [] ∧ ∀ v ∈ d.values, v.name ∉ ["true", "false", "null"] ∧
      ts.checkDirectives "ENUM_VALUE" none v.directives = .ok ()
  | .inputObject => d.fields ≠ [] ∧ ∀ f ∈ d.fields, ts.kindAllowed Kind.isInput f = true
  | _ => True

theorem checkKind_eq_ok_iff {ts : TypeSystem} {d : Definition} :
    ts.checkKind d = .ok () ↔ ts.FitsKind d := by
  unfold checkKind FitsKind
  cases d.kind <;> simp [then_eq_ok_iff, require_eq_ok_iff, checkAll_eq_ok_iff]

theorem checkDistinctFields_eq_ok_iff {type : String} {fs : List FieldDefinition} :
    checkDistinctFields type fs = .ok () ↔ (fs.map FieldDefinition.name).Nodup := by
  induction fs with
  | nil => simp [checkDistinctFields]
  | cons f rest ih =>
    rw [checkDistinctFields, List.map_cons, List.nodup_cons]
    cases hfind : rest.find? (·.name = f.name) with
    | none =>
      have hnot : f.name ∉ rest.map FieldDefinition.name := by simpa using hfind
      simpa [hnot] using ih
    | some g =>
      have hmem : f.name ∈ rest.map FieldDefinition.name :=
        List.mem_map.2 ⟨g, List.mem_of_find?_eq_some hfind, by simpa using List.find?_some hfind⟩
      simp [hmem]

/-! ### Types and directives -/

theorem checkDefinition_eq_ok_iff {ts : TypeSystem} {d : Definition} :
    ts.checkDefinition d = .ok () ↔
      ts.checkFields d = .ok () ∧ ts.checkMembers d = .ok () ∧
        (∀ i ∈ d.interfaces, ts.checkImplements d i = .ok ()) ∧ ts.FitsKind d ∧
        (d.fields.map FieldDefinition.name).Nodup ∧
        (d.builtIn = false → "__".isPrefixOf d.name = false) ∧
        ts.checkDirectives d.kind.text none d.directives = .ok () := by
  unfold checkDefinition
  simp only [then_eq_ok_iff, checkAll_eq_ok_iff, checkKind_eq_ok_iff, checkDistinctFields_eq_ok_iff]
  cases d.builtIn with
  | false => simp [then_eq_ok_iff, checkName_eq_ok_iff]
  | true => simp

theorem check_eq_ok_iff {ts : TypeSystem} :
    ts.check = .ok () ↔ (∀ d ∈ ts.types, ts.checkDefinition d = .ok ()) ∧
      ∀ d ∈ ts.directives, "__".isPrefixOf d.name = false ∧
        ts.checkArguments (some d.name) d.arguments = .ok () := by
  unfold check
  simp only [then_eq_ok_iff, checkAll_eq_ok_iff, sortedTypes, (sortBy_perm ..).mem_iff,
    checkDirectiveDefinition, checkName_eq_ok_iff]

end OperationGraph.TypeSystem
