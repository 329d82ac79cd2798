import BMethod.Report
import Mathlib.Tactic

/-!
# Reading what was written

Types, spans and reports are read back from JSON as they were written (`written_read_back`). The one
condition is on numbers: those of variables and declarations, and the offsets of spans, must be in the
range that reading accepts, and then nothing else about a value matters.
-/

namespace BMethod

/-! ## Numbers. -/

namespace Ty

mutual

/-- The numbers in a type: of variables, and of the declarations that sets come from. -/
def indices : Ty → List Nat
  | .var v => [v]
  | .set elem | .setOrInteger elem => indices elem
  | .couple left right | .integerOrPairs left right => indices left ++ indices right
  | .record fields => fieldIndices fields
  | .enumerated id _ _ | .deferred id _ => [id.decl]
  | _ => []

/-- The numbers in the types of some fields. -/
def fieldIndices : List (String × Ty) → List Nat
  | [] => []
  | (_, t) :: fields => indices t ++ fieldIndices fields

end

/-- All numbers in the type are in the range of indices. -/
def Indexed (t : Ty) : Prop := ∀ i ∈ t.indices, i < indexBound

lemma indexed_record {fields : List (String × Ty)} :
    (record fields).Indexed ↔ ∀ f ∈ fields, f.2.Indexed := by
  rw [Indexed, indices]
  induction fields with
  | nil => simp [fieldIndices]
  | cons f fields ih =>
    rw [fieldIndices, List.forall_mem_append, ih, List.forall_mem_cons]
    rfl

end Ty

/-- The offsets of the span are in the range of offsets. -/
def Span.InRange (s : Span) : Prop := s.start < offsetBound ∧ s.stop < offsetBound

/-- All numbers in the types of the report are in the range of indices. -/
def Report.Indexed (r : Report) : Prop := ∀ n ∈ r.names, ∀ t ∈ n.ty, t.Indexed

/-! ## Values of JSON. -/

namespace Json

@[simp] lemma natBelow?_ofNat {bound n m : Nat} :
    natBelow? bound (ofNat n) = some m ↔ n = m ∧ n < bound := by
  show (if n < bound then some n else none) = some m ↔ _
  rw [Option.ite_none_right_eq_some, Option.some_inj, and_comm]

@[simp] lemma string?_string (s : String) : (string s).string? = some s := rfl

@[simp] lemma array?_array (items : List Json) : (array items).array? = some items := rfl

/-- Items are read back if and only if each of them is. -/
lemma mapM_map_eq_some {α : Type} {write : α → Json} {read : Json → Option α} {as : List α} :
    (as.map write).mapM read = some as ↔ ∀ a ∈ as, read (write a) = some a := by
  induction as with
  | nil => simp
  | cons a as ih =>
    rw [List.map_cons, List.mapM_cons, List.forall_mem_cons, ← ih]
    simp [Option.bind_eq_some_iff]

end Json

/-! ## Types and spans. -/

lemma SetId.ofJson?_toJson {id : SetId} :
    ofJson? id.toJson = some id ↔ id.decl < indexBound := by
  simp [ofJson?, toJson, Json.fields?, List.lookup_cons, Option.bind_eq_some_iff]

lemma Span.ofJson?_toJson {s : Span} : ofJson? s.toJson = some s ↔ s.InRange := by
  simp [ofJson?, toJson, Json.fields?, List.lookup_cons, Option.bind_eq_some_iff, InRange]

namespace Ty

lemma fieldItems?_fieldsToJson {fields : List (String × Ty)} :
    fieldItems? (fieldsToJson fields) = some fields ↔ ∀ f ∈ fields, ofJson? f.2.toJson = some f.2 := by
  induction fields with
  | nil => simp [fieldItems?, fieldsToJson]
  | cons f fields ih =>
    rw [List.forall_mem_cons, ← ih]
    simp [fieldItems?, fieldsToJson, fieldOfJson?, Option.bind_eq_some_iff, Prod.ext_iff]

/-- A type is read back if and only if its numbers are in range. -/
theorem ofJson?_toJson (t : Ty) : ofJson? t.toJson = some t ↔ t.Indexed := by
  induction t with
  | var v => simp [toJson, ofJson?, Option.bind_eq_some_iff, Indexed, indices]
  | integer | bool | string | real => simp [toJson, ofJson?, basicOfName?, Indexed, indices]
  | set elem ih | setOrInteger elem ih =>
    rw [Indexed, indices, ← Indexed, ← ih]
    simp [toJson, ofJson?, Option.bind_eq_some_iff]
  | couple left right ihl ihr | integerOrPairs left right ihl ihr =>
    rw [Indexed, indices, List.forall_mem_append, ← Indexed, ← Indexed, ← ihl, ← ihr]
    simp [toJson, ofJson?, pairOfJson?, Option.bind_eq_some_iff]
  | record fields ih =>
    rw [indexed_record, ← forall₂_congr ih, ← fieldItems?_fieldsToJson]
    simp [toJson, ofJson?, recordOfJson?, memberFields?, fieldsOfJson?, Option.bind_eq_some_iff]
  | enumerated id name literals =>
    rw [Indexed, indices, List.forall_mem_singleton, ← SetId.ofJson?_toJson]
    simp [toJson, ofJson?, enumeratedOfJson?, Json.fields?, List.lookup_cons, Option.bind_eq_some_iff,
      Json.strings, Json.mapM_map_eq_some, -List.mapM_map]
  | deferred id name =>
    rw [Indexed, indices, List.forall_mem_singleton, ← SetId.ofJson?_toJson]
    simp [toJson, ofJson?, deferredOfJson?, Json.fields?, List.lookup_cons, Option.bind_eq_some_iff]

/-- A type is never written as `null`, which stands for no type. -/
lemma toJson_ne_null (t : Ty) : t.toJson ≠ .null := by
  cases t <;> simp [toJson]

lemma ofNullable?_toJson (ty : Option Ty) :
    ofNullable? ((ty.map toJson).getD .null) = some ty ↔ ∀ t ∈ ty, t.Indexed := by
  cases ty with
  | none => simp [ofNullable?]
  | some t =>
    have read : ofNullable? t.toJson = (ofJson? t.toJson).map some := by
      rw [ofNullable?]
      exact t.toJson_ne_null
    simp [read, ofJson?_toJson]

end Ty

/-! ## Reports. -/

lemma TypedName.ofJson?_toJson (n : TypedName) :
    ofJson? n.toJson = some n ↔ ∀ t ∈ n.ty, t.Indexed := by
  obtain ⟨name, ty⟩ := n
  rw [← Ty.ofNullable?_toJson]
  simp [toJson, ofJson?, List.lookup_cons, Option.bind_eq_some_iff]

lemma TypedName.listOfJson?_toJson (ns : List TypedName) :
    listOfJson? (.array (ns.map toJson)) = some ns ↔ ∀ n ∈ ns, ∀ t ∈ n.ty, t.Indexed := by
  rw [listOfJson?, Json.array?_array, Option.bind_eq_bind, Option.bind_some, Json.mapM_map_eq_some]
  exact forall₂_congr fun n _ => n.ofJson?_toJson

lemma OperationReport.ofJson?_toJson (o : OperationReport) :
    ofJson? o.toJson = some o ↔ ∀ n ∈ o.params ++ o.outputs, ∀ t ∈ n.ty, t.Indexed := by
  obtain ⟨name, params, outputs⟩ := o
  rw [List.forall_mem_append, ← TypedName.listOfJson?_toJson, ← TypedName.listOfJson?_toJson]
  simp [toJson, ofJson?, Json.fields?, List.lookup_cons, Option.bind_eq_some_iff]

/-- A report is read back if and only if the numbers in its types are in range. -/
theorem Report.ofJson?_toJson (r : Report) : ofJson? r.toJson = some r ↔ r.Indexed := by
  obtain ⟨machine, sets, constants, vars, operations⟩ := r
  have each : (operations.map OperationReport.toJson).mapM OperationReport.ofJson? =
      some operations ↔ ∀ n ∈ operations.flatMap fun o => o.params ++ o.outputs,
        ∀ t ∈ n.ty, t.Indexed := by
    rw [Json.mapM_map_eq_some, List.forall_mem_flatMap]
    exact forall₂_congr fun o _ => o.ofJson?_toJson
  rw [Indexed, names, List.forall_mem_append, List.forall_mem_append, List.forall_mem_append,
    ← each]
  simp only [← TypedName.listOfJson?_toJson]
  simp [toJson, ofJson?, Json.fields?, List.lookup_cons, Option.bind_eq_some_iff, and_assoc]

/-- Types, spans and reports are read back as they were written, whatever they are built from and
whatever names they have, as long as their numbers are in range: below `2 ^ 32` for variables and
declarations, and below `2 ^ 64` for offsets. -/
theorem written_read_back :
    (∀ t : Ty, Ty.ofJson? t.toJson = some t ↔ ∀ i ∈ t.indices, i < 2 ^ 32) ∧
      (∀ s : Span, Span.ofJson? s.toJson = some s ↔ s.start < 2 ^ 64 ∧ s.stop < 2 ^ 64) ∧
      ∀ r : Report, Report.ofJson? r.toJson = some r ↔
        ∀ n ∈ r.names, ∀ t ∈ n.ty, ∀ i ∈ t.indices, i < 2 ^ 32 :=
  ⟨Ty.ofJson?_toJson, fun _ => Span.ofJson?_toJson, Report.ofJson?_toJson⟩

end BMethod
