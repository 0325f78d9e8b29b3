import ProvCpl.BackendInserts
import Mathlib.Data.Int.Bitwise

/-! # Ids as parameters

Ids are 64-bit in the library and in the tables. They are bound as 64-bit values to parameters
declared with a 32-bit type, and the driver converts them; what the database receives is the id
exactly when it fits the declared type. -/
namespace IdParameters

open CplTypes ProvStore PreparedQueries SqlSelect
open BackendInserts (schema relationsTable propertiesTable propertyParams addRelationStmts
  addObjectPropertyStmts)

/-- The values of a parameter declared `SQL_INTEGER`. -/
def InRange (n : ℤ) : Prop := -2 ^ 31 ≤ n ∧ n < 2 ^ 31

instance (n : ℤ) : Decidable (InRange n) := inferInstanceAs (Decidable (_ ∧ _))

/-- The conversion of a `SQL_C_SBIGINT` to that type; a value out of range is rejected or becomes
some value in range. -/
structure Driver where
  integer : ℤ → Option ℤ
  keeps : ∀ n, InRange n → integer n = some n
  bounded : ∀ n m, integer n = some m → InRange m

def rejecting : Driver where
  integer := fun n => if InRange n then some n else none
  keeps := fun n h => if_pos h
  bounded := by
    intro n m h
    split at h
    · next hn => exact Option.some.inj h ▸ hn
    · cases h

def truncating : Driver where
  integer := fun n => some (Int.bmod n (2 ^ 32))
  keeps := by
    intro n h
    obtain ⟨hl, hu⟩ := h
    rw [Int.bmod_eq_of_le (by omega) (by omega)]
  bounded := by
    intro n m h
    obtain rfl := Option.some.inj h
    have hl := Int.le_bmod (x := n) (m := 2 ^ 32) (by decide)
    have hu := Int.bmod_lt (x := n) (m := 2 ^ 32) (by decide)
    constructor <;> omega

/-- `(long long)` of a `cpl_id_t`. -/
def longLong (id : ℕ) : ℤ := Int.bmod id (2 ^ 64)

/-- `SQL_BIND_INTEGER` and `SQL_BIND_VARCHAR`. -/
inductive Parameter where
  | integer (n : ℤ)
  | varchar (s : String)
  deriving DecidableEq, Repr

def Driver.convert (drv : Driver) : Parameter → Option Value
  | .integer n => (drv.integer n).map .integer
  | .varchar s => some (.text s)

/-- The values received, or none if one of them is rejected. -/
def Driver.send (drv : Driver) : List Parameter → Option (List Value)
  | [] => some []
  | p :: ps =>
    match drv.convert p, drv.send ps with
    | some v, some vs => some (v :: vs)
    | _, _ => none

inductive Statement where
  | select (q : Select)
  | insert (i : SqlInserts.Insert)
  deriving DecidableEq, Repr

inductive IdCall where
  | getObjectInfo
  | addRelationFrom (toId : ℕ) (type : ℤ)
  | addRelationTo (fromId : ℕ) (type : ℤ)
  | lookupRelationFrom (toId : ℕ) (type : ℤ)
  | lookupRelationTo (fromId : ℕ) (type : ℤ)
  | getObjectRelations (direction : ℤ)
  | addObjectStringProperty (nsPrefix key value : String)
  | getObjectStringProperties (nsPrefix key : Option String)
  deriving DecidableEq, Repr

def IdCall.Plain : IdCall → Prop
  | .addRelationFrom other type | .addRelationTo other type
  | .lookupRelationFrom other type | .lookupRelationTo other type =>
    other < 2 ^ 63 ∧ EnsureRType type
  | _ => True

def IdCall.OtherFits : IdCall → Prop
  | .addRelationFrom other _ | .addRelationTo other _
  | .lookupRelationFrom other _ | .lookupRelationTo other _ => other < 2 ^ 31
  | _ => True

def IdCall.statement : IdCall → Statement
  | .getObjectInfo => .select getObjectInfoStmts
  | .addRelationFrom _ _ | .addRelationTo _ _ => .insert addRelationStmts
  | .lookupRelationFrom _ _ | .lookupRelationTo _ _ => .select lookupRelationStmts
  | .getObjectRelations direction =>
    if direction = cplDAncestors then .select getObjectAncestorsStmts
    else .select getObjectDescendantsStmts
  | .addObjectStringProperty _ _ _ => .insert addObjectPropertyStmts
  | .getObjectStringProperties p k =>
    match p, k with
    | some _, some _ => .select getObjectPropertiesWithKeyStmts
    | _, _ => .select getObjectPropertiesStmts

def IdCall.parameters (id : ℕ) : IdCall → List Parameter
  | .getObjectInfo => [.integer (longLong id)]
  | .addRelationFrom other type | .lookupRelationFrom other type =>
    [.integer (longLong id), .integer (longLong other), .integer type]
  | .addRelationTo other type | .lookupRelationTo other type =>
    [.integer (longLong other), .integer (longLong id), .integer type]
  | .getObjectRelations _ => [.integer (longLong id)]
  | .addObjectStringProperty p k v =>
    [.integer (longLong id), .varchar p, .varchar k, .varchar v, .integer stringProperty]
  | .getObjectStringProperties p k =>
    match p, k with
    | some p, some k =>
      [.integer (longLong id), .varchar p, .varchar k, .integer stringProperty]
    | _, _ => [.integer (longLong id), .integer stringProperty]

def IdCall.intended (id : ℕ) : IdCall → List Value
  | .getObjectInfo => [.integer id]
  | .addRelationFrom other type | .lookupRelationFrom other type =>
    [.integer id, .integer other, .integer type]
  | .addRelationTo other type | .lookupRelationTo other type =>
    [.integer other, .integer id, .integer type]
  | .getObjectRelations _ => [.integer id]
  | .addObjectStringProperty p k v =>
    [.integer id, .text p, .text k, .text v, .integer stringProperty]
  | .getObjectStringProperties p k =>
    match p, k with
    | some p, some k => [.integer id, .text p, .text k, .integer stringProperty]
    | _, _ => [.integer id, .integer stringProperty]

def IdCall.found (id : ℕ) (s : Store) : IdCall → List Row
  | .getObjectInfo => (s.objects.filter fun r => r.id = id).map objectCells
  | .lookupRelationFrom other type => (s.relations.filter fun r =>
      r.fromId = some id ∧ r.toId = some other ∧ r.type = some type).map relationCells
  | .lookupRelationTo other type => (s.relations.filter fun r =>
      r.fromId = some other ∧ r.toId = some id ∧ r.type = some type).map relationCells
  | .getObjectRelations direction =>
    if direction = cplDAncestors then (s.relationsFrom id).map relationCells
    else (s.relationsTo id).map relationCells
  | .getObjectStringProperties p k =>
    (propertiesOf s.objectProperties id p k stringProperty).map propertyCells
  | _ => []

/-- The row that an insertion is meant to store; its own id is made by the database. -/
def IdCall.stored (id fresh : ℕ) : IdCall → Row
  | .addRelationFrom other type => relationCells ⟨fresh, some id, some other, some type⟩
  | .addRelationTo other type => relationCells ⟨fresh, some other, some id, some type⟩
  | .addObjectStringProperty p k v => propertyCells ⟨id, p, k, v, stringProperty⟩
  | _ => fun _ => .null

/-- With these values the statement finds the rows, or fills the columns of the row, of the id. -/
def IdCall.Serves (c : IdCall) (id : ℕ) (values : List Value) : Prop :=
  match c.statement with
  | .select q => ∀ s, q.matching (database s) values = some (c.found id s)
  | .insert i => ∃ d, schema i.table = some d ∧ ∀ fresh now, ∀ column ∈ d.columns,
      i.value values fresh now column = c.stored id fresh column.name

def Usable (drv : Driver) (c : IdCall) (id : ℕ) : Prop :=
  drv.send (c.parameters id) = some (c.intended id) ∧ c.Serves id (c.intended id)

section Driver

variable {drv : Driver} {c : IdCall} {id : ℕ}

theorem send_eq_some_iff (drv : Driver) (ps : List Parameter) (vs : List Value) :
    drv.send ps = some vs ↔ List.Forall₂ (fun p v => drv.convert p = some v) ps vs := by
  induction ps generalizing vs with
  | nil =>
    rw [List.forall₂_nil_left_iff]
    constructor
    · intro h
      exact (Option.some.inj h).symm
    · intro h
      rw [h]
      rfl
  | cons p ps ih =>
    unfold Driver.send
    constructor
    · intro h
      split at h
      · next v vs' hv hvs =>
        obtain rfl := Option.some.inj h
        exact .cons hv ((ih vs').mp hvs)
      · cases h
    · intro h
      cases h with
      | cons hv hvs => rw [hv, (ih _).mpr hvs]

theorem convert_integer_iff (drv : Driver) (n : ℤ) :
    drv.convert (.integer n) = some (.integer n) ↔ InRange n := by
  constructor
  · intro h
    obtain ⟨m, hm, he⟩ := Option.map_eq_some_iff.mp h
    obtain rfl := Value.integer.inj he
    exact drv.bounded _ _ hm
  · intro h
    simp only [Driver.convert, drv.keeps n h, Option.map_some]

theorem longLong_eq (h : id < 2 ^ 63) : longLong id = id :=
  Int.bmod_eq_of_le (by omega) (by omega)

theorem inRange_id : InRange (id : ℤ) ↔ id < 2 ^ 31 := by
  unfold InRange
  omega

theorem inRange_type {type : ℤ} (h : EnsureRType type) : InRange type := by
  unfold EnsureRType at h
  unfold InRange
  omega

/-- All parameters arrive unchanged when the ids among them fit. -/
theorem sent_iff (hc : c.Plain) (h : id < 2 ^ 63) :
    drv.send (c.parameters id) = some (c.intended id) ↔ id < 2 ^ 31 ∧ c.OtherFits := by
  have hid := longLong_eq h
  have hstring : InRange stringProperty := by decide
  have htext : ∀ s, drv.convert (.varchar s) = some (.text s) := fun _ => rfl
  rw [send_eq_some_iff]
  cases c with
  | getObjectInfo =>
    simp [IdCall.parameters, IdCall.intended, IdCall.OtherFits, hid, convert_integer_iff,
      inRange_id]
  | addRelationFrom other type | lookupRelationFrom other type =>
    have ht := inRange_type hc.2
    simp only [IdCall.parameters, IdCall.intended, List.forall₂_cons, List.Forall₂.nil, hid,
      longLong_eq hc.1, convert_integer_iff, ht, and_true, inRange_id, IdCall.OtherFits]
  | addRelationTo other type | lookupRelationTo other type =>
    have ht := inRange_type hc.2
    simp only [IdCall.parameters, IdCall.intended, List.forall₂_cons, List.Forall₂.nil, hid,
      longLong_eq hc.1, convert_integer_iff, ht, and_true, inRange_id, IdCall.OtherFits]
    exact and_comm
  | getObjectRelations direction =>
    simp [IdCall.parameters, IdCall.intended, IdCall.OtherFits, hid, convert_integer_iff,
      inRange_id]
  | addObjectStringProperty p k v =>
    simp [IdCall.parameters, IdCall.intended, IdCall.OtherFits, hid, convert_integer_iff,
      inRange_id, htext, hstring]
  | getObjectStringProperties p k =>
    have hplain : List.Forall₂ (fun p v => drv.convert p = some v)
        [.integer (longLong id), .integer stringProperty]
        [.integer id, .integer stringProperty] ↔ id < 2 ^ 31 ∧ True := by
      simp [hid, convert_integer_iff, inRange_id, hstring]
    cases p with
    | none => exact hplain
    | some p =>
      cases k with
      | none => exact hplain
      | some k =>
        simp [IdCall.parameters, IdCall.intended, IdCall.OtherFits, hid, convert_integer_iff,
          inRange_id, htext, hstring]

theorem fills_relation (f o : ℕ) (type : ℤ) (fresh now : ℕ) :
    ∀ column ∈ relationsTable.columns,
      addRelationStmts.value [.integer f, .integer o, .integer type] fresh now column =
        relationCells ⟨fresh, some f, some o, some type⟩ column.name := by
  intro column h
  simp only [relationsTable, List.mem_cons, List.not_mem_nil, or_false] at h
  rcases h with rfl | rfl | rfl | rfl <;> rfl

theorem fills_property (r : PropertyRow) (fresh now : ℕ) :
    ∀ column ∈ (propertiesTable "cpl_objects").columns,
      addObjectPropertyStmts.value (propertyParams r) fresh now column =
        propertyCells r column.name := by
  intro column h
  simp only [propertiesTable, List.mem_cons, List.not_mem_nil, or_false] at h
  rcases h with rfl | rfl | rfl | rfl | rfl <;> rfl

theorem serves_intended (c : IdCall) (id : ℕ) : c.Serves id (c.intended id) := by
  cases c with
  | getObjectInfo => exact fun s => matching_objectInfo
  | addRelationFrom other type => exact ⟨relationsTable, rfl, fills_relation id other type⟩
  | addRelationTo other type => exact ⟨relationsTable, rfl, fills_relation other id type⟩
  | lookupRelationFrom other type => exact fun s => matching_lookupRelation id other
  | lookupRelationTo other type => exact fun s => matching_lookupRelation other id
  | getObjectRelations direction =>
    by_cases hd : direction = cplDAncestors
    · simp only [IdCall.Serves, IdCall.statement, IdCall.found, if_pos hd]
      exact fun s => matching_ancestors
    · simp only [IdCall.Serves, IdCall.statement, IdCall.found, if_neg hd]
      exact fun s => matching_descendants
  | addObjectStringProperty p k v =>
    exact ⟨propertiesTable "cpl_objects", rfl, fills_property ⟨id, p, k, v, stringProperty⟩⟩
  | getObjectStringProperties p k =>
    have hm : ∀ s, (objectPropertiesQuery id p k stringProperty).1.matching (database s)
        (objectPropertiesQuery id p k stringProperty).2 = _ := fun s => matching_objectProperties
    cases p with
    | none => exact hm
    | some p =>
      cases k with
      | none => exact hm
      | some k => exact hm

end Driver

/-- Each of the calls works on the id that it is given exactly when the ids of the call are below
2 ^ 31. -/
theorem usable_iff (drv : Driver) {c : IdCall} (hc : c.Plain) {id : ℕ} (_hpos : 1 ≤ id)
    (hid : id < 2 ^ 63) : Usable drv c id ↔ id < 2 ^ 31 ∧ c.OtherFits := by
  rw [← sent_iff hc hid]
  constructor
  · intro h
    exact h.1
  · intro h
    exact ⟨h, serves_intended c id⟩

/-- The first id out of range is rejected or becomes another one. -/
theorem large_id_not_passed :
    rejecting.send (IdCall.getObjectInfo.parameters 2147483648) = none ∧
    truncating.send (IdCall.getObjectInfo.parameters 2147483648) =
      some [.integer (-2147483648)] ∧
    ¬ Usable rejecting .getObjectInfo 2147483648 ∧
    ¬ Usable truncating .getObjectInfo 2147483648 := by
  have hreject : rejecting.send (IdCall.getObjectInfo.parameters 2147483648) = none := by decide
  have htruncate : truncating.send (IdCall.getObjectInfo.parameters 2147483648) =
      some [.integer (-2147483648)] := by decide
  refine ⟨hreject, htruncate, fun h => ?_, fun h => ?_⟩
  · rw [Usable, hreject] at h
    cases h.1
  · rw [Usable, htruncate] at h
    exact absurd h.1 (by decide)

theorem small_id_usable : Usable truncating (.lookupRelationTo 7 used) 2147483647 := by
  have hplain : (IdCall.lookupRelationTo 7 used).Plain := ⟨by decide, by decide⟩
  have hother : (IdCall.lookupRelationTo 7 used).OtherFits := by
    show 7 < 2 ^ 31
    decide
  exact (usable_iff truncating hplain (by decide) (by decide)).mpr ⟨by decide, hother⟩

end IdParameters
