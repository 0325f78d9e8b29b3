import ProvCpl.CplTypes
import ProvCpl.InsertOnce
import ProvCpl.QualifiedName
import Mathlib.Data.List.MinMax
import Mathlib.Data.List.Dedup
import Mathlib.Data.List.Perm.Basic

/-! # The schema and the statements

Rows, sequences, rewrite rules and foreign keys are those of the setup script; columns
that the reserved rows leave NULL are optional. Statements are the prepared ones. -/
namespace ProvStore

open CplTypes QualifiedName InsertOnce

structure ObjectRow where
  id : ℕ
  nsPrefix : Option String
  name : Option String
  type : Option ℤ
  creationTime : ℕ
  deriving DecidableEq, Repr

structure RelationRow where
  id : ℕ
  fromId : Option ℕ
  toId : Option ℕ
  type : Option ℤ
  deriving DecidableEq, Repr

structure PropertyRow where
  id : ℕ
  nsPrefix : String
  name : String
  value : String
  type : ℤ
  deriving DecidableEq, Repr

structure PrefixRow where
  id : ℕ
  nsPrefix : String
  iri : String
  deriving DecidableEq, Repr

structure Store where
  objects : List ObjectRow
  relations : List RelationRow
  objectProperties : List PropertyRow
  relationProperties : List PropertyRow
  prefixes : List PrefixRow
  nextObject : ℕ
  nextRelation : ℕ
  deriving DecidableEq, Repr

/-- The store after the setup script: the reserved rows, sequences at 1. -/
def Store.fresh : Store where
  objects := [⟨0, none, none, none, 0⟩]
  relations := [⟨0, none, none, none⟩]
  objectProperties := []
  relationProperties := []
  prefixes := []
  nextObject := 1
  nextRelation := 1

/-- `create_object_stmts`; the returned id is `nextObject`. -/
def Store.insertObject (s : Store) (nsPrefix name : String) (type : ℤ) (now : ℕ) : Store :=
  { s with
    objects := s.objects ++ [⟨s.nextObject, some nsPrefix, some name, some type, now⟩]
    nextObject := s.nextObject + 1 }

/-- `add_relation_stmts`; the returned id is `nextRelation`. -/
def Store.insertRelation (s : Store) (fromId toId : ℕ) (type : ℤ) : Store :=
  { s with
    relations := s.relations ++ [⟨s.nextRelation, some fromId, some toId, some type⟩]
    nextRelation := s.nextRelation + 1 }

def SameKey (q r : PropertyRow) : Prop :=
  q.id = r.id ∧ q.nsPrefix = r.nsPrefix ∧ q.name = r.name ∧ q.type = r.type

instance (q r : PropertyRow) : Decidable (SameKey q r) :=
  inferInstanceAs (Decidable (_ ∧ _ ∧ _ ∧ _))

def SamePrefix (q r : PrefixRow) : Prop := q.id = r.id ∧ q.nsPrefix = r.nsPrefix

instance (q r : PrefixRow) : Decidable (SamePrefix q r) := inferInstanceAs (Decidable (_ ∧ _))

/-- `add_object_property_stmts`, under the ignore-duplicates rule of the table; none when the
foreign key is violated. -/
def Store.insertObjectProperty (s : Store) (r : PropertyRow) : Option Store :=
  if r.id ∈ s.objects.map (·.id) then
    some { s with objectProperties := insertOnce SameKey s.objectProperties r }
  else none

def Store.insertRelationProperty (s : Store) (r : PropertyRow) : Option Store :=
  if r.id ∈ s.relations.map (·.id) then
    some { s with relationProperties := insertOnce SameKey s.relationProperties r }
  else none

def Store.insertPrefix (s : Store) (r : PrefixRow) : Option Store :=
  if r.id ∈ s.objects.map (·.id) then
    some { s with prefixes := insertOnce SamePrefix s.prefixes r }
  else none

/-- The rows of `lookup_object_nt_stmts` (type 0) and `lookup_object_t_stmts`. -/
def Store.objectsNamed (s : Store) (nsPrefix name : String) (type : ℤ) : List ObjectRow :=
  s.objects.filter fun r =>
    r.nsPrefix = some nsPrefix ∧ r.name = some name ∧ (type ≠ 0 → r.type = some type)

/-- `ORDER BY creation_time DESC LIMIT 1`; rows of equal time come in the order given. -/
def latest (rows : List ObjectRow) : Option ObjectRow := rows.argmax (·.creationTime)

/-- `get_all_objects_nt_stmts` (type 0) and `get_all_objects_t_stmts`; NULL equals no prefix. -/
def Store.objectsWithPrefix (s : Store) (nsPrefix : Option String) (type : ℤ) :
    List ObjectRow :=
  s.objects.filter fun r =>
    r.id > 0 ∧ nsPrefix.isSome ∧ r.nsPrefix = nsPrefix ∧ (type ≠ 0 → r.type = some type)

/-- `get_object_ancestors_stmts` and `get_object_descendants_stmts`. -/
def Store.relationsFrom (s : Store) (id : ℕ) : List RelationRow :=
  s.relations.filter fun r => r.fromId = some id

def Store.relationsTo (s : Store) (id : ℕ) : List RelationRow :=
  s.relations.filter fun r => r.toId = some id

/-- `has_immediate_ancestor_stmts`. -/
def Store.relationsBetween (s : Store) (fromId toId : ℕ) : List RelationRow :=
  s.relations.filter fun r => r.fromId = some fromId ∧ r.toId = some toId

/-- The rows of type 20 that put a relation into the bundle. -/
def Store.memberships (s : Store) (bundle : ℕ) : List RelationRow :=
  s.relations.filter fun r => r.fromId = some bundle ∧ r.type = some bundleRelation

/-- `get_bundle_relations_stmts`: one row for each pair of the join. -/
def Store.bundleRelations (s : Store) (bundle : ℕ) : List RelationRow :=
  (s.memberships bundle).flatMap fun m => s.relations.filter fun r => m.toId = some r.id

/-- `get_bundle_objects_stmts`, with its `DISTINCT`. -/
def Store.bundleObjects (s : Store) (bundle : ℕ) : List ObjectRow :=
  ((s.bundleRelations bundle).flatMap fun r =>
    s.objects.filter fun c => r.fromId = some c.id ∨ r.toId = some c.id).dedup

/-- `get_*_properties_stmts` when a filter is missing, `*_with_key_stmts` otherwise. -/
def propertiesOf (rows : List PropertyRow) (id : ℕ) (nsPrefix key : Option String) (type : ℤ) :
    List PropertyRow :=
  match nsPrefix, key with
  | some p, some k =>
    rows.filter fun r => r.id = id ∧ r.nsPrefix = p ∧ r.name = k ∧ r.type = type
  | _, _ => rows.filter fun r => r.id = id ∧ r.type = type

/-- What the sequences, keys and references guarantee of every store. -/
structure Store.Valid (s : Store) : Prop where
  object_ids : (s.objects.map (·.id)).Nodup
  object_bound : ∀ r ∈ s.objects, r.id < s.nextObject
  relation_ids : (s.relations.map (·.id)).Nodup
  relation_bound : ∀ r ∈ s.relations, r.id < s.nextRelation
  next_object : 0 < s.nextObject
  next_relation : 0 < s.nextRelation
  objectProperty_owner : ∀ r ∈ s.objectProperties, r.id ∈ s.objects.map (·.id)
  relationProperty_owner : ∀ r ∈ s.relationProperties, r.id ∈ s.relations.map (·.id)
  prefix_owner : ∀ r ∈ s.prefixes, r.id ∈ s.objects.map (·.id)

/-- Stores that API calls can produce, by any number of clients. -/
inductive Store.Reachable : Store → Prop where
  | fresh : Store.Reachable Store.fresh
  | createObject {s} (p n : String) (t : ℤ) (now : ℕ) : EnsureOType t → Store.Reachable s →
      Store.Reachable (s.insertObject p n t now)
  | addRelation {s} (f o : ℕ) (t : ℤ) : f ≠ 0 → o ≠ 0 → EnsureRType t → Store.Reachable s →
      Store.Reachable (s.insertRelation f o t)
  | addObjectProperty {s s'} (r : PropertyRow) : r.id ≠ 0 → Store.Reachable s →
      s.insertObjectProperty r = some s' → Store.Reachable s'
  | addRelationProperty {s s'} (r : PropertyRow) : r.id ≠ 0 → Store.Reachable s →
      s.insertRelationProperty r = some s' → Store.Reachable s'
  | addPrefix {s s'} (r : PrefixRow) : r.id ≠ 0 → Store.Reachable s →
      s.insertPrefix r = some s' → Store.Reachable s'

/-- One entity, the smallest store with something in it. -/
def Store.oneEntity (name : String) (now : ℕ) : Store :=
  Store.fresh.insertObject "" name cplEntity now

theorem Store.oneEntity_reachable (name : String) (now : ℕ) :
    (Store.oneEntity name now).Reachable :=
  .createObject "" name cplEntity now (by decide) .fresh

/-- No stored relation mentions an id that its sequence has not handed out. -/
def Store.NoDangling (s : Store) : Prop :=
  ∀ r ∈ s.relations, (∀ i, r.fromId = some i → i < s.nextObject) ∧
    ∀ i, r.toId = some i →
      i < if r.type = some bundleRelation then s.nextRelation else s.nextObject

theorem insertObjectProperty_eq {s s' : Store} {r : PropertyRow}
    (h : s.insertObjectProperty r = some s') : r.id ∈ s.objects.map (·.id) ∧
      s' = { s with objectProperties := insertOnce SameKey s.objectProperties r } := by
  unfold Store.insertObjectProperty at h
  split at h
  · exact ⟨‹_›, (Option.some.inj h).symm⟩
  · cases h

theorem insertRelationProperty_eq {s s' : Store} {r : PropertyRow}
    (h : s.insertRelationProperty r = some s') : r.id ∈ s.relations.map (·.id) ∧
      s' = { s with relationProperties := insertOnce SameKey s.relationProperties r } := by
  unfold Store.insertRelationProperty at h
  split at h
  · exact ⟨‹_›, (Option.some.inj h).symm⟩
  · cases h

theorem insertPrefix_eq {s s' : Store} {r : PrefixRow}
    (h : s.insertPrefix r = some s') : r.id ∈ s.objects.map (·.id) ∧
      s' = { s with prefixes := insertOnce SamePrefix s.prefixes r } := by
  unfold Store.insertPrefix at h
  split at h
  · exact ⟨‹_›, (Option.some.inj h).symm⟩
  · cases h

theorem nodup_concat_of_bound {l : List ℕ} {n : ℕ} (h : l.Nodup) (hb : ∀ i ∈ l, i < n) :
    (l ++ [n]).Nodup := by
  refine List.nodup_append.mpr ⟨h, List.nodup_singleton n, ?_⟩
  intro i hi j hj
  have := hb i hi
  rw [List.mem_singleton.mp hj]
  omega

theorem filter_key_eq {α : Type} {key : α → ℕ} {l : List α} (hn : (l.map key).Nodup) {a : α}
    (ha : a ∈ l) : l.filter (fun b => key b = key a) = [a] := by
  induction l with
  | nil => cases ha
  | cons b l ih =>
    rw [List.map_cons, List.nodup_cons] at hn
    rcases List.mem_cons.mp ha with rfl | ha
    · have hrest : l.filter (fun b => key b = key a) = [] := by
        rw [List.filter_eq_nil_iff]
        intro b hb he
        exact hn.1 (of_decide_eq_true he ▸ List.mem_map_of_mem hb)
      rw [List.filter_cons_of_pos (by simp), hrest]
    · have hne : key b ≠ key a := fun he => hn.1 (he ▸ List.mem_map_of_mem ha)
      rw [List.filter_cons_of_neg (by simpa using hne)]
      exact ih hn.2 ha

theorem Store.Valid.insertObject {s : Store} (h : s.Valid) (p n : String) (t : ℤ) (now : ℕ) :
    (s.insertObject p n t now).Valid where
  object_ids := by
    simpa [Store.insertObject] using
      nodup_concat_of_bound h.object_ids (by simpa using h.object_bound)
  object_bound := by
    intro r hr
    simp only [Store.insertObject, List.mem_append, List.mem_singleton] at hr ⊢
    rcases hr with hr | rfl
    · have := h.object_bound r hr; omega
    · simp
  relation_ids := h.relation_ids
  relation_bound := h.relation_bound
  next_object := by simp [Store.insertObject]
  next_relation := h.next_relation
  objectProperty_owner := fun r hr => by
    simpa [Store.insertObject] using Or.inl (h.objectProperty_owner r hr)
  relationProperty_owner := h.relationProperty_owner
  prefix_owner := fun r hr => by
    simpa [Store.insertObject] using Or.inl (h.prefix_owner r hr)

theorem Store.Valid.insertRelation {s : Store} (h : s.Valid) (f o : ℕ) (t : ℤ) :
    (s.insertRelation f o t).Valid where
  object_ids := h.object_ids
  object_bound := h.object_bound
  relation_ids := by
    simpa [Store.insertRelation] using
      nodup_concat_of_bound h.relation_ids (by simpa using h.relation_bound)
  relation_bound := by
    intro r hr
    simp only [Store.insertRelation, List.mem_append, List.mem_singleton] at hr ⊢
    rcases hr with hr | rfl
    · have := h.relation_bound r hr; omega
    · simp
  next_object := h.next_object
  next_relation := by simp [Store.insertRelation]
  objectProperty_owner := h.objectProperty_owner
  relationProperty_owner := fun r hr => by
    simpa [Store.insertRelation] using Or.inl (h.relationProperty_owner r hr)
  prefix_owner := h.prefix_owner

theorem Store.valid_fresh : Store.fresh.Valid := by
  constructor <;> simp [Store.fresh]

theorem Store.noDangling_fresh : Store.fresh.NoDangling := by
  simp [Store.NoDangling, Store.fresh]

theorem Store.Reachable.valid {s : Store} (h : s.Reachable) : s.Valid := by
  induction h with
  | fresh => exact Store.valid_fresh
  | createObject p n t now _ _ ih => exact ih.insertObject p n t now
  | addRelation f o t _ _ _ _ ih => exact ih.insertRelation f o t
  | addObjectProperty r _ _ he ih =>
    obtain ⟨hm, rfl⟩ := insertObjectProperty_eq he
    refine { ih with objectProperty_owner := ?_ }
    intro q hq
    rcases mem_insertOnce hq with hq | rfl
    · exact ih.objectProperty_owner q hq
    · exact hm
  | addRelationProperty r _ _ he ih =>
    obtain ⟨hm, rfl⟩ := insertRelationProperty_eq he
    refine { ih with relationProperty_owner := ?_ }
    intro q hq
    rcases mem_insertOnce hq with hq | rfl
    · exact ih.relationProperty_owner q hq
    · exact hm
  | addPrefix r _ _ he ih =>
    obtain ⟨hm, rfl⟩ := insertPrefix_eq he
    refine { ih with prefix_owner := ?_ }
    intro q hq
    rcases mem_insertOnce hq with hq | rfl
    · exact ih.prefix_owner q hq
    · exact hm

/-- Only the reserved rows have NULL columns, and no relation ends in a reserved row. -/
structure Store.Columns (s : Store) : Prop where
  objects : ∀ r ∈ s.objects, r.id ≠ 0 → ∃ p n t, EnsureOType t ∧
    r.nsPrefix = some p ∧ r.name = some n ∧ r.type = some t
  relations : ∀ r ∈ s.relations, r.id ≠ 0 → ∃ f o t, f ≠ 0 ∧ o ≠ 0 ∧ EnsureRType t ∧
    r.fromId = some f ∧ r.toId = some o ∧ r.type = some t
  reserved : ∀ r ∈ s.relations, r.id = 0 → r.fromId = none ∧ r.toId = none

theorem Store.Columns.ends {s : Store} (h : s.Columns) {r : RelationRow}
    (hr : r ∈ s.relations) : r.fromId ≠ some 0 ∧ r.toId ≠ some 0 := by
  by_cases hid : r.id = 0
  · obtain ⟨hf, ho⟩ := h.reserved r hr hid
    simp [hf, ho]
  · obtain ⟨f, o, t, hf, ho, -, hf', ho', -⟩ := h.relations r hr hid
    simp [hf', ho', hf, ho]

theorem Store.columns_fresh : Store.fresh.Columns := by
  constructor <;> simp [Store.fresh]

theorem Store.Reachable.columns {s : Store} (h : s.Reachable) : s.Columns := by
  induction h with
  | fresh => exact Store.columns_fresh
  | createObject p n t now ht hs ih =>
    refine { ih with objects := fun r hr hid => ?_ }
    rcases List.mem_append.mp hr with hr | hr
    · exact ih.objects r hr hid
    · rw [List.mem_singleton.mp hr]
      exact ⟨p, n, t, ht, rfl, rfl, rfl⟩
  | addRelation f o t hf ho ht hs ih =>
    refine { ih with relations := fun r hr hid => ?_, reserved := fun r hr hid => ?_ }
    · rcases List.mem_append.mp hr with hr | hr
      · exact ih.relations r hr hid
      · rw [List.mem_singleton.mp hr]
        exact ⟨f, o, t, hf, ho, ht, rfl, rfl, rfl⟩
    · rcases List.mem_append.mp hr with hr | hr
      · exact ih.reserved r hr hid
      · rw [List.mem_singleton.mp hr] at hid
        exact absurd hid (Nat.pos_iff_ne_zero.mp hs.valid.next_relation)
  | addObjectProperty r _ _ he ih =>
    obtain ⟨-, rfl⟩ := insertObjectProperty_eq he
    exact { ih with }
  | addRelationProperty r _ _ he ih =>
    obtain ⟨-, rfl⟩ := insertRelationProperty_eq he
    exact { ih with }
  | addPrefix r _ _ he ih =>
    obtain ⟨-, rfl⟩ := insertPrefix_eq he
    exact { ih with }

theorem Store.Reachable.named_ne_zero {s : Store} (h : s.Reachable) :
    ∀ r ∈ s.objects, r.name.isSome → r.id ≠ 0 := by
  induction h with
  | fresh => simp [Store.fresh]
  | createObject p n t now _ hs ih =>
    intro r hr hname
    rcases List.mem_append.mp hr with hr | hr
    · exact ih r hr hname
    · rw [List.mem_singleton.mp hr]
      exact Nat.pos_iff_ne_zero.mp hs.valid.next_object
  | addRelation _ _ _ _ _ _ _ ih => exact ih
  | addObjectProperty r _ _ he ih =>
    obtain ⟨-, rfl⟩ := insertObjectProperty_eq he
    exact ih
  | addRelationProperty r _ _ he ih =>
    obtain ⟨-, rfl⟩ := insertRelationProperty_eq he
    exact ih
  | addPrefix r _ _ he ih =>
    obtain ⟨-, rfl⟩ := insertPrefix_eq he
    exact ih

end ProvStore
