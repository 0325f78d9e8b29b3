import ProvCpl.BackendQueries
import ProvCpl.SqlInserts
import ProvCpl.StoreKnowledge

/-! # The insertions of the backend

The tables, sequences, rules and keys of the setup script, and the prepared INSERT statements run
on them. Step by step they do to the tables what the effects do to the store and return what the
operations report, so the tables are those of the store after every run. -/
namespace BackendInserts

open CplTypes ProvStore SqlSelect SqlInserts PreparedQueries EventTrace StoreHistory ApiEffects
open ConcurrentInserts StoreKnowledge BackendQueries ProvServer

def serial (name : String) : ColumnDef := ⟨name, .sequence, none, true⟩

def number (name : String) : ColumnDef := ⟨name, .null, none, false⟩

def varchar (name : String) (width : ℕ) : ColumnDef := ⟨name, .null, some width, false⟩

def ColumnDef.required (c : ColumnDef) : ColumnDef := { c with notNull := true }

def objectsTable : TableDef where
  columns := [serial "id", varchar "prefix" 255, varchar "name" 255, number "type",
    ⟨"creation_time", .clock, none, false⟩]
  primaryKey := some "id"
  foreignKeys := []
  passedOver := none

def relationsTable : TableDef where
  columns := [serial "id", number "from_id", number "to_id", number "type"]
  primaryKey := some "id"
  foreignKeys := []
  passedOver := none

def prefixesTable : TableDef where
  columns := [number "id", ColumnDef.required (varchar "prefix" 255),
    ColumnDef.required (varchar "iri" 4095)]
  primaryKey := none
  foreignKeys := [⟨"id", "cpl_objects", "id"⟩]
  passedOver := some ["id", "prefix"]

def propertiesTable (owners : String) : TableDef where
  columns := [number "id", ColumnDef.required (varchar "prefix" 255),
    ColumnDef.required (varchar "name" 255), ColumnDef.required (varchar "value" 4095),
    ColumnDef.required (number "type")]
  primaryKey := none
  foreignKeys := [⟨"id", owners, "id"⟩]
  passedOver := some ["id", "prefix", "name", "type"]

def schema : Schema := fun name =>
  if name = "cpl_objects" then some objectsTable
  else if name = "cpl_relations" then some relationsTable
  else if name = "cpl_prefixes" then some prefixesTable
  else if name = "cpl_relation_properties" then some (propertiesTable "cpl_relations")
  else if name = "cpl_object_properties" then some (propertiesTable "cpl_objects")
  else none

def created : SqlInserts.State := ⟨fun _ => [], fun _ => 1⟩

def reservedObject : Insert :=
  ⟨"cpl_objects", ["id", "prefix", "name", "type"],
    [.literal (.integer 0), .literal .null, .literal .null, .literal .null], none⟩

def reservedRelation : Insert :=
  ⟨"cpl_relations", ["id", "from_id", "to_id", "type"],
    [.literal (.integer 0), .literal .null, .literal .null, .literal .null], none⟩

/-- The script runs at time 0. -/
def setup : SqlInserts.State :=
  (reservedRelation.run schema 0 [] (reservedObject.run schema 0 [] created).1).1

def createObjectStmts : Insert :=
  ⟨"cpl_objects", ["id", "prefix", "name", "type"],
    [.default, .param 0, .param 1, .param 2], some "id"⟩

def addRelationStmts : Insert :=
  ⟨"cpl_relations", ["id", "from_id", "to_id", "type"],
    [.default, .param 0, .param 1, .param 2], some "id"⟩

def addObjectPropertyStmts : Insert :=
  ⟨"cpl_object_properties", ["id", "prefix", "name", "value", "type"],
    [.param 0, .param 1, .param 2, .param 3, .param 4], none⟩

def addRelationPropertyStmts : Insert :=
  ⟨"cpl_relation_properties", ["id", "prefix", "name", "value", "type"],
    [.param 0, .param 1, .param 2, .param 3, .param 4], none⟩

def addPrefixStmts : Insert :=
  ⟨"cpl_prefixes", ["id", "prefix", "iri"], [.param 0, .param 1, .param 2], none⟩

def propertyParams (r : PropertyRow) : List Value :=
  [.integer r.id, .text r.nsPrefix, .text r.name, .text r.value, .integer r.type]

def statement : Effect → Insert × List Value
  | .createObject p n t _ => (createObjectStmts, [.text p, .text n, .integer t])
  | .addRelation f o t => (addRelationStmts, [.integer f, .integer o, .integer t])
  | .addObjectProperty r => (addObjectPropertyStmts, propertyParams r)
  | .addRelationProperty r => (addRelationPropertyStmts, propertyParams r)
  | .addPrefix r => (addPrefixStmts, [.integer r.id, .text r.nsPrefix, .text r.iri])

def time : Effect → ℕ
  | .createObject _ _ _ now => now
  | _ => 0

def execute (st : SqlInserts.State) (e : Effect) : SqlInserts.State × Option (List Value) :=
  (statement e).1.run schema (time e) (statement e).2 st

/-- What the statement returns; `none` for one that is refused. -/
def returned (s : Store) : Effect → Option (List Value)
  | .createObject .. => some [.integer s.nextObject]
  | .addRelation .. => some [.integer s.nextRelation]
  | .addObjectProperty r => if r.id ∈ s.objects.map (·.id) then some [] else none
  | .addRelationProperty r => if r.id ∈ s.relations.map (·.id) then some [] else none
  | .addPrefix r => if r.id ∈ s.objects.map (·.id) then some [] else none

def WithinColumns : Effect → Prop
  | .createObject p n _ _ => p.length ≤ cplPrefixLen ∧ n.length ≤ cplNameLen
  | .addRelation .. => True
  | .addObjectProperty r | .addRelationProperty r =>
    r.nsPrefix.length ≤ cplPrefixLen ∧ r.name.length ≤ cplKeyLen ∧ r.value.length ≤ cplValueLen
  | .addPrefix r => r.nsPrefix.length ≤ cplPrefixLen ∧ r.iri.length ≤ cplValueLen

instance : (e : Effect) → Decidable (WithinColumns e)
  | .createObject _ _ _ _ => inferInstanceAs (Decidable (_ ∧ _))
  | .addRelation _ _ _ => inferInstanceAs (Decidable True)
  | .addObjectProperty _ | .addRelationProperty _ => inferInstanceAs (Decidable (_ ∧ _ ∧ _))
  | .addPrefix _ => inferInstanceAs (Decidable (_ ∧ _))

def encode (s : Store) : SqlInserts.State where
  rows := fun t =>
    if t = "cpl_objects" then s.objects.map objectCells
    else if t = "cpl_relations" then s.relations.map relationCells
    else if t = "cpl_prefixes" then s.prefixes.map prefixCells
    else if t = "cpl_relation_properties" then s.relationProperties.map propertyCells
    else if t = "cpl_object_properties" then s.objectProperties.map propertyCells
    else []
  next := fun t =>
    if t = "cpl_objects" then s.nextObject
    else if t = "cpl_relations" then s.nextRelation
    else 1

theorem database_encode (s : Store) : (encode s).database schema = database s := by
  funext name
  by_cases ho : name = "cpl_objects"
  · subst ho; rfl
  by_cases hr : name = "cpl_relations"
  · subst hr; rfl
  by_cases hp : name = "cpl_prefixes"
  · subst hp; rfl
  by_cases hrp : name = "cpl_relation_properties"
  · subst hrp; rfl
  by_cases hop : name = "cpl_object_properties"
  · subst hop; rfl
  simp [State.database, schema, database, ho, hr, hp, hrp, hop]

theorem state_ext {st st' : SqlInserts.State} (hr : ∀ t, st.rows t = st'.rows t)
    (hn : ∀ t, st.next t = st'.next t) : st = st' := by
  cases st
  cases st'
  congr 1
  · exact funext hr
  · exact funext hn

section Rows

variable {s : Store} {now next : ℕ}

theorem encode_object (s : Store) (r : ObjectRow) :
    (encode s).append "cpl_objects" (objectCells r) =
      encode { s with objects := s.objects ++ [r] } := by
  apply state_ext
  · intro t
    by_cases ht : t = "cpl_objects"
    · simp [SqlInserts.State.append, encode, ht]
    · simp [SqlInserts.State.append, encode, ht]
  · exact fun t => rfl

theorem encode_relation (s : Store) (r : RelationRow) :
    (encode s).append "cpl_relations" (relationCells r) =
      encode { s with relations := s.relations ++ [r] } := by
  apply state_ext
  · intro t
    by_cases ht : t = "cpl_relations"
    · simp [SqlInserts.State.append, encode, ht]
    · simp [SqlInserts.State.append, encode, ht]
  · exact fun t => rfl

theorem draw_object (s : Store) : (encode s).draw "cpl_objects" =
    encode { s with nextObject := s.nextObject + 1 } := by
  apply state_ext
  · exact fun t => rfl
  · intro t
    by_cases ht : t = "cpl_objects"
    · simp [SqlInserts.State.draw, encode, ht]
    · simp [SqlInserts.State.draw, encode, ht]

theorem draw_relation (s : Store) : (encode s).draw "cpl_relations" =
    encode { s with nextRelation := s.nextRelation + 1 } := by
  apply state_ext
  · exact fun t => rfl
  · intro t
    by_cases ht : t = "cpl_relations"
    · simp [SqlInserts.State.draw, encode, ht]
    · simp [SqlInserts.State.draw, encode, ht]

theorem row_object {p n : String} (t : ℤ) (h : WithinColumns (.createObject p n t now)) :
    createObjectStmts.row [.text p, .text n, .integer t] next now objectsTable.columns =
      some (objectCells ⟨next, some p, some n, some t, now⟩) := by
  have hp : fitText 255 p = some p := fitText_of_le h.1
  have hn : fitText 255 n = some n := fitText_of_le h.2
  simp [Insert.row, Insert.value, Insert.source, createObjectStmts, objectsTable, serial, varchar,
    number, ColumnDef.keep, ColumnDef.fallback, hp, hn]
  rfl

theorem row_relation (f o : ℕ) (t : ℤ) :
    addRelationStmts.row [.integer f, .integer o, .integer t] next now relationsTable.columns =
      some (relationCells ⟨next, some f, some o, some t⟩) := by
  simp [Insert.row, Insert.value, Insert.source, addRelationStmts, relationsTable, serial, number,
    ColumnDef.keep, ColumnDef.fallback]
  rfl

/-- No row has the number that the sequence gives out next. -/
theorem accepts_object (h : s.Valid) (r : ObjectRow) (hr : r.id = s.nextObject) :
    objectsTable.Accepts (encode s) ((encode s).rows "cpl_objects") (objectCells r) := by
  refine ⟨?_, by simp [objectsTable]⟩
  intro c hc
  obtain rfl : "id" = c := by simpa [objectsTable] using hc
  refine ⟨by simp [objectCells], fun q hq => ?_⟩
  obtain ⟨r', hr', rfl⟩ := List.mem_map.mp hq
  have hlt := h.object_bound r' hr'
  simp [objectCells]
  omega

theorem accepts_relation (h : s.Valid) (r : RelationRow) (hr : r.id = s.nextRelation) :
    relationsTable.Accepts (encode s) ((encode s).rows "cpl_relations") (relationCells r) := by
  refine ⟨?_, by simp [relationsTable]⟩
  intro c hc
  obtain rfl : "id" = c := by simpa [relationsTable] using hc
  refine ⟨by simp [relationCells], fun q hq => ?_⟩
  obtain ⟨r', hr', rfl⟩ := List.mem_map.mp hq
  have hlt := h.relation_bound r' hr'
  simp [relationCells]
  omega

theorem execute_createObject (h : s.Valid) {p n : String} {t : ℤ}
    (hw : WithinColumns (.createObject p n t now)) :
    execute (encode s) (.createObject p n t now) =
      (encode (s.insertObject p n t now), some [.integer s.nextObject]) := by
  have hd : drawnBy createObjectStmts objectsTable (encode s) =
      encode { s with nextObject := s.nextObject + 1 } := draw_object s
  refine (run_accepted rfl (row_object t hw) ?_ (accepts_object h _ rfl)).trans ?_
  · rintro ⟨columns, hc, -⟩
    cases hc
  · rw [hd]
    exact congrArg (·, _) (encode_object _ _)

theorem execute_addRelation (h : s.Valid) (f o : ℕ) (t : ℤ) :
    execute (encode s) (.addRelation f o t) =
      (encode (s.insertRelation f o t), some [.integer s.nextRelation]) := by
  have hd : drawnBy addRelationStmts relationsTable (encode s) =
      encode { s with nextRelation := s.nextRelation + 1 } := draw_relation s
  refine (run_accepted rfl (row_relation f o t) ?_ (accepts_relation h _ rfl)).trans ?_
  · rintro ⟨columns, hc, -⟩
    cases hc
  · rw [hd]
    exact congrArg (·, _) (encode_relation _ _)

end Rows

section Rules

variable {s : Store} {i : Insertion}

def insertionTable : Insertion → String
  | .objectProperty _ => "cpl_object_properties"
  | .relationProperty _ => "cpl_relation_properties"
  | .bundlePrefix _ => "cpl_prefixes"

def insertionDef : Insertion → TableDef
  | .objectProperty _ => propertiesTable "cpl_objects"
  | .relationProperty _ => propertiesTable "cpl_relations"
  | .bundlePrefix _ => prefixesTable

def insertionCells : Insertion → Row
  | .objectProperty r | .relationProperty r => propertyCells r
  | .bundlePrefix r => prefixCells r

theorem encode_append (s : Store) (i : Insertion) :
    (encode s).append (insertionTable i) (insertionCells i) = encode (i.append s) := by
  apply state_ext
  · intro t
    by_cases ht : t = insertionTable i
    · cases i <;> simp [SqlInserts.State.append, encode, ht, insertionTable, insertionCells,
        Insertion.append]
    · cases i <;> simp_all [SqlInserts.State.append, encode, insertionTable, Insertion.append]
  · intro t
    cases i <;> rfl

theorem row_properties {ins : Insert} {r : PropertyRow} (owners : String) (next now : ℕ)
    (hc : ins.columns = ["id", "prefix", "name", "value", "type"])
    (hv : ins.values = [.param 0, .param 1, .param 2, .param 3, .param 4])
    (hw : WithinColumns (.addObjectProperty r)) :
    ins.row (propertyParams r) next now (propertiesTable owners).columns =
      some (propertyCells r) := by
  have hp : fitText 255 r.nsPrefix = some r.nsPrefix := fitText_of_le hw.1
  have hk : fitText 255 r.name = some r.name := fitText_of_le hw.2.1
  have hval : fitText 4095 r.value = some r.value := fitText_of_le hw.2.2
  simp [Insert.row, Insert.value, Insert.source, hc, hv, propertiesTable, ColumnDef.required,
    varchar, number, ColumnDef.keep, propertyParams, hp, hk, hval]
  rfl

theorem row_prefix {r : PrefixRow} (next now : ℕ) (hw : WithinColumns (.addPrefix r)) :
    addPrefixStmts.row [.integer r.id, .text r.nsPrefix, .text r.iri] next now
      prefixesTable.columns = some (prefixCells r) := by
  have hp : fitText 255 r.nsPrefix = some r.nsPrefix := fitText_of_le hw.1
  have hi : fitText 4095 r.iri = some r.iri := fitText_of_le hw.2
  simp [Insert.row, Insert.value, Insert.source, addPrefixStmts, prefixesTable,
    ColumnDef.required, varchar, number, ColumnDef.keep, hp, hi]
  rfl

theorem row_insertion (next : ℕ) (hw : WithinColumns (insertionEffect i)) :
    (statement (insertionEffect i)).1.row (statement (insertionEffect i)).2 next
        (time (insertionEffect i)) (insertionDef i).columns = some (insertionCells i) := by
  cases i with
  | objectProperty r => exact row_properties "cpl_objects" next 0 rfl rfl hw
  | relationProperty r => exact row_properties "cpl_relations" next 0 rfl rfl hw
  | bundlePrefix r => exact row_prefix next 0 hw

theorem sameIn_properties {q r : PropertyRow} :
    SameIn ["id", "prefix", "name", "type"] (propertyCells r) (propertyCells q) ↔
      SameKey q r := by
  simp [SameIn, propertyCells, SameKey]

theorem sameIn_prefixes {q r : PrefixRow} :
    SameIn ["id", "prefix"] (prefixCells r) (prefixCells q) ↔ SamePrefix q r := by
  simp [SameIn, prefixCells, SamePrefix]

/-- The rule of the table is the condition under which the store keeps its rows. -/
theorem passesOver_iff : (insertionDef i).PassesOver ((encode s).rows (insertionTable i))
    (insertionCells i) ↔ i.Duplicate s := by
  cases i with
  | objectProperty r =>
    simp [TableDef.PassesOver, insertionDef, propertiesTable, insertionTable, insertionCells,
      encode, sameIn_properties, Insertion.Duplicate, InsertOnce.Present]
  | relationProperty r =>
    simp [TableDef.PassesOver, insertionDef, propertiesTable, insertionTable, insertionCells,
      encode, sameIn_properties, Insertion.Duplicate, InsertOnce.Present]
  | bundlePrefix r =>
    simp [TableDef.PassesOver, insertionDef, prefixesTable, insertionTable, insertionCells,
      encode, sameIn_prefixes, Insertion.Duplicate, InsertOnce.Present]

theorem accepts_iff (rows : List Row) :
    (insertionDef i).Accepts (encode s) rows (insertionCells i) ↔ i.HasOwner s := by
  cases i with
  | objectProperty r =>
    simp [TableDef.Accepts, insertionDef, propertiesTable, insertionCells, encode,
      propertyCells, objectCells, Insertion.HasOwner]
  | relationProperty r =>
    simp [TableDef.Accepts, insertionDef, propertiesTable, insertionCells, encode,
      propertyCells, relationCells, Insertion.HasOwner]
  | bundlePrefix r =>
    simp [TableDef.Accepts, insertionDef, prefixesTable, insertionCells, encode,
      prefixCells, objectCells, Insertion.HasOwner]

theorem hasOwner_of_duplicate (h : s.Valid) (hd : i.Duplicate s) : i.HasOwner s := by
  cases i with
  | objectProperty r =>
    obtain ⟨q, hq, hk⟩ := hd
    have ho := h.objectProperty_owner q hq
    rwa [hk.1] at ho
  | relationProperty r =>
    obtain ⟨q, hq, hk⟩ := hd
    have ho := h.relationProperty_owner q hq
    rwa [hk.1] at ho
  | bundlePrefix r =>
    obtain ⟨q, hq, hk⟩ := hd
    have ho := h.prefix_owner q hq
    rwa [hk.1] at ho

theorem returned_insertion (s : Store) (i : Insertion) :
    returned s (insertionEffect i) = if i.HasOwner s then some [] else none := by
  cases i <;> rfl

theorem execute_insertion (h : s.Valid) (hw : WithinColumns (insertionEffect i)) :
    execute (encode s) (insertionEffect i) =
      (encode (applyEffect s (insertionEffect i)), returned s (insertionEffect i)) := by
  have hs : schema (statement (insertionEffect i)).1.table = some (insertionDef i) := by
    cases i <;> rfl
  have ht : (statement (insertionEffect i)).1.table = insertionTable i := by
    cases i <;> rfl
  have hdrawn : drawnBy (statement (insertionEffect i)).1 (insertionDef i) (encode s) =
      encode s := by
    cases i <;> rfl
  have hreturning : (statement (insertionEffect i)).1.returning = none := by
    cases i <;> rfl
  rw [applyEffect_insertion, returned_insertion, execute]
  by_cases hd : i.Duplicate s
  · have ho := hasOwner_of_duplicate h hd
    rw [run_passedOver hs (row_insertion _ hw) (ht ▸ passesOver_iff.mpr hd), hdrawn,
      run_duplicate ho hd, if_pos ho]
    rfl
  · have hpass : ¬ (insertionDef i).PassesOver
        ((encode s).rows (statement (insertionEffect i)).1.table) (insertionCells i) := by
      rw [ht, passesOver_iff]
      exact hd
    by_cases ho : i.HasOwner s
    · rw [run_accepted hs (row_insertion _ hw) hpass ((accepts_iff _).mpr ho), hdrawn, ht,
        encode_append, hreturning, run_new ho hd, if_pos ho]
      rfl
    · rw [run_refused hs (row_insertion _ hw) hpass fun ha => ho ((accepts_iff _).mp ha),
        hdrawn, run_ownerless ho, if_neg ho]
      rfl

end Rules

theorem execute_encode {s : Store} (h : s.Valid) {e : Effect} (hw : WithinColumns e) :
    execute (encode s) e = (encode (applyEffect s e), returned s e) := by
  cases e with
  | createObject p n t now => exact execute_createObject h hw
  | addRelation f o t => exact execute_addRelation h f o t
  | addObjectProperty r =>
    have hi : (insertionEffect (.objectProperty r)) = .addObjectProperty r := rfl
    exact hi ▸ execute_insertion h hw
  | addRelationProperty r =>
    have hi : (insertionEffect (.relationProperty r)) = .addRelationProperty r := rfl
    exact hi ▸ execute_insertion h hw
  | addPrefix r =>
    have hi : (insertionEffect (.bundlePrefix r)) = .addPrefix r := rfl
    exact hi ▸ execute_insertion h hw

theorem run_reservedObject : reservedObject.run schema 0 [] created =
    (created.append "cpl_objects" (objectCells ⟨0, none, none, none, 0⟩), some []) := by
  have hrow : reservedObject.row [] (created.next reservedObject.table) 0 objectsTable.columns =
      some (objectCells ⟨0, none, none, none, 0⟩) := by
    simp [Insert.row, Insert.value, Insert.source, reservedObject, objectsTable, serial, varchar,
      number, ColumnDef.keep, ColumnDef.fallback]
    rfl
  refine run_accepted rfl hrow ?_ ⟨?_, by simp [objectsTable]⟩
  · rintro ⟨columns, hc, -⟩
    cases hc
  · intro c hc
    obtain rfl : "id" = c := by simpa [objectsTable] using hc
    exact ⟨by simp [objectCells], by simp [created]⟩

theorem run_reservedRelation {st : SqlInserts.State} (h : st.rows "cpl_relations" = []) :
    reservedRelation.run schema 0 [] st =
      (st.append "cpl_relations" (relationCells ⟨0, none, none, none⟩), some []) := by
  have hrow : reservedRelation.row [] (st.next reservedRelation.table) 0
      relationsTable.columns = some (relationCells ⟨0, none, none, none⟩) := by
    simp [Insert.row, Insert.value, Insert.source, reservedRelation, relationsTable, serial,
      number, ColumnDef.keep]
    funext name
    simp [relationCells, integerOrNull]
  refine run_accepted rfl hrow ?_ ⟨?_, by simp [relationsTable]⟩
  · rintro ⟨columns, hc, -⟩
    cases hc
  · intro c hc
    obtain rfl : "id" = c := by simpa [relationsTable] using hc
    refine ⟨by simp [relationCells], fun q hq => ?_⟩
    rw [show st.rows reservedRelation.table = [] from h] at hq
    cases hq

/-- The script leaves the tables of the store that nobody has used. -/
theorem setup_eq : setup = encode Store.fresh := by
  rw [setup, run_reservedObject, run_reservedRelation rfl]
  apply state_ext
  · intro t
    by_cases ho : t = "cpl_objects"
    · subst ho; rfl
    by_cases hr : t = "cpl_relations"
    · subst hr; rfl
    simp [SqlInserts.State.append, created, encode, Store.fresh, ho, hr]
  · intro t
    by_cases ho : t = "cpl_objects"
    · subst ho; rfl
    by_cases hr : t = "cpl_relations"
    · subst hr; rfl
    simp [SqlInserts.State.append, created, encode, ho, hr]

def runStatements (st : SqlInserts.State) :
    List Effect → SqlInserts.State × List (Option (List Value))
  | [] => (st, [])
  | e :: effects =>
    let rest := runStatements (execute st e).1 effects
    (rest.1, (execute st e).2 :: rest.2)

def returnedBy (s : Store) : List Effect → List (Option (List Value))
  | [] => []
  | e :: effects => returned s e :: returnedBy (applyEffect s e) effects

theorem runStatements_encode {s : Store} (hs : s.Reachable) {effects : List Effect}
    (h : ∀ e ∈ effects, Licensed e ∧ WithinColumns e) :
    runStatements (encode s) effects =
      (encode (runTrace applyEffect s effects), returnedBy s effects) := by
  induction effects generalizing s with
  | nil => rfl
  | cons e effects ih =>
    obtain ⟨hlicensed, hwithin⟩ := h e List.mem_cons_self
    have hrest := ih (applyEffect_reachable hs hlicensed) fun x hx =>
      h x (List.mem_cons_of_mem e hx)
    rw [runStatements, execute_encode hs.valid hwithin]
    dsimp only
    rw [hrest]
    rfl

/-- The prepared INSERT statements, run on the tables that the setup script creates, leave the
tables of the store that the effects lead to, and return what the effects report. -/
theorem statements_refine_effects {effects : List Effect}
    (h : ∀ e ∈ effects, Licensed e ∧ WithinColumns e) :
    (runStatements setup effects).1.database schema =
        database (runTrace applyEffect Store.fresh effects) ∧
      (runStatements setup effects).2 = returnedBy Store.fresh effects := by
  rw [setup_eq, runStatements_encode .fresh h]
  exact ⟨database_encode _, rfl⟩

theorem statements_refine_effects_repeated :
    (runStatements setup [.createObject "p" "n" 1 7, .addObjectProperty ⟨1, "p", "k", "v", 1⟩,
      .addObjectProperty ⟨1, "p", "k", "w", 1⟩, .addObjectProperty ⟨2, "p", "k", "v", 1⟩]).2 =
    [some [.integer 1], some [], some [], none] := by
  exact (statements_refine_effects (by decide)).2.trans (by decide)

end BackendInserts
