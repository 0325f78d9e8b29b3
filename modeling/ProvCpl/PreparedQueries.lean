import ProvCpl.LikePattern
import ProvCpl.ServerSpecs
import ProvCpl.SqlSelect

/-! # The prepared queries

The statements over one table with the parameters as the operations bind them, run on the
tables of the setup script. What the operations report is what the plain filters of the store
give. -/
namespace PreparedQueries

open CplTypes QualifiedName ProvStore ProvServer SqlSelect

def textOrNull : Option String → Value
  | some s => .text s
  | none => .null

def integerOrNull : Option ℤ → Value
  | some n => .integer n
  | none => .null

def relationColumns : List String := ["id", "from_id", "to_id", "type"]
def objectColumns : List String := ["id", "prefix", "name", "type", "creation_time"]
def prefixColumns : List String := ["id", "prefix", "iri"]
def propertyColumns : List String := ["id", "prefix", "name", "value", "type"]

def relationCells (r : RelationRow) : Row := fun c =>
  if c = "id" then .integer r.id
  else if c = "from_id" then integerOrNull (r.fromId.map Int.ofNat)
  else if c = "to_id" then integerOrNull (r.toId.map Int.ofNat)
  else if c = "type" then integerOrNull r.type
  else .null

def objectCells (r : ObjectRow) : Row := fun c =>
  if c = "id" then .integer r.id
  else if c = "prefix" then textOrNull r.nsPrefix
  else if c = "name" then textOrNull r.name
  else if c = "type" then integerOrNull r.type
  else if c = "creation_time" then .integer r.creationTime
  else .null

def prefixCells (r : PrefixRow) : Row := fun c =>
  if c = "id" then .integer r.id
  else if c = "prefix" then .text r.nsPrefix
  else if c = "iri" then .text r.iri
  else .null

def propertyCells (r : PropertyRow) : Row := fun c =>
  if c = "id" then .integer r.id
  else if c = "prefix" then .text r.nsPrefix
  else if c = "name" then .text r.name
  else if c = "value" then .text r.value
  else if c = "type" then .integer r.type
  else .null

def database (s : Store) : Database := fun name =>
  if name = "cpl_objects" then some ⟨objectColumns, s.objects.map objectCells⟩
  else if name = "cpl_relations" then some ⟨relationColumns, s.relations.map relationCells⟩
  else if name = "cpl_prefixes" then some ⟨prefixColumns, s.prefixes.map prefixCells⟩
  else if name = "cpl_relation_properties" then
    some ⟨propertyColumns, s.relationProperties.map propertyCells⟩
  else if name = "cpl_object_properties" then
    some ⟨propertyColumns, s.objectProperties.map propertyCells⟩
  else none

def lookupRelationStmts : Select :=
  ⟨["id"], "cpl_relations", ["from_id", "to_id", "type"], some 1⟩

def getObjectInfoStmts : Select :=
  ⟨["creation_time", "prefix", "name", "type"], "cpl_objects", ["id"], some 1⟩

def getObjectAncestorsStmts : Select :=
  ⟨["id", "to_id", "type"], "cpl_relations", ["from_id"], none⟩

def getObjectDescendantsStmts : Select :=
  ⟨["id", "from_id", "type"], "cpl_relations", ["to_id"], none⟩

def getObjectPropertiesStmts : Select :=
  ⟨["id", "prefix", "name", "value"], "cpl_object_properties", ["id", "type"], none⟩

def getObjectPropertiesWithKeyStmts : Select :=
  ⟨["id", "prefix", "name", "value"], "cpl_object_properties",
    ["id", "prefix", "name", "type"], none⟩

def lookupObjectByPropertyStmts : Select :=
  ⟨["id"], "cpl_object_properties", ["prefix", "name", "value", "type"], none⟩

def getRelationPropertiesStmts : Select :=
  ⟨["id", "prefix", "name", "value"], "cpl_relation_properties", ["id", "type"], none⟩

def getRelationPropertiesWithKeyStmts : Select :=
  ⟨["id", "prefix", "name", "value"], "cpl_relation_properties",
    ["id", "prefix", "name", "type"], none⟩

def getPrefixesStmts : Select := ⟨["id", "prefix", "iri"], "cpl_prefixes", ["id"], none⟩

def getPrefixesWithKeyStmts : Select :=
  ⟨["id", "prefix", "iri"], "cpl_bundle_properties", ["id", "prefix"], none⟩

/-- The statement and the bound parameters of `cpl_odbc_get_object_properties` and
`cpl_odbc_get_relation_properties`. -/
def propertiesQuery (stmts withKeyStmts : Select) (id : ℕ) (nsPrefix key : Option String)
    (type : ℤ) : Select × List Value :=
  match nsPrefix, key with
  | some p, some k => (withKeyStmts, [.integer id, .text p, .text k, .integer type])
  | _, _ => (stmts, [.integer id, .integer type])

def objectPropertiesQuery : ℕ → Option String → Option String → ℤ → Select × List Value :=
  propertiesQuery getObjectPropertiesStmts getObjectPropertiesWithKeyStmts

def relationPropertiesQuery : ℕ → Option String → Option String → ℤ → Select × List Value :=
  propertiesQuery getRelationPropertiesStmts getRelationPropertiesWithKeyStmts

def prefixesQuery (id : ℕ) (nsPrefix : Option String) : Select × List Value :=
  match nsPrefix with
  | none => (getPrefixesStmts, [.integer id])
  | some p => (getPrefixesWithKeyStmts, [.integer id, .text p])

/-- A row whose columns are all there; one with a NULL is passed over. -/
def readProperty : List Value → Option PropertyEntry
  | [.integer _, .text p, .text k, .text v] =>
    some ⟨fetchText cplPrefixLen p, fetchText cplKeyLen k, fetchText cplValueLen v⟩
  | _ => none

/-- `__get_prefixes__entry_t`. -/
structure PrefixEntry where
  nsPrefix : String
  iri : String
  deriving DecidableEq, Repr

def readPrefix : List Value → Option PrefixEntry
  | [.integer _, .text p, .text i] => some ⟨fetchText cplPrefixLen p, fetchText cplValueLen i⟩
  | _ => none

def readId : List Value → Option ℕ
  | [.integer n] => some n.toNat
  | _ => none

end PreparedQueries

namespace ProvServer

open CplTypes ProvStore EarlyExit SqlSelect PreparedQueries

variable {α : Type}

/-- A statement that is refused is reported as an error; else the columns of the rows are read. -/
def Server.select (srv : Server) (query : Select × List Value)
    (report : List (List Value) → ReturnCode × α) (nothing : α) : Call World (ReturnCode × α) :=
  srv.query (fun n s =>
    match query.1.matching (database s) query.2 with
    | none => (.statementError, nothing)
    | some rows => report ((query.1.cut (srv.scan n rows)).map query.1.project)) nothing

/-- The semaphore and the lock of a pool as a call finds them. `cpl_create_odbc_backend`
initialises those of every pool but `get_prefixes_with_key`, where they are what the memory
held. -/
structure PoolMemory where
  permits : ℕ
  locked : Bool
  deriving DecidableEq, Repr

/-- `STMT_ACQUIRE` comes back with a statement. -/
def PoolMemory.Admits (m : PoolMemory) : Prop := 0 < m.permits ∧ m.locked = false

instance (m : PoolMemory) : Decidable m.Admits := inferInstanceAs (Decidable (_ ∧ _))

/-- `cpl_odbc_get_prefixes` from the label `retry` on. -/
def Server.runGetPrefixes (srv : Server) (id : ℕ) (nsPrefix : Option String) :
    Call World (ReturnCode × List PrefixEntry) :=
  srv.select (prefixesQuery id nsPrefix) (fun rows => listing (some (rows.filterMap readPrefix))) []

/-- Where the pool does not admit the call, it never returns. -/
def Server.cplOdbcGetPrefixes (srv : Server) (withKey : PoolMemory) (id : ℕ)
    (nsPrefix : Option String) : World → Option ((ReturnCode × List PrefixEntry) × World) :=
  fun w =>
    if nsPrefix.isSome ∧ ¬ withKey.Admits then none else some (srv.runGetPrefixes id nsPrefix w)

/-- The ids that the iterator is called with; an empty list is not found. -/
def reportIds : List ℕ → ReturnCode × List ℕ
  | [] => (.notFound, [])
  | ids => (.ok, ids)

theorem reportIds_snd (ids : List ℕ) : (reportIds ids).2 = ids := by
  cases ids <;> rfl

def Server.cplOdbcLookupObjectByProperty (srv : Server) (nsPrefix key value : String) (type : ℤ) :
    Call World (ReturnCode × List ℕ) :=
  srv.select (lookupObjectByPropertyStmts,
      [.text nsPrefix, .text key, .text value, .integer type])
    (fun rows => reportIds (rows.filterMap readId)) []

def Server.cplOdbcLookupRelation (srv : Server) (fromId toId : ℕ) (type : ℤ) :
    Call World (ReturnCode × Option ℕ) :=
  srv.select (lookupRelationStmts, [.integer fromId, .integer toId, .integer type]) (fun rows =>
    match rows.filterMap readId with
    | [] => (.notFound, none)
    | id :: _ => (.ok, some id)) none

/-- The rows of `lookup_object_property_wildcard_stmts`; none when a comparison is refused. -/
def propertiesLike (s : Store) (pattern : String) : Option (List PropertyRow) :=
  if ∀ r ∈ s.objectProperties, (LikePattern.like pattern r.value).isSome then
    some (s.objectProperties.filter fun r => LikePattern.like pattern r.value = some true)
  else none

/-- The first row that is fetched is reported. -/
def Server.cplOdbcLookupObjectPropertyWildcard (srv : Server) (value : String) :
    Call World (ReturnCode × Option ℕ) :=
  srv.query (fun n s =>
    match propertiesLike s value with
    | none => (.statementError, none)
    | some rows =>
      match srv.scan n rows with
      | [] => (.notFound, none)
      | r :: _ => (.ok, some r.id)) none

def Server.getPrefixes (srv : Server) (withKey : PoolMemory) (id : ℕ)
    (nsPrefix : Option String) : World → Option ((ReturnCode × List PrefixEntry) × World) :=
  fun w =>
    if srv.attached then
      if id = cplNone then some ((.invalidArgument, []), w)
      else srv.cplOdbcGetPrefixes withKey id nsPrefix w
    else some ((.notInitialized, []), w)

/-- A call with a NULL prefix. -/
def Server.listPrefixes (srv : Server) (id : ℕ) : Call World (ReturnCode × List PrefixEntry) :=
  srv.list id (srv.runGetPrefixes id none)

theorem getPrefixes_returns {srv : Server} {withKey : PoolMemory} {id : ℕ}
    {nsPrefix : Option String} {w : World} {out : (ReturnCode × List PrefixEntry) × World}
    (h : srv.getPrefixes withKey id nsPrefix w = some out) :
    out = srv.list id (srv.runGetPrefixes id nsPrefix) w := by
  unfold Server.getPrefixes at h
  unfold Server.list Server.ensureInitialized
  split at h
  · next ha =>
    rw [if_pos ha]
    dsimp only
    split at h
    · next hid =>
      rw [if_pos hid]
      exact (Option.some.inj h).symm
    · next hid =>
      rw [if_neg hid]
      unfold Server.cplOdbcGetPrefixes at h
      split at h
      · cases h
      · exact (Option.some.inj h).symm
  · next ha =>
    rw [if_neg ha]
    exact (Option.some.inj h).symm

/-- The shape of `cpl_lookup_object_by_*_property`. -/
def Server.lookupObjectByProperty (srv : Server) (nsPrefix key value : Option String)
    (type : ℤ) : Call World (ReturnCode × List ℕ) :=
  srv.ensureInitialized (fun r => (r, [])) fun w =>
    match nsPrefix, key, value with
    | some p, some k, some v => srv.cplOdbcLookupObjectByProperty p k v type w
    | _, _, _ => ((.invalidArgument, []), w)

def Server.lookupObjectByNumericalProperty (srv : Server) (nsPrefix key : Option String)
    (value : FloatText.BinaryFloat) : Call World (ReturnCode × List ℕ) :=
  srv.lookupObjectByProperty nsPrefix key (some (FloatText.toText value)) numericalProperty

def Server.lookupRelation (srv : Server) (fromId toId : ℕ) (type : ℤ) :
    Call World (ReturnCode × Option ℕ) :=
  srv.ensureInitialized noId fun w =>
    if fromId = cplNone ∨ toId = cplNone ∨ ¬ EnsureRType type then ((.invalidArgument, none), w)
    else srv.cplOdbcLookupRelation fromId toId type w

/-- The value is handed on as it is. -/
def Server.lookupObjectPropertyWildcard (srv : Server) (value : String) :
    Call World (ReturnCode × Option ℕ) :=
  srv.ensureInitialized noId (srv.cplOdbcLookupObjectPropertyWildcard value)

end ProvServer

namespace PreparedQueries

open CplTypes QualifiedName ProvStore ProvServer SqlSelect

section Matching

variable {s : Store} {id : ℕ} {p k : Option String} {type : ℤ}

theorem matching_properties {db : Database} {all withKey : Select} {rows : List PropertyRow}
    {table : String} (hdb : db table = some ⟨propertyColumns, rows.map propertyCells⟩)
    (hall : all = ⟨["id", "prefix", "name", "value"], table, ["id", "type"], none⟩)
    (hkey : withKey =
      ⟨["id", "prefix", "name", "value"], table, ["id", "prefix", "name", "type"], none⟩) :
    (propertiesQuery all withKey id p k type).1.matching db
        (propertiesQuery all withKey id p k type).2 =
      some ((propertiesOf rows id p k type).map propertyCells) := by
  subst hall hkey
  have hread : ∀ c ∈ ["id", "prefix", "name", "value"], c ∈ propertyColumns := by decide
  have hfit : ∀ conditions : List String, (∀ c ∈ conditions, c ∈ propertyColumns) →
      (⟨["id", "prefix", "name", "value"], table, conditions, none⟩ : Select).Fits
        propertyColumns := by
    intro conditions hc c hm
    rcases List.mem_append.mp hm with hm | hm
    · exact hread c hm
    · exact hc c hm
  have hplain : (⟨["id", "prefix", "name", "value"], table, ["id", "type"], none⟩ : Select).matching
      db [.integer id, .integer type] =
        some ((rows.filter fun r => r.id = id ∧ r.type = type).map propertyCells) := by
    apply matching_of_cells _ hdb (hfit _ (by decide)) rfl
    intro r
    simp [propertyCells]
  cases p with
  | none => exact hplain
  | some p =>
    cases k with
    | none => exact hplain
    | some k =>
      apply matching_of_cells _ hdb (hfit _ (by decide)) rfl
      intro r
      simp [propertiesQuery, propertyCells]

theorem matching_objectProperties :
    (objectPropertiesQuery id p k type).1.matching (database s)
        (objectPropertiesQuery id p k type).2 =
      some ((propertiesOf s.objectProperties id p k type).map propertyCells) :=
  matching_properties rfl rfl rfl

theorem matching_relationProperties :
    (relationPropertiesQuery id p k type).1.matching (database s)
        (relationPropertiesQuery id p k type).2 =
      some ((propertiesOf s.relationProperties id p k type).map propertyCells) :=
  matching_properties rfl rfl rfl

theorem matching_prefixes : getPrefixesStmts.matching (database s) [.integer id] =
    some ((s.prefixes.filter fun r => r.id = id).map prefixCells) := by
  apply matching_of_cells prefixColumns rfl (by decide) rfl
  intro r
  simp [getPrefixesStmts, prefixCells]

/-- The script makes no table of that name. -/
theorem matching_prefixesWithKey (params : List Value) :
    getPrefixesWithKeyStmts.matching (database s) params = none :=
  matching_of_missing rfl

theorem integerOrNull_eq (o : Option ℤ) (n : ℤ) : integerOrNull o = .integer n ↔ o = some n := by
  cases o <;> simp [integerOrNull]

theorem matching_objectInfo : getObjectInfoStmts.matching (database s) [.integer id] =
    some ((s.objects.filter fun r => r.id = id).map objectCells) := by
  apply matching_of_cells objectColumns rfl (by decide) rfl
  intro r
  simp [getObjectInfoStmts, objectCells]

theorem matching_ancestors : getObjectAncestorsStmts.matching (database s) [.integer id] =
    some ((s.relationsFrom id).map relationCells) := by
  apply matching_of_cells relationColumns rfl (by decide) rfl
  intro r
  simp [getObjectAncestorsStmts, relationCells, integerOrNull_eq]

theorem matching_descendants : getObjectDescendantsStmts.matching (database s) [.integer id] =
    some ((s.relationsTo id).map relationCells) := by
  apply matching_of_cells relationColumns rfl (by decide) rfl
  intro r
  simp [getObjectDescendantsStmts, relationCells, integerOrNull_eq]

theorem matching_lookupRelation (fromId toId : ℕ) :
    lookupRelationStmts.matching (database s) [.integer fromId, .integer toId, .integer type] =
      some ((s.relations.filter fun r => r.fromId = some fromId ∧ r.toId = some toId ∧
        r.type = some type).map relationCells) := by
  apply matching_of_cells relationColumns rfl (by decide) rfl
  intro r
  simp [lookupRelationStmts, relationCells, integerOrNull_eq]

theorem matching_lookupByProperty (nsPrefix key value : String) :
    lookupObjectByPropertyStmts.matching (database s)
        [.text nsPrefix, .text key, .text value, .integer type] =
      some ((s.objectProperties.filter fun r => r.nsPrefix = nsPrefix ∧ r.name = key ∧
        r.value = value ∧ r.type = type).map propertyCells) := by
  apply matching_of_cells propertyColumns rfl (by decide) rfl
  intro r
  simp [lookupObjectByPropertyStmts, propertyCells]

end Matching

section Answers

variable {α : Type} {srv : Server} {w : World} (query : Select × List Value)
  {report : List (List Value) → ReturnCode × α} {nothing : α} {all : List Row}

theorem select_answers (h : (srv.outcome w.calls).failure = none)
    (hm : query.1.matching (database w.store) query.2 = some all) :
    query.1.Answers (database w.store) query.2 (query.1.cut (srv.scan w.calls all)) ∧
      (srv.select query report nothing w).1 =
        report ((query.1.cut (srv.scan w.calls all)).map query.1.project) := by
  constructor
  · exact ⟨all, srv.scan w.calls all, hm, srv.scan_perm _ _, rfl⟩
  · simp only [Server.select, Server.query, h, hm]

theorem select_refused (h : (srv.outcome w.calls).failure = none)
    (hm : query.1.matching (database w.store) query.2 = none) :
    (srv.select query report nothing w).1 = (.statementError, nothing) := by
  simp only [Server.select, Server.query, h, hm]

theorem propertiesQuery_reads {all withKey : Select}
    (ha : all.columns = ["id", "prefix", "name", "value"] ∧ all.limit = none)
    (hk : withKey.columns = ["id", "prefix", "name", "value"] ∧ withKey.limit = none)
    (id : ℕ) (p k : Option String) (type : ℤ) :
    (propertiesQuery all withKey id p k type).1.columns = ["id", "prefix", "name", "value"] ∧
      (propertiesQuery all withKey id p k type).1.limit = none := by
  unfold propertiesQuery
  split
  · exact hk
  · exact ha

end Answers

end PreparedQueries
