import ProvCpl.EarlyExit
import ProvCpl.FloatText
import ProvCpl.ProvStore
import Mathlib.Data.Int.Bitwise

/-! # Backend operations as seen by the front end, and the front end

One backend operation runs one statement. `Outcome` says how often the server executed it
without the client learning so, and whether the operation then reports a failure. A server
also supplies creation times and the order in which unordered rows arrive. The functions
are those of the build without assertions. -/
namespace ProvServer

open CplTypes QualifiedName ProvStore EarlyExit

structure Outcome where
  /-- Executions that were committed although the client saw them fail. -/
  lost : ℕ
  failure : Option Failure

def Outcome.success : Outcome := ⟨0, none⟩

structure Server where
  attached : Bool
  outcome : ℕ → Outcome
  clock : ℕ → ℕ
  scan : ℕ → {α : Type} → List α → List α
  scan_perm : ∀ n {α : Type} (l : List α), (scan n l).Perm l

/-- Every backend call succeeds: its statement is executed once and acknowledged. -/
structure Reliable (srv : Server) : Prop where
  attached : srv.attached = true
  succeeds : ∀ n, srv.outcome n = .success

/-- Rows arrive in the order of their insertion and the clock counts calls. -/
def Server.ideal : Server where
  attached := true
  outcome := fun _ => .success
  clock := fun n => n
  scan := fun _ _ l => l
  scan_perm := fun _ _ l => List.Perm.refl l

theorem Server.ideal_reliable : Reliable Server.ideal := ⟨rfl, fun _ => rfl⟩

structure World where
  store : Store
  calls : ℕ

/-- The effect of executions that nobody learns of. -/
def replay (stmt : Store → Option (α × Store)) : ℕ → Store → Store
  | 0, s => s
  | n + 1, s => replay stmt n (((stmt s).map Prod.snd).getD s)

/-- An operation that changes the store; `none` is a statement that the server rejects. -/
def Server.execute (srv : Server) (stmt : ℕ → Store → Option (α × Store)) :
    Call World (ReturnCode × Option α) := fun w =>
  let o := srv.outcome w.calls
  let now := srv.clock w.calls
  let s := replay (stmt now) o.lost w.store
  match o.failure, stmt now s with
  | some f, _ => ((f.code, none), ⟨s, w.calls + 1⟩)
  | none, none => ((.statementError, none), ⟨s, w.calls + 1⟩)
  | none, some (a, t) => ((.ok, some a), ⟨t, w.calls + 1⟩)

def Server.query (srv : Server) (read : ℕ → Store → ReturnCode × α) (nothing : α) :
    Call World (ReturnCode × α) := fun w =>
  match (srv.outcome w.calls).failure with
  | some f => ((f.code, nothing), ⟨w.store, w.calls + 1⟩)
  | none => (read w.calls w.store, ⟨w.store, w.calls + 1⟩)

def codeOnly (c : Call World (ReturnCode × Option α)) : Call World ReturnCode :=
  fun w => ((c w).1.1, (c w).2)

def Server.cplOdbcCreateObject (srv : Server) (nsPrefix name : String) (type : ℤ) :
    Call World (ReturnCode × Option ℕ) :=
  srv.execute fun now s => some (s.nextObject, s.insertObject nsPrefix name type now)

def Server.cplOdbcAddRelation (srv : Server) (fromId toId : ℕ) (type : ℤ) :
    Call World (ReturnCode × Option ℕ) :=
  srv.execute fun _ s => some (s.nextRelation, s.insertRelation fromId toId type)

def Server.cplOdbcAddObjectProperty (srv : Server) (id : ℕ) (nsPrefix key value : String)
    (type : ℤ) : Call World ReturnCode :=
  codeOnly <| srv.execute fun _ s =>
    (s.insertObjectProperty ⟨id, nsPrefix, key, value, type⟩).map fun t => ((), t)

def Server.cplOdbcAddRelationProperty (srv : Server) (id : ℕ) (nsPrefix key value : String)
    (type : ℤ) : Call World ReturnCode :=
  codeOnly <| srv.execute fun _ s =>
    (s.insertRelationProperty ⟨id, nsPrefix, key, value, type⟩).map fun t => ((), t)

def Server.cplOdbcAddPrefix (srv : Server) (id : ℕ) (nsPrefix iri : String) :
    Call World ReturnCode :=
  codeOnly <| srv.execute fun _ s => (s.insertPrefix ⟨id, nsPrefix, iri⟩).map fun t => ((), t)

def Server.cplOdbcLookupObject (srv : Server) (nsPrefix name : String) (type : ℤ) :
    Call World (ReturnCode × Option ℕ) :=
  srv.query (fun n s =>
    match latest (srv.scan n (s.objectsNamed nsPrefix name type)) with
    | some r => (.ok, some r.id)
    | none => (.notFound, none)) none

/-- `cpl_id_timestamp_t`. -/
structure IdTimestamp where
  id : ℕ
  timestamp : ℕ
  deriving DecidableEq, Repr

/-- The list holds the calls of the iterator; the backend does not look at the flags. -/
def Server.cplOdbcLookupObjectExt (srv : Server) (nsPrefix name : String) (type _flags : ℤ) :
    Call World (ReturnCode × List IdTimestamp) :=
  srv.query (fun n s =>
    match srv.scan n (s.objectsNamed nsPrefix name type) with
    | [] => (.notFound, [])
    | r :: rows => (.ok, (r :: rows).map fun r => ⟨r.id, r.creationTime⟩)) []

/-- `cplxx_object_info_t`. -/
structure ObjectInfo where
  id : ℕ
  creationTime : ℕ
  nsPrefix : String
  name : String
  type : ℤ
  deriving DecidableEq, Repr

/-- `cpl_relation_t`. -/
structure RelationEntry where
  id : ℕ
  queryObjectId : ℕ
  otherObjectId : ℕ
  type : ℤ
  deriving DecidableEq, Repr

structure PropertyEntry where
  nsPrefix : String
  key : String
  value : String
  deriving DecidableEq, Repr

/-- Fetch every row; a NULL in a column bound without an indicator is an error. -/
def readAll (f : α → Option β) : List α → Option (List β)
  | [] => some []
  | r :: rs =>
    match f r, readAll f rs with
    | some e, some es => some (e :: es)
    | _, _ => none

/-- What a listing reports for its rows. -/
def listing (rows : Option (List α)) : ReturnCode × List α :=
  match rows with
  | none => (.statementError, [])
  | some [] => (.noData, [])
  | some es => (.ok, es)

def ObjectRow.info (r : ObjectRow) : Option ObjectInfo :=
  match r.nsPrefix, r.name, r.type with
  | some p, some n, some t =>
    some ⟨r.id, r.creationTime, fetchText (cplPrefixLen + 1) p, fetchText (cplNameLen + 1) n, t⟩
  | _, _, _ => none

/-- A relation as listed by a bundle. -/
def RelationRow.entry (r : RelationRow) : Option RelationEntry :=
  match r.fromId, r.toId, r.type with
  | some f, some o, some t => some ⟨r.id, f, o, t⟩
  | _, _, _ => none

/-- A relation as listed by the object at one end, with the object at the other. -/
def RelationRow.seenFrom (id : ℕ) (other : RelationRow → Option ℕ) (r : RelationRow) :
    Option RelationEntry :=
  match other r, r.type with
  | some o, some t => some ⟨r.id, id, o, t⟩
  | _, _ => none

def propertyEntry (r : PropertyRow) : PropertyEntry :=
  ⟨fetchText cplPrefixLen r.nsPrefix, fetchText cplKeyLen r.name, fetchText cplValueLen r.value⟩

def Server.cplOdbcGetBundleObjects (srv : Server) (id : ℕ) :
    Call World (ReturnCode × List ObjectInfo) :=
  srv.query (fun n s => listing (readAll ObjectRow.info (srv.scan n (s.bundleObjects id)))) []

def Server.cplOdbcGetBundleRelations (srv : Server) (id : ℕ) :
    Call World (ReturnCode × List RelationEntry) :=
  srv.query (fun n s => listing (readAll RelationRow.entry (srv.scan n (s.bundleRelations id)))) []

def Server.cplOdbcGetObjectRelations (srv : Server) (id : ℕ) (direction : ℤ) :
    Call World (ReturnCode × List RelationEntry) :=
  srv.query (fun n s =>
    if direction = cplDAncestors then
      listing (readAll (RelationRow.seenFrom id (·.toId)) (srv.scan n (s.relationsFrom id)))
    else
      listing (readAll (RelationRow.seenFrom id (·.fromId)) (srv.scan n (s.relationsTo id)))) []

/-- The object asked for is bound first; the fetched column is not looked at. -/
def Server.cplOdbcHasImmediateAncestor (srv : Server) (objectId queryObjectId : ℕ) :
    Call World (ReturnCode × Option ℤ) :=
  srv.query (fun n s =>
    match srv.scan n (s.relationsBetween queryObjectId objectId) with
    | [] => (.ok, some 0)
    | _ :: _ => (.ok, some 1)) none

def Server.cplOdbcGetObjectProperties (srv : Server) (id : ℕ) (nsPrefix key : Option String)
    (type : ℤ) : Call World (ReturnCode × List PropertyEntry) :=
  srv.query (fun n s => listing (some
    ((srv.scan n (propertiesOf s.objectProperties id nsPrefix key type)).map propertyEntry))) []

def Server.cplOdbcGetRelationProperties (srv : Server) (id : ℕ) (nsPrefix key : Option String)
    (type : ℤ) : Call World (ReturnCode × List PropertyEntry) :=
  srv.query (fun n s => listing (some
    ((srv.scan n (propertiesOf s.relationProperties id nsPrefix key type)).map propertyEntry))) []

def Server.cplOdbcGetAllObjects (srv : Server) (nsPrefix : Option String) (_flags type : ℤ) :
    Call World (ReturnCode × List ObjectInfo) :=
  srv.query (fun n s =>
    listing (readAll ObjectRow.info (srv.scan n (s.objectsWithPrefix nsPrefix type)))) []

/-- Allocated strings hold 4095 bytes; a NULL prefix or name is read as empty, a NULL type
ends the fetch as if there were no row. -/
def Server.cplOdbcGetObjectInfo (srv : Server) (id : ℕ) :
    Call World (ReturnCode × Option ObjectInfo) :=
  srv.query (fun n s =>
    match srv.scan n (s.objects.filter fun r => r.id = id) with
    | [] => (.notFound, none)
    | r :: _ =>
      match r.type with
      | none => (.notFound, none)
      | some t => (.ok, some ⟨id, r.creationTime, fetchText 4096 (r.nsPrefix.getD ""),
          fetchText 4096 (r.name.getD ""), t⟩)) none

def Server.ensureInitialized (srv : Server) (nothing : ReturnCode → α) (c : Call World α) :
    Call World α := fun w =>
  if srv.attached then c w else (nothing .notInitialized, w)

section FrontEnd

variable {σ : Type*}

def cplCreateObject (dbCreateObject : String → String → ℤ → Call σ (ReturnCode × Option ℕ))
    (nsPrefix name : Option String) (type : ℤ) : Call σ (ReturnCode × Option ℕ) := fun w =>
  match nsPrefix, name with
  | some p, some n =>
    if EnsureOType type then
      match dbCreateObject p n type w with
      | ((r, id), w') => if r.IsOk then ((.objectCreated, id), w') else ((r, none), w')
    else ((.invalidArgument, none), w)
  | _, _ => ((.invalidArgument, none), w)

def cplAddRelation (dbAddRelation : ℕ → ℕ → ℤ → Call σ (ReturnCode × Option ℕ))
    (fromId toId : ℕ) (type : ℤ) : Call σ (ReturnCode × Option ℕ) := fun w =>
  if fromId = cplNone ∨ toId = cplNone ∨ ¬ EnsureRType type then ((.invalidArgument, none), w)
  else
    match dbAddRelation fromId toId type w with
    | ((r, id), w') => if r.IsOk then ((.ok, id), w') else ((r, none), w')

def cplLookupObject (dbLookupObject : String → String → ℤ → Call σ (ReturnCode × Option ℕ))
    (nsPrefix name : Option String) (type : ℤ) : Call σ (ReturnCode × Option ℕ) := fun w =>
  match nsPrefix, name with
  | some p, some n =>
    match dbLookupObject p n type w with
    | ((r, id), w') => if r.IsOk then ((.ok, id), w') else ((r, none), w')
  | _, _ => ((.invalidArgument, none), w)

def cplLookupObjectExt
    (dbLookupObjectExt : String → String → ℤ → ℤ → Call σ (ReturnCode × List IdTimestamp))
    (nsPrefix name : Option String) (type flags : ℤ) :
    Call σ (ReturnCode × List IdTimestamp) := fun w =>
  match nsPrefix, name with
  | some p, some n =>
    match dbLookupObjectExt p n type flags w with
    | ((r, es), w') =>
      if r = .notFound ∧ flags.land cplLNoFail = cplLNoFail then ((.noData, es), w')
      else ((r, es), w')
  | _, _ => ((.invalidArgument, []), w)

end FrontEnd

def noId (r : ReturnCode) : ReturnCode × Option ℕ := (r, none)

def Server.createObject (srv : Server) (nsPrefix name : Option String) (type : ℤ) :
    Call World (ReturnCode × Option ℕ) :=
  srv.ensureInitialized noId (cplCreateObject srv.cplOdbcCreateObject nsPrefix name type)

def Server.lookupObject (srv : Server) (nsPrefix name : Option String) (type : ℤ) :
    Call World (ReturnCode × Option ℕ) :=
  srv.ensureInitialized noId (cplLookupObject srv.cplOdbcLookupObject nsPrefix name type)

def Server.lookupObjectExt (srv : Server) (nsPrefix name : Option String) (type flags : ℤ) :
    Call World (ReturnCode × List IdTimestamp) :=
  srv.ensureInitialized (fun r => (r, []))
    (cplLookupObjectExt srv.cplOdbcLookupObjectExt nsPrefix name type flags)

def Server.addRelation (srv : Server) (fromId toId : ℕ) (type : ℤ) :
    Call World (ReturnCode × Option ℕ) :=
  srv.ensureInitialized noId (cplAddRelation srv.cplOdbcAddRelation fromId toId type)

/-- The shape of `cpl_add_object_*_property` and `cpl_add_relation_*_property`. -/
def Server.addProperty (srv : Server)
    (dbAddProperty : ℕ → String → String → String → ℤ → Call World ReturnCode)
    (id : ℕ) (nsPrefix key value : Option String) (type : ℤ) : Call World ReturnCode :=
  srv.ensureInitialized (fun r => r) fun w =>
    match nsPrefix, key, value with
    | some p, some k, some v =>
      if id = cplNone then (.invalidArgument, w) else dbAddProperty id p k v type w
    | _, _, _ => (.invalidArgument, w)

def Server.addObjectStringProperty (srv : Server) (id : ℕ) (nsPrefix key value : Option String) :
    Call World ReturnCode :=
  srv.addProperty srv.cplOdbcAddObjectProperty id nsPrefix key value stringProperty

def Server.addObjectNumericalProperty (srv : Server) (id : ℕ) (nsPrefix key : Option String)
    (value : FloatText.BinaryFloat) : Call World ReturnCode :=
  srv.addProperty srv.cplOdbcAddObjectProperty id nsPrefix key
    (some (FloatText.toText value)) numericalProperty

def Server.addObjectBooleanProperty (srv : Server) (id : ℕ) (nsPrefix key : Option String)
    (value : Bool) : Call World ReturnCode :=
  srv.addProperty srv.cplOdbcAddObjectProperty id nsPrefix key
    (some (FloatText.boolText value)) booleanProperty

def Server.addRelationStringProperty (srv : Server) (id : ℕ)
    (nsPrefix key value : Option String) : Call World ReturnCode :=
  srv.addProperty srv.cplOdbcAddRelationProperty id nsPrefix key value stringProperty

def Server.addRelationNumericalProperty (srv : Server) (id : ℕ) (nsPrefix key : Option String)
    (value : FloatText.BinaryFloat) : Call World ReturnCode :=
  srv.addProperty srv.cplOdbcAddRelationProperty id nsPrefix key
    (some (FloatText.toText value)) numericalProperty

def Server.addRelationBooleanProperty (srv : Server) (id : ℕ) (nsPrefix key : Option String)
    (value : Bool) : Call World ReturnCode :=
  srv.addProperty srv.cplOdbcAddRelationProperty id nsPrefix key
    (some (FloatText.boolText value)) booleanProperty

def Server.addPrefix (srv : Server) (id : ℕ) (nsPrefix iri : Option String) :
    Call World ReturnCode :=
  srv.ensureInitialized (fun r => r) fun w =>
    match nsPrefix, iri with
    | some p, some i =>
      if id = cplNone then (.invalidArgument, w) else srv.cplOdbcAddPrefix id p i w
    | _, _ => (.invalidArgument, w)

/-- A listing for an object, relation or bundle; the iterator is never NULL here. -/
def Server.list (srv : Server) (id : ℕ) (dbList : Call World (ReturnCode × List α)) :
    Call World (ReturnCode × List α) :=
  srv.ensureInitialized (fun r => (r, [])) fun w =>
    if id = cplNone then ((.invalidArgument, []), w) else dbList w

def Server.getBundleObjects (srv : Server) (id : ℕ) : Call World (ReturnCode × List ObjectInfo) :=
  srv.list id (srv.cplOdbcGetBundleObjects id)

def Server.getBundleRelations (srv : Server) (id : ℕ) :
    Call World (ReturnCode × List RelationEntry) :=
  srv.list id (srv.cplOdbcGetBundleRelations id)

def Server.getObjectProperties (srv : Server) (id : ℕ) (nsPrefix key : Option String) (type : ℤ) :
    Call World (ReturnCode × List PropertyEntry) :=
  srv.list id (srv.cplOdbcGetObjectProperties id nsPrefix key type)

def Server.getRelationProperties (srv : Server) (id : ℕ) (nsPrefix key : Option String)
    (type : ℤ) : Call World (ReturnCode × List PropertyEntry) :=
  srv.list id (srv.cplOdbcGetRelationProperties id nsPrefix key type)

def Server.getObjectRelations (srv : Server) (id : ℕ) (direction : ℤ) :
    Call World (ReturnCode × List RelationEntry) :=
  srv.list id fun w =>
    if direction ≠ cplDAncestors ∧ direction ≠ cplDDescendants then ((.invalidArgument, []), w)
    else
      match srv.cplOdbcGetObjectRelations id direction w with
      | ((r, es), w') => (((if r = .noData then .ok else r), es), w')

/-- The prefix is not checked. -/
def Server.getAllObjects (srv : Server) (nsPrefix : Option String) (flags type : ℤ) :
    Call World (ReturnCode × List ObjectInfo) :=
  srv.ensureInitialized (fun r => (r, [])) (srv.cplOdbcGetAllObjects nsPrefix flags type)

def Server.getObjectInfo (srv : Server) (id : ℕ) : Call World (ReturnCode × Option ObjectInfo) :=
  srv.ensureInitialized (fun r => (r, none)) fun w =>
    if id = cplNone then ((.invalidArgument, none), w) else srv.cplOdbcGetObjectInfo id w

end ProvServer
