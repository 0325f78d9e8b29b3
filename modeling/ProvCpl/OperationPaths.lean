import ProvCpl.Custody
import ProvCpl.EarlyExit
import ProvCpl.OdbcOperation

/-! # Paths through the operations of the ODBC backend

Each operation is a program with the labels of the source, run against answers to every call of
the driver and to every allocation. Its path is the list of what happens: allocations, calls on
the statement, reconnects, the statement taken and released, and the callbacks. -/
namespace OperationPaths

open CplTypes EarlyExit OdbcOperation Custody

/-- What is allocated: the result structure, the buffers on the stack, the buffer of a string
column, the empty string for a null, parts of the entry of a row, and a diagnostic record. -/
inductive Allocation where
  | info
  | stack
  | buffer
  | copy
  | entry
  | record
  deriving DecidableEq, Repr

inductive Event where
  | allocate (a : Allocation) (granted : Bool)
  | acquire (pool : Pool) (stmt : Option Handle)
  | call (f : OdbcFunction) (ret : SqlReturn)
  | execute (hasResult : Bool) (ret : SqlReturn)
  | reconnect (o : ConnectOutcome)
  | release (pool : Pool) (stmt : Option Handle)
  | callback (code : ReturnCode)
  deriving DecidableEq, Repr

def Event.Denies : Event → Prop
  | .allocate .buffer false => True
  | .allocate .entry false => True
  | .allocate .record false => True
  | _ => False

/-- The answer to the last fetch of a listing. -/
structure LastFetch where
  ret : SqlReturn
  failed : ¬ ret.Succeeded
  deriving DecidableEq

/-- What the driver, the allocator and the callback answer, by the number of events before, and
the rows that a listing fetches: whether one of the indicators says null. -/
structure Answers where
  grants : ℕ → Bool
  ret : ℕ → SqlReturn
  dataLength : ℕ → ℤ
  states : ℕ → List String
  connect : ℕ → ConnectOutcome
  rows : List Bool
  lastFetch : LastFetch
  hasCallback : Bool
  callback : ℕ → ReturnCode

/-- The labels, a return from the middle, and an exception that no one catches. -/
inductive Exit where
  | err
  | errClose
  | errNf
  | errNull
  | errR (r : ReturnCode)
  | ret (r : ReturnCode)
  | threw
  deriving DecidableEq, Repr

abbrev Path (α : Type) := Prog (List Event) Exit α

def emit (e : Event) : Path Unit := call fun t => ((), t ++ [e])

def answer {α : Type} (f : ℕ → α) : Path α := call fun t => (f t.length, t)

def jumpIf (c : Prop) [Decidable c] (label : Exit) : Path Unit :=
  if c then leave label else pure ()

def onlyIf (c : Prop) [Decidable c] (m : Path Unit) : Path Unit := if c then m else pure ()

section Macros

variable (p : Answers)

def allocate (a : Allocation) : Path Bool := do
  let granted ← answer p.grants
  emit (.allocate a granted)
  pure granted

def allocateOrThrow (a : Allocation) : Path Unit := do
  let granted ← allocate p a
  jumpIf (granted = false) .threw

def sqlCall (f : OdbcFunction) : Path SqlReturn := do
  let ret ← answer p.ret
  emit (.call f ret)
  pure ret

/-- The states of the records, each of which is added to a vector. -/
def fetchOdbcError : Path (List String) := do
  let states ← answer p.states
  forEach (fun _ => allocateOrThrow p .record) states
  pure states

def printOdbcError : Path Unit := do
  let _ ← fetchOdbcError p
  pure ()

def sqlAssertNoError (ret : SqlReturn) (label : Exit) : Path Unit :=
  onlyIf (¬ ret.Succeeded) do
    printOdbcError p
    leave label

/-- The cursor is closed on an error; a failure is printed only. -/
def closeCursor : Path Unit := do
  let ret ← sqlCall p .closeCursor
  onlyIf (¬ ret.Succeeded) (printOdbcError p)

/-- `cpl_odbc_reconnect`; what it does to the handles is modelled elsewhere. -/
def reconnect : Path ReturnCode := do
  let o ← answer p.connect
  emit (.reconnect o)
  match o with
  | .connected => pure .ok
  | .noMemory => pure .insufficientResources
  | .refused => do
    printOdbcError p
    pure .dbConnectionError
  | .notPrepared => do
    printOdbcError p
    pure .prepareStatementError

/-- `SQL_EXECUTE`, with what follows the retry label while retries are left. -/
def sqlExecute (hasResult : Bool) (retry : Option (Path Unit)) : Path Unit := do
  let ret ← answer p.ret
  emit (.execute hasResult ret)
  onlyIf (¬ ret.Succeeded) do
    let states ← fetchOdbcError p
    match retry, shouldReconnectDueToOdbcError states with
    | some retry, true => do
      let r ← reconnect p
      if r.IsOk then retry else leave .err
    | _, _ => leave .err

def bindParameters (params : ℕ) : Path Unit :=
  forEach (fun _ => do
    let ret ← sqlCall p .bindParameter
    sqlAssertNoError p ret .err) (List.range params)

def fromRetry (params : ℕ) (hasResult : Bool) : ℕ → Path Unit
  | 0 => do
    bindParameters p params
    sqlExecute p hasResult none
  | left + 1 => do
    bindParameters p params
    sqlExecute p hasResult (some (fromRetry params hasResult left))

def fetchValue (fetch closeIfOk : Bool) : Path ReturnCode := do
  onlyIf (fetch = true) do
    let ret ← sqlCall p .fetch
    jumpIf (ret = .noData) .errNf
    sqlAssertNoError p ret .err
  let ret ← sqlCall p .getData
  jumpIf (ret = .noData) .errNull
  sqlAssertNoError p ret .err
  let cb ← answer p.dataLength
  jumpIf (cb ≤ 0) .errNull
  onlyIf (closeIfOk = true) do
    let ret ← sqlCall p .closeCursor
    sqlAssertNoError p ret .err
  pure .ok

def fetchLabels (handleNulls : Bool) : Exit → Path ReturnCode
  | .err => do
    closeCursor p
    pure .statementError
  | .errNf => do
    closeCursor p
    pure .notFound
  | .errNull => do
    onlyIf (handleNulls = false) (closeCursor p)
    pure (if handleNulls = true then .dbNull else .notFound)
  | e => leave e

def cplSqlFetchSingleValue (fetch closeIfOk handleNulls : Bool) : Path ReturnCode :=
  rescue (fetchValue p fetch closeIfOk) (fetchLabels p handleNulls)

def cplSqlFetchSingleDynamicallyAllocatedString (fetch closeIfOk handleNulls : Bool) :
    Path ReturnCode := do
  let str ← allocate p .buffer
  if str = true then cplSqlFetchSingleValue p fetch closeIfOk handleNulls
  else pure .insufficientResources

structure InfoColumn where
  number : ℕ
  isString : Bool
  handleNulls : Bool
  deriving DecidableEq, Repr

def fetchColumn (c : InfoColumn) : Path ReturnCode :=
  if c.isString = true then
    cplSqlFetchSingleDynamicallyAllocatedString p (c.number == 1) false c.handleNulls
  else cplSqlFetchSingleValue p (c.number == 1) false c.handleNulls

/-- `CPL_SQL_SIMPLE_FETCH_EXT`, and the empty string that stands for a null. -/
def cplSqlSimpleFetchExt (c : InfoColumn) : Path Unit := do
  let r ← fetchColumn p c
  jumpIf (r ≠ .dbNull ∧ ¬ r.IsOk) (.errR r)
  onlyIf (r = .dbNull) do
    let _ ← allocate p .copy
    pure ()

end Macros

structure Listing where
  columns : ℕ
  allocations : ℕ
  skipsNulls : Bool
  printsInvalidHandle : Bool
  stackBuffers : Bool
  noRows : ReturnCode
  deriving DecidableEq, Repr

inductive Body where
  | empty
  | single
  | test
  | listing (l : Listing)
  | info (columns : List InfoColumn)
  deriving DecidableEq, Repr

/-- An operation, with the pools that it names where it acquires and where it releases. -/
structure Procedure where
  acquires : Pool
  releases : Pool
  params : ℕ
  body : Body
  deriving DecidableEq, Repr

/-- The statement of the pool selects, or inserts and returns an id. -/
def hasResult : Pool → Bool
  | .addObjectProperty => false
  | .addRelationProperty => false
  | .addPrefix => false
  | _ => true

namespace Procedure

variable (q : Procedure) (stmt : Option Handle) (p : Answers)

/-- The labels of the operations; each has those that it jumps to. -/
def labels {α : Type} : Exit → Path α
  | .errClose => do
    closeCursor p
    emit (.release q.releases stmt)
    leave (.ret .statementError)
  | .err => do
    emit (.release q.releases stmt)
    leave (.ret .statementError)
  | .errR r => do
    emit (.release q.releases stmt)
    leave (.ret r)
  | e => leave e

def withStatement {α : Type} (body : Path α) : Path α := do
  emit (.acquire q.acquires stmt)
  let a ← rescue (do
    fromRetry p q.params (hasResult q.acquires) 3
    body) (q.labels stmt p)
  emit (.release q.releases stmt)
  pure a

end Procedure

section Listings

variable (p : Answers) (l : Listing)

def bindColumns : Path Unit :=
  forEach (fun _ => do
    let ret ← sqlCall p .bindCol
    jumpIf (¬ ret.Succeeded) .errClose) (List.range l.columns)

/-- A row is an entry unless it is passed over. -/
def fetchRow (entries : ℕ) (isNull : Bool) : Path ℕ := do
  emit (.call .fetch .success)
  if l.skipsNulls = true ∧ isNull = true then pure entries
  else do
    forEach (fun _ => allocateOrThrow p .entry) (List.range l.allocations)
    pure (entries + 1)

def fetchEnd : Path Unit := do
  let ret := p.lastFetch.ret
  emit (.call .fetch ret)
  onlyIf (ret ≠ .noData ∧ (ret = .invalidHandle → l.printsInvalidHandle = true))
    (printOdbcError p)
  jumpIf (ret ≠ .noData) .errClose

def readRows : Path ℕ := do
  bindColumns p l
  let entries ← fold (fetchRow p l) 0 p.rows
  fetchEnd p l
  let ret ← sqlCall p .closeCursor
  sqlAssertNoError p ret .err
  pure entries

def callBack (entries : ℕ) : Path ReturnCode := do
  jumpIf (entries = 0) (.ret l.noRows)
  onlyIf (p.hasCallback = true) (forEach (fun _ => do
    let code ← answer p.callback
    emit (.callback code)
    jumpIf (¬ code.IsOk) (.ret code)) (List.range entries))
  pure .ok

end Listings

def allocateInfo (p : Answers) : Path Unit := do
  let info ← allocate p .info
  jumpIf (info = false) (.ret .insufficientResources)

def allocateBuffers (p : Answers) : Path Unit := do
  let entryPrefix ← allocate p .stack
  let entryName ← allocate p .stack
  jumpIf (entryPrefix = false ∨ entryName = false) (.ret .insufficientResources)

def readInfo (p : Answers) (columns : List InfoColumn) : Path Unit := do
  forEach (cplSqlSimpleFetchExt p) columns
  let ret ← sqlCall p .closeCursor
  sqlAssertNoError p ret .err

def Procedure.run (q : Procedure) (stmt : Option Handle) (p : Answers) : Path ReturnCode :=
  match q.body with
  | .empty => do
    q.withStatement stmt p (pure ())
    pure .ok
  | .single => q.withStatement stmt p (cplSqlFetchSingleValue p true true false)
  | .test => do
    let r ← q.withStatement stmt p (cplSqlFetchSingleValue p true true false)
    pure (if r = .notFound then .ok else r)
  | .listing l => do
    onlyIf (l.stackBuffers = true) (allocateBuffers p)
    let entries ← q.withStatement stmt p (readRows p l)
    callBack p l entries
  | .info columns => do
    allocateInfo p
    q.withStatement stmt p (readInfo p columns)
    pure .ok

def Procedure.path (q : Procedure) (stmt : Option Handle) (p : Answers) : List Event :=
  (q.run stmt p []).2

section Operations

/-- The local enumeration of the operations that have a typed and an untyped statement. -/
inductive Variant where
  | t
  | nt
  deriving DecidableEq, Repr

def variantOf (type : ℤ) : Variant := if type = 0 then .nt else .t

/-- With a type there is one more parameter. -/
def Variant.params : Variant → ℕ
  | .t => 1
  | .nt => 0

def cplOdbcCreateSession : Procedure := ⟨.createSession, .createSession, 5, .single⟩

def cplOdbcCreateObject : Procedure := ⟨.createObject, .createObject, 3, .single⟩

def cplOdbcLookupObject (type : ℤ) : Procedure where
  acquires := if type = 0 then .lookupObjectNt else .lookupObjectT
  releases := match variantOf type with
    | .t => .lookupObjectT
    | .nt => .lookupObjectNt
  params := 2 + (variantOf type).params
  body := .single

def cplOdbcLookupObjectExt (type : ℤ) : Procedure where
  acquires := if type = 0 then .lookupObjectNtExt else .lookupObjectTExt
  releases := match variantOf type with
    | .t => .lookupObjectTExt
    | .nt => .lookupObjectNtExt
  params := 2 + (variantOf type).params
  body := .listing ⟨2, 1, false, true, false, .notFound⟩

def cplOdbcAddRelation : Procedure := ⟨.addRelation, .addRelation, 3, .single⟩

def cplOdbcHasImmediateAncestor : Procedure :=
  ⟨.hasImmediateAncestor, .hasImmediateAncestor, 2, .test⟩

def cplOdbcAddObjectProperty : Procedure := ⟨.addObjectProperty, .addObjectProperty, 5, .empty⟩

def cplOdbcAddRelationProperty : Procedure :=
  ⟨.addRelationProperty, .addRelationProperty, 5, .empty⟩

def cplOdbcLookupRelation : Procedure := ⟨.lookupRelation, .lookupRelation, 3, .single⟩

def cplOdbcLookupObjectPropertyWildcard : Procedure :=
  ⟨.lookupObjectPropertyWildcard, .lookupObjectPropertyWildcard, 1, .single⟩

def cplOdbcAddPrefix : Procedure := ⟨.addPrefix, .addPrefix, 3, .empty⟩

def cplOdbcGetSessionInfo : Procedure where
  acquires := .getSessionInfo
  releases := .getSessionInfo
  params := 1
  body := .info [⟨1, true, false⟩, ⟨2, true, false⟩, ⟨3, false, false⟩, ⟨4, true, false⟩,
    ⟨5, true, false⟩, ⟨6, false, false⟩]

/-- An entry has two strings, which are assigned and then copied into the list. -/
def cplOdbcGetAllObjects (type : ℤ) : Procedure where
  acquires := if type = 0 then .getAllObjectsNt else .getAllObjectsT
  releases := match variantOf type with
    | .t => .getAllObjectsT
    | .nt => .getAllObjectsNt
  params := 1 + (variantOf type).params
  body := .listing ⟨5, 5, false, false, true, .noData⟩

def cplOdbcGetObjectInfo : Procedure where
  acquires := .getObjectInfo
  releases := .getObjectInfo
  params := 1
  body := .info [⟨1, false, false⟩, ⟨2, true, true⟩, ⟨3, true, true⟩, ⟨4, false, false⟩]

def cplOdbcGetObjectRelations (direction : ℤ) : Procedure where
  acquires := if direction = cplDAncestors then .getObjectAncestors else .getObjectDescendants
  releases := if direction = cplDAncestors then .getObjectAncestors else .getObjectDescendants
  params := 1
  body := .listing ⟨3, 1, false, true, false, .noData⟩

def cplOdbcGetObjectProperties (nsPrefix key : Option String) : Procedure where
  acquires :=
    if nsPrefix = none ∨ key = none then .getObjectProperties else .getObjectPropertiesWithKey
  releases :=
    if nsPrefix = none ∨ key = none then .getObjectProperties else .getObjectPropertiesWithKey
  params := if nsPrefix ≠ none ∧ key ≠ none then 4 else 2
  body := .listing ⟨4, 2, true, true, false, .noData⟩

def cplOdbcLookupObjectByProperty : Procedure where
  acquires := .lookupObjectByProperty
  releases := .lookupObjectByProperty
  params := 4
  body := .listing ⟨1, 1, false, true, false, .notFound⟩

def cplOdbcGetRelationProperties (nsPrefix key : Option String) : Procedure where
  acquires :=
    if nsPrefix = none ∨ key = none then .getRelationProperties else .getRelationPropertiesWithKey
  releases :=
    if nsPrefix = none ∨ key = none then .getRelationProperties else .getRelationPropertiesWithKey
  params := if nsPrefix ≠ none ∧ key ≠ none then 4 else 2
  body := .listing ⟨4, 2, true, true, false, .noData⟩

def cplOdbcGetPrefixes (nsPrefix : Option String) : Procedure where
  acquires := if nsPrefix = none then .getPrefixes else .getPrefixesWithKey
  releases := if nsPrefix = none then .getPrefixes else .getPrefixesWithKey
  params := if nsPrefix ≠ none then 2 else 1
  body := .listing ⟨3, 2, true, true, false, .noData⟩

def cplOdbcGetBundleObjects : Procedure where
  acquires := .getBundleObjects
  releases := .getBundleObjects
  params := 1
  body := .listing ⟨5, 5, false, false, true, .noData⟩

def cplOdbcGetBundleRelations : Procedure where
  acquires := .getBundleRelations
  releases := .getBundleRelations
  params := 1
  body := .listing ⟨4, 1, false, true, false, .noData⟩

end Operations

/-- The entries of `CPL_ODBC_BACKEND` after the destructor. -/
def cplOdbcBackend : BackendCall → Procedure
  | .createSession => cplOdbcCreateSession
  | .createObject => cplOdbcCreateObject
  | .lookupObject type => cplOdbcLookupObject type
  | .lookupObjectExt type => cplOdbcLookupObjectExt type
  | .addRelation => cplOdbcAddRelation
  | .hasImmediateAncestor => cplOdbcHasImmediateAncestor
  | .addObjectProperty => cplOdbcAddObjectProperty
  | .addRelationProperty => cplOdbcAddRelationProperty
  | .lookupRelation => cplOdbcLookupRelation
  | .lookupObjectPropertyWildcard => cplOdbcLookupObjectPropertyWildcard
  | .addPrefix => cplOdbcAddPrefix
  | .getSessionInfo => cplOdbcGetSessionInfo
  | .getAllObjects type => cplOdbcGetAllObjects type
  | .getObjectInfo => cplOdbcGetObjectInfo
  | .getObjectRelations direction => cplOdbcGetObjectRelations direction
  | .getObjectProperties nsPrefix key => cplOdbcGetObjectProperties nsPrefix key
  | .lookupObjectByProperty => cplOdbcLookupObjectByProperty
  | .getRelationProperties nsPrefix key => cplOdbcGetRelationProperties nsPrefix key
  | .getPrefixes nsPrefix => cplOdbcGetPrefixes nsPrefix
  | .getBundleObjects => cplOdbcGetBundleObjects
  | .getBundleRelations => cplOdbcGetBundleRelations

theorem backend_releases (c : BackendCall) :
    (cplOdbcBackend c).releases = (cplOdbcBackend c).acquires := by
  cases c with
  | lookupObject type | lookupObjectExt type | getAllObjects type =>
    by_cases h : type = 0
    · simp [cplOdbcBackend, cplOdbcLookupObject, cplOdbcLookupObjectExt, cplOdbcGetAllObjects,
        variantOf, h]
    · simp [cplOdbcBackend, cplOdbcLookupObject, cplOdbcLookupObjectExt, cplOdbcGetAllObjects,
        variantOf, h]
  | _ => rfl

def Procedure.operation (q : Procedure) : Operation where
  pool := q.acquires
  params := q.params
  results := match q.body with
    | .empty => .empty
    | .single => .single
    | .test => .test
    | .listing l => .rows l.columns l.noRows
    | .info columns => .info (columns.map (·.handleNulls))

theorem backend_operation (c : BackendCall) : (cplOdbcBackend c).operation = c.operation := by
  cases c with
  | lookupObject type | lookupObjectExt type | getAllObjects type =>
    by_cases h : type = 0
    · simp [cplOdbcBackend, cplOdbcLookupObject, cplOdbcLookupObjectExt, cplOdbcGetAllObjects,
        variantOf, Variant.params, Procedure.operation, BackendCall.operation, h]
    · simp [cplOdbcBackend, cplOdbcLookupObject, cplOdbcLookupObjectExt, cplOdbcGetAllObjects,
        variantOf, Variant.params, Procedure.operation, BackendCall.operation, h]
  | getObjectRelations direction =>
    by_cases h : direction = cplDAncestors
    · simp [cplOdbcBackend, cplOdbcGetObjectRelations, Procedure.operation,
        BackendCall.operation, h]
    · simp [cplOdbcBackend, cplOdbcGetObjectRelations, Procedure.operation,
        BackendCall.operation, h]
  | getObjectProperties nsPrefix key | getRelationProperties nsPrefix key =>
    by_cases h : nsPrefix = none ∨ key = none
    · have hn : ¬ (nsPrefix ≠ none ∧ key ≠ none) := fun hn => h.elim hn.1 hn.2
      simp [cplOdbcBackend, cplOdbcGetObjectProperties, cplOdbcGetRelationProperties,
        Procedure.operation, BackendCall.operation, if_pos h, if_neg hn]
    · have hn : nsPrefix ≠ none ∧ key ≠ none := not_or.mp h
      simp [cplOdbcBackend, cplOdbcGetObjectProperties, cplOdbcGetRelationProperties,
        Procedure.operation, BackendCall.operation, hn.1, hn.2]
  | getPrefixes nsPrefix =>
    by_cases h : nsPrefix = none
    · simp [cplOdbcBackend, cplOdbcGetPrefixes, Procedure.operation, BackendCall.operation, h]
    · simp [cplOdbcBackend, cplOdbcGetPrefixes, Procedure.operation, BackendCall.operation, h]
  | _ => rfl

/-- An operation reads nothing exactly when its statement has no result. -/
theorem backend_hasResult (c : BackendCall) :
    hasResult (cplOdbcBackend c).acquires = false ↔ (cplOdbcBackend c).body = .empty := by
  cases c with
  | lookupObject type | lookupObjectExt type | getAllObjects type =>
    by_cases h : type = 0
    · simp [cplOdbcBackend, cplOdbcLookupObject, cplOdbcLookupObjectExt, cplOdbcGetAllObjects,
        hasResult, h]
    · simp [cplOdbcBackend, cplOdbcLookupObject, cplOdbcLookupObjectExt, cplOdbcGetAllObjects,
        hasResult, h]
  | getObjectRelations direction =>
    by_cases h : direction = cplDAncestors
    · simp [cplOdbcBackend, cplOdbcGetObjectRelations, hasResult, h]
    · simp [cplOdbcBackend, cplOdbcGetObjectRelations, hasResult, h]
  | getObjectProperties nsPrefix key | getRelationProperties nsPrefix key =>
    by_cases h : nsPrefix = none ∨ key = none
    · simp [cplOdbcBackend, cplOdbcGetObjectProperties, cplOdbcGetRelationProperties, hasResult,
        if_pos h]
    · simp [cplOdbcBackend, cplOdbcGetObjectProperties, cplOdbcGetRelationProperties, hasResult,
        if_neg h]
  | getPrefixes nsPrefix =>
    by_cases h : nsPrefix = none
    · simp [cplOdbcBackend, cplOdbcGetPrefixes, hasResult, h]
    · simp [cplOdbcBackend, cplOdbcGetPrefixes, hasResult, h]
  | _ => decide

end OperationPaths
