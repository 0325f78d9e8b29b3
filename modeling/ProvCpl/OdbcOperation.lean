import ProvCpl.ProvServer
import ProvCpl.StatementPool

/-! # Operations of the ODBC backend

Every operation takes a handle from its pool, binds the parameters, executes, reads the result
and puts the handle back. An execution that fails with the one record 08S01 reconnects and
jumps back to the binding, at most three times. A connection is a generation that tags the
handles and the slot arrays allocated under it; freed memory keeps its contents. The driver's
answers are a pattern. -/
namespace OdbcOperation

open CplTypes ProvStore StatementPool

inductive SqlReturn where
  | success
  | successWithInfo
  | noData
  | error
  | invalidHandle
  | other (code : ℤ)
  deriving DecidableEq, Repr

/-- `SQL_SUCCEEDED`. -/
def SqlReturn.Succeeded (ret : SqlReturn) : Prop := ret = .success ∨ ret = .successWithInfo

instance : DecidablePred SqlReturn.Succeeded := fun _ => inferInstanceAs (Decidable (_ ∨ _))

inductive Pool where
  | createSession
  | createObject
  | lookupObjectNt
  | lookupObjectT
  | lookupObjectNtExt
  | lookupObjectTExt
  | addRelation
  | lookupRelation
  | lookupObjectPropertyWildcard
  | addObjectProperty
  | addRelationProperty
  | addPrefix
  | getSessionInfo
  | getAllObjectsNt
  | getAllObjectsT
  | getObjectInfo
  | getObjectAncestors
  | getObjectDescendants
  | getObjectProperties
  | getObjectPropertiesWithKey
  | lookupObjectByProperty
  | getRelationProperties
  | getRelationPropertiesWithKey
  | hasImmediateAncestor
  | getBundleObjects
  | getBundleRelations
  | getPrefixes
  | getPrefixesWithKey
  deriving DecidableEq, Repr

structure Handle where
  generation : ℕ
  pool : Pool
  index : ℕ
  deriving DecidableEq, Repr

structure SlotArray where
  generation : ℕ
  slots : List (Option Handle)
  deriving DecidableEq, Repr

/-- `opened` counts connections; `live` is the generation in use, none when disconnected. -/
structure Connection where
  opened : ℕ
  live : Option ℕ
  arrays : Pool → SlotArray

def allocStmt (generation : ℕ) (pool : Pool) : SlotArray :=
  ⟨generation, (List.range cplStmtMax).map fun i => some ⟨generation, pool, i⟩⟩

inductive ConnectOutcome where
  | connected
  | noMemory
  | refused
  | notPrepared
  deriving DecidableEq, Repr

/-- The failure exits leave the arrays freed. `SQLAllocHandle` and the 28 mallocs of `ALLOC_STMT`,
none of which the source checks, are taken to succeed, here and when it reconnects. -/
def cplOdbcConnect : ConnectOutcome → Connection → ReturnCode × Connection
  | .connected, c => (.ok, ⟨c.opened + 1, some (c.opened + 1), allocStmt (c.opened + 1)⟩)
  | .noMemory, c => (.insufficientResources, c)
  | .refused, c => (.dbConnectionError, c)
  | .notPrepared, c => (.prepareStatementError, ⟨c.opened + 1, none, allocStmt (c.opened + 1)⟩)

def cplOdbcDisconnect (c : Connection) : Connection := { c with live := none }

def cplOdbcReconnect (o : ConnectOutcome) (c : Connection) : ReturnCode × Connection :=
  cplOdbcConnect o (cplOdbcDisconnect c)

def Connection.setSlots (c : Connection) (pool : Pool) (slots : List (Option Handle)) :
    Connection :=
  { c with arrays := Function.update c.arrays pool { c.arrays pool with slots := slots } }

/-- What a connection with no other call in progress looks like after it was opened. -/
def Connection.first : Connection := ⟨0, some 0, allocStmt 0⟩

inductive OdbcFunction where
  | bindParameter
  | execute
  | bindCol
  | fetch
  | getData
  | closeCursor
  deriving DecidableEq, Repr

/-- A handle or an array in use, and the generation that is live at that moment. -/
inductive Use where
  | handle (f : OdbcFunction) (stmt : Option Handle) (live : Option ℕ)
  | array (generation : ℕ) (live : Option ℕ)
  deriving DecidableEq, Repr

def usesOf (stmt : Option Handle) (c : Connection) (fs : List OdbcFunction) : List Use :=
  fs.map fun f => .handle f stmt c.live

/-- An execution is acknowledged, or reported as failed with the states of its records. -/
inductive Execution where
  | done
  | failed (committed : Bool) (states : List String)
  deriving DecidableEq, Repr

def shouldReconnectDueToOdbcError : List String → Bool
  | [state] => state = "08S01"
  | _ => false

/-- One passage from the retry label, and the connect that may follow it. -/
structure Attempt where
  bind : ℕ → Bool
  execute : Execution
  connect : ConnectOutcome

inductive Column where
  | value
  | null
  | error
  deriving DecidableEq, Repr

/-- What the result set yields: its columns, its rows, and how its end is reported. -/
structure Reply where
  bindCol : ℕ → Bool
  column : ℕ → Column
  rows : ℕ
  ended : Bool
  close : Bool

structure Pattern where
  attempts : ℕ → Attempt
  reply : Reply

inductive Results where
  | empty
  | single
  | test
  | rows (columns : ℕ) (noRows : ReturnCode)
  | info (nullable : List Bool)
  deriving DecidableEq, Repr

/-- `cpl_sql_fetch_single_value` as called with its defaults. -/
def cplSqlFetchSingleValue (r : Reply) : List OdbcFunction × ReturnCode :=
  if r.rows = 0 then ([.fetch, .closeCursor], if r.ended then .notFound else .statementError)
  else
    match r.column 1 with
    | .error => ([.fetch, .getData, .closeCursor], .statementError)
    | .null => ([.fetch, .getData, .closeCursor], .notFound)
    | .value =>
      if r.close then ([.fetch, .getData, .closeCursor], .ok)
      else ([.fetch, .getData, .closeCursor, .closeCursor], .statementError)

/-- The columns of `CPL_SQL_SIMPLE_FETCH`; a failure has closed the cursor. -/
def cplSqlSimpleFetch (r : Reply) : ℕ → List Bool → List OdbcFunction × Option ReturnCode
  | _, [] => ([], none)
  | i, nullable :: columns =>
    match r.column i, nullable with
    | .error, _ => ([.getData, .closeCursor], some .statementError)
    | .null, false => ([.getData, .closeCursor], some .notFound)
    | .null, true | .value, _ =>
      let rest := cplSqlSimpleFetch r (i + 1) columns
      (.getData :: rest.1, rest.2)

/-- The functions called and the code, before the callback of a listing. -/
def Results.read (r : Reply) : Results → List OdbcFunction × ReturnCode
  | .empty => ([], .ok)
  | .single => cplSqlFetchSingleValue r
  | .test =>
    let read := cplSqlFetchSingleValue r
    (read.1, if read.2 = .notFound then .ok else read.2)
  | .rows columns noRows =>
    match (List.range columns).find? fun i => !r.bindCol i with
    | some i => (List.replicate (i + 1) .bindCol ++ [.closeCursor], .statementError)
    | none =>
      (List.replicate columns .bindCol ++ List.replicate (r.rows + 1) .fetch ++ [.closeCursor],
        if r.ended && r.close then (if r.rows = 0 then noRows else .ok) else .statementError)
  | .info nullable =>
    if r.rows = 0 then ([.fetch, .closeCursor], if r.ended then .notFound else .statementError)
    else
      match cplSqlSimpleFetch r 1 nullable with
      | (fs, some code) => (.fetch :: fs, code)
      | (fs, none) => (.fetch :: fs ++ [.closeCursor], if r.close then .ok else .statementError)

structure Operation where
  pool : Pool
  params : ℕ
  results : Results

/-- The operations, with the arguments that choose a pool. -/
inductive BackendCall where
  | createSession
  | createObject
  | lookupObject (type : ℤ)
  | lookupObjectExt (type : ℤ)
  | addRelation
  | hasImmediateAncestor
  | addObjectProperty
  | addRelationProperty
  | lookupRelation
  | lookupObjectPropertyWildcard
  | addPrefix
  | getSessionInfo
  | getAllObjects (type : ℤ)
  | getObjectInfo
  | getObjectRelations (direction : ℤ)
  | getObjectProperties (nsPrefix key : Option String)
  | lookupObjectByProperty
  | getRelationProperties (nsPrefix key : Option String)
  | getPrefixes (nsPrefix : Option String)
  | getBundleObjects
  | getBundleRelations

def BackendCall.operation : BackendCall → Operation
  | .createSession => ⟨.createSession, 5, .single⟩
  | .createObject => ⟨.createObject, 3, .single⟩
  | .lookupObject type =>
    if type = 0 then ⟨.lookupObjectNt, 2, .single⟩ else ⟨.lookupObjectT, 3, .single⟩
  | .lookupObjectExt type =>
    if type = 0 then ⟨.lookupObjectNtExt, 2, .rows 2 .notFound⟩
    else ⟨.lookupObjectTExt, 3, .rows 2 .notFound⟩
  | .addRelation => ⟨.addRelation, 3, .single⟩
  | .hasImmediateAncestor => ⟨.hasImmediateAncestor, 2, .test⟩
  | .addObjectProperty => ⟨.addObjectProperty, 5, .empty⟩
  | .addRelationProperty => ⟨.addRelationProperty, 5, .empty⟩
  | .lookupRelation => ⟨.lookupRelation, 3, .single⟩
  | .lookupObjectPropertyWildcard => ⟨.lookupObjectPropertyWildcard, 1, .single⟩
  | .addPrefix => ⟨.addPrefix, 3, .empty⟩
  | .getSessionInfo => ⟨.getSessionInfo, 1, .info (List.replicate 6 false)⟩
  | .getAllObjects type =>
    if type = 0 then ⟨.getAllObjectsNt, 1, .rows 5 .noData⟩
    else ⟨.getAllObjectsT, 2, .rows 5 .noData⟩
  | .getObjectInfo => ⟨.getObjectInfo, 1, .info [false, true, true, false]⟩
  | .getObjectRelations direction =>
    if direction = cplDAncestors then ⟨.getObjectAncestors, 1, .rows 3 .noData⟩
    else ⟨.getObjectDescendants, 1, .rows 3 .noData⟩
  | .getObjectProperties nsPrefix key =>
    if nsPrefix = none ∨ key = none then ⟨.getObjectProperties, 2, .rows 4 .noData⟩
    else ⟨.getObjectPropertiesWithKey, 4, .rows 4 .noData⟩
  | .lookupObjectByProperty => ⟨.lookupObjectByProperty, 4, .rows 1 .notFound⟩
  | .getRelationProperties nsPrefix key =>
    if nsPrefix = none ∨ key = none then ⟨.getRelationProperties, 2, .rows 4 .noData⟩
    else ⟨.getRelationPropertiesWithKey, 4, .rows 4 .noData⟩
  | .getPrefixes nsPrefix =>
    if nsPrefix = none then ⟨.getPrefixes, 1, .rows 3 .noData⟩
    else ⟨.getPrefixesWithKey, 2, .rows 3 .noData⟩
  | .getBundleObjects => ⟨.getBundleObjects, 1, .rows 5 .noData⟩
  | .getBundleRelations => ⟨.getBundleRelations, 1, .rows 4 .noData⟩

structure Ran (α : Type*) where
  connection : Connection
  store : Store
  uses : List Use
  code : ReturnCode
  value : Option α

structure Session where
  connection : Connection
  store : Store

variable {α : Type*}

def Ran.session (ran : Ran α) : Session := ⟨ran.connection, ran.store⟩

def Ran.before (uses : List Use) (ran : Ran α) : Ran α := { ran with uses := uses ++ ran.uses }

/-- The store after the server has run a statement; a rejected one changes nothing. -/
def commit (stmt : Store → Option (α × Store)) (s : Store) : Store :=
  ((stmt s).map Prod.snd).getD s

/-- From the retry label to a release, with the retries that are left. -/
def Operation.retry (op : Operation) (stmt : Store → Option (α × Store)) (p : Pattern)
    (handle : Option Handle) : ℕ → ℕ → Connection → Store → Ran α
  | left, k, c, s =>
    let a := p.attempts k
    match (List.range op.params).find? fun i => !a.bind i with
    | some i =>
      ⟨c, s, usesOf handle c (List.replicate (i + 1) .bindParameter), .statementError, none⟩
    | none =>
      let uses := usesOf handle c (List.replicate op.params .bindParameter ++ [.execute])
      match a.execute, stmt s with
      | .done, some (v, t) =>
        let read := op.results.read p.reply
        ⟨c, t, uses ++ usesOf handle c read.1, read.2, if read.2.IsOk then some v else none⟩
      | .done, none => ⟨c, s, uses, .statementError, none⟩
      | .failed committed states, _ =>
        let t := if committed then commit stmt s else s
        match left, shouldReconnectDueToOdbcError states with
        | left + 1, true =>
          let (r, c') := cplOdbcReconnect a.connect c
          if r.IsOk then (op.retry stmt p handle left (k + 1) c' t).before uses
          else ⟨c', t, uses, .statementError, none⟩
        | _, _ => ⟨c, t, uses, .statementError, none⟩

/-- `SQL_START` and the operation; every way out of it releases the handle. -/
def Operation.run (op : Operation) (stmt : Store → Option (α × Store)) (p : Pattern)
    (c : Connection) (s : Store) : Ran α :=
  let acquired := cplAcquireStmt (c.arrays op.pool).slots
  let ran := op.retry stmt p acquired.1 3 0 (c.setSlots op.pool acquired.2.1) s
  let array := ran.connection.arrays op.pool
  { ran with
    connection := ran.connection.setSlots op.pool (cplReleaseStmt acquired.1 array.slots).1
    uses := .array (c.arrays op.pool).generation c.live :: ran.uses ++
      [.array array.generation ran.connection.live] }

/-- The first attempt to leave the loop is known by its binding and its execution. -/
def Attempt.Binds (op : Operation) (a : Attempt) : Prop := ∀ i < op.params, a.bind i = true

/-- The execution fails in the way that makes the operation reconnect. -/
def Attempt.Reconnects (op : Operation) (a : Attempt) : Prop :=
  a.Binds op ∧ ∃ committed, a.execute = .failed committed ["08S01"]

instance (op : Operation) (a : Attempt) : Decidable (a.Binds op) :=
  inferInstanceAs (Decidable (∀ i < op.params, a.bind i = true))

theorem shouldReconnect_iff (states : List String) :
    shouldReconnectDueToOdbcError states = true ↔ states = ["08S01"] := by
  unfold shouldReconnectDueToOdbcError
  split
  · simp
  · next h => simpa using fun hs => h _ hs

theorem Attempt.binds_iff (op : Operation) (a : Attempt) :
    a.Binds op ↔ (List.range op.params).find? (fun i => !a.bind i) = none := by
  simp [Attempt.Binds]

section Passes

variable {op : Operation} {stmt : Store → Option (α × Store)} {p : Pattern}
  {handle : Option Handle} {left k : ℕ} {c : Connection} {s : Store}

@[simp] theorem commit_some {v : α} {t : Store} (h : stmt s = some (v, t)) :
    commit stmt s = t := by
  simp [commit, h]

variable (stmt handle left c s) in
/-- A pass that does not reconnect ends the loop and keeps to the handle. -/
theorem retry_of_not_reconnects (h : ¬ (p.attempts k).Reconnects op) :
    (op.retry stmt p handle left k c s).connection = c ∧ ∃ f fs,
      (op.retry stmt p handle left k c s).uses = usesOf handle c (f :: fs) := by
  have hcons : ∀ fs, ∃ f gs, List.replicate op.params OdbcFunction.bindParameter ++
      OdbcFunction.execute :: fs = f :: gs := fun fs =>
    List.exists_cons_of_ne_nil (by simp)
  unfold Operation.retry
  dsimp only
  split
  · next i _ => exact ⟨rfl, .bindParameter, List.replicate i .bindParameter, rfl⟩
  · next hb =>
    split
    · obtain ⟨f, gs, hf⟩ := hcons (op.results.read p.reply).1
      refine ⟨rfl, f, gs, ?_⟩
      simp [usesOf, ← hf]
    · obtain ⟨f, gs, hf⟩ := hcons []
      exact ⟨rfl, f, gs, by rw [← hf]⟩
    · next committed states he =>
      split
      · next _ hs =>
        exact absurd ⟨(p.attempts k).binds_iff op |>.mpr hb, committed,
          (shouldReconnect_iff states).mp hs ▸ he⟩ h
      · obtain ⟨f, gs, hf⟩ := hcons []
        exact ⟨rfl, f, gs, by rw [← hf]⟩

variable (op stmt p handle left k c s) in
theorem retry_first_use : ∃ f, .handle f handle c.live ∈
    (op.retry stmt p handle left k c s).uses := by
  unfold Operation.retry
  dsimp only
  split
  · exact ⟨.bindParameter, by simp [usesOf]⟩
  · refine ⟨.execute, ?_⟩
    split
    · simp [usesOf]
    · simp [usesOf]
    · split
      · split <;> simp [usesOf, Ran.before]
      · simp [usesOf]

variable (stmt handle left c s) in
/-- A pass that reconnects starts over with the same handle, or gives up when it cannot. -/
theorem retry_of_reconnects (h : (p.attempts k).Binds op) {committed : Bool}
    (he : (p.attempts k).execute = .failed committed ["08S01"]) :
    op.retry stmt p handle (left + 1) k c s =
      let t := if committed then commit stmt s else s
      let uses := usesOf handle c (List.replicate op.params .bindParameter ++ [.execute])
      let again := cplOdbcReconnect (p.attempts k).connect c
      if again.1.IsOk then (op.retry stmt p handle left (k + 1) again.2 t).before uses
      else ⟨again.2, t, uses, .statementError, none⟩ := by
  conv_lhs => unfold Operation.retry
  simp only [((p.attempts k).binds_iff op).mp h, he]
  cases stmt s <;> rfl

end Passes

def answered : Reply := ⟨fun _ => true, fun _ => .value, 1, true, true⟩

def lostOnce (committed : Bool) (o : ConnectOutcome) : Pattern where
  attempts := fun k =>
    if k = 0 then ⟨fun _ => true, .failed committed ["08S01"], o⟩
    else ⟨fun _ => true, .done, .connected⟩
  reply := answered

def unbroken : Pattern := ⟨fun _ => ⟨fun _ => true, .done, .connected⟩, answered⟩

end OdbcOperation
