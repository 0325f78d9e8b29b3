import ProvCpl.EventTrace
import ProvCpl.OdbcOperation
import ProvCpl.ServerSpecs

/-! # Updates that are retried

The client cannot tell an execution that was lost from one whose acknowledgement was lost, and
retries both. The successful executions of an operation, with those that were committed before,
are an outcome of the abstract server. -/
namespace RetriedUpdate

open CplTypes ProvStore ProvServer StatementPool EarlyExit OdbcOperation EventTrace

variable {α : Type*}

structure Retried (op : Operation) (a : Attempt) : Prop where
  reconnects : a.Reconnects op
  connected : a.connect = .connected

structure Delivers (op : Operation) (p : Pattern) (a : Attempt) : Prop where
  binds : a.Binds op
  done : a.execute = .done
  read : (op.results.read p.reply).2.IsOk

def Attempt.committed (a : Attempt) : Bool := a.execute matches .failed true _

theorem cplSqlFetchSingleValue_isOk {r : Reply} (h : (cplSqlFetchSingleValue r).2.IsOk) :
    (cplSqlFetchSingleValue r).2 = .ok := by
  unfold cplSqlFetchSingleValue at h ⊢
  split at h
  · split at h <;> simp at h
  · split at h
    · simp at h
    · simp at h
    · split at h <;> simp_all

/-- How many of `j` attempts from `k` on were committed. -/
def lostCommits (p : Pattern) (k : ℕ) : ℕ → ℕ
  | 0 => 0
  | j + 1 => (if Attempt.committed (p.attempts k) then 1 else 0) + lostCommits p (k + 1) j

theorem lostCommits_eq_zero_iff (p : Pattern) (k j : ℕ) :
    lostCommits p k j = 0 ↔ ∀ i < j, Attempt.committed (p.attempts (k + i)) = false := by
  induction j generalizing k with
  | zero => simp [lostCommits]
  | succ j ih =>
    simp only [lostCommits, Nat.add_eq_zero_iff, ih, Nat.forall_lt_succ_left, Nat.add_zero]
    refine and_congr (by simp) (forall_congr' fun i => ?_)
    rw [Nat.add_right_comm, Nat.add_assoc]

section Loop

variable {op : Operation} {stmt : Store → Option (α × Store)} {p : Pattern}
  {handle : Option Handle} {left k j : ℕ} {c : Connection} {s : Store}

theorem replay_commit (stmt : Store → Option (α × Store)) (n : ℕ) (s : Store) :
    replay stmt n (commit stmt s) = replay stmt (1 + n) s := by
  rw [Nat.add_comm]
  rfl

theorem retry_of_delivers (h : Delivers op p (p.attempts k)) {v : α} {t : Store}
    (hs : stmt s = some (v, t)) : (op.retry stmt p handle left k c s).store = t ∧
      (op.retry stmt p handle left k c s).code = (op.results.read p.reply).2 ∧
      (op.retry stmt p handle left k c s).value = some v := by
  unfold Operation.retry
  simp [((p.attempts k).binds_iff op).mp h.binds, h.done, hs, h.read]

variable (stmt handle left c s) in
/-- A pass that is retried leaves what it committed to the next pass. -/
theorem retry_of_retried (h : Retried op (p.attempts k)) :
    ∃ c' uses, op.retry stmt p handle (left + 1) k c s =
      (op.retry stmt p handle left (k + 1) c'
        (if Attempt.committed (p.attempts k) then commit stmt s else s)).before uses := by
  obtain ⟨hb, committed, he⟩ := h.reconnects
  have hr := retry_of_reconnects stmt handle left c s hb he
  simp only [h.connected, cplOdbcReconnect, cplOdbcConnect, isOk_ok, if_true] at hr
  have hcom : Attempt.committed (p.attempts k) = committed := by
    cases committed <;> simp [Attempt.committed, he]
  rw [hcom]
  exact ⟨_, _, hr⟩

theorem replay_lostCommits (stmt : Store → Option (α × Store)) (p : Pattern) (k j : ℕ) (s : Store) :
    replay stmt (lostCommits p (k + 1) j)
        (if Attempt.committed (p.attempts k) then commit stmt s else s) =
      replay stmt (lostCommits p k (j + 1)) s := by
  cases hc : Attempt.committed (p.attempts k) with
  | true => simp [lostCommits, hc, replay_commit]
  | false => simp [lostCommits, hc]

variable (handle c) in
/-- After the retries the server has run the statement once for every lost commit. -/
theorem retry_delivers (hj : j ≤ left) (hr : ∀ i < j, Retried op (p.attempts (k + i)))
    (hd : Delivers op p (p.attempts (k + j))) {v : α} {t : Store}
    (hs : stmt (replay stmt (lostCommits p k j) s) = some (v, t)) :
    (op.retry stmt p handle left k c s).store = t ∧
      (op.retry stmt p handle left k c s).code = (op.results.read p.reply).2 ∧
      (op.retry stmt p handle left k c s).value = some v := by
  induction j generalizing left k c s with
  | zero => exact retry_of_delivers hd hs
  | succ j ih =>
    obtain ⟨left, rfl⟩ : ∃ l, left = l + 1 := ⟨left - 1, by omega⟩
    have hfirst : Retried op (p.attempts k) := hr 0 (Nat.succ_pos j)
    obtain ⟨c', uses, he⟩ := retry_of_retried stmt handle left c s hfirst
    rw [he]
    refine ih c' (by omega) (fun i hi => ?_) ?_ ?_
    · have := hr (i + 1) (by omega)
      rwa [Nat.add_comm i, ← Nat.add_assoc] at this
    · rwa [Nat.add_comm j, ← Nat.add_assoc] at hd
    · rwa [replay_lostCommits]

theorem retry_fails (hr : ¬ (Retried op (p.attempts k) ∧ left ≠ 0))
    (hd : ¬ (Delivers op p (p.attempts k) ∧ ∃ v t, stmt s = some (v, t))) :
    ¬ (op.retry stmt p handle left k c s).code.IsOk ∧
      (op.retry stmt p handle left k c s).value = none ∧
      ∃ n, (op.retry stmt p handle left k c s).store = replay stmt n s := by
  unfold Operation.retry
  dsimp only
  split
  · exact ⟨by simp, rfl, 0, rfl⟩
  · next hb =>
    have hb' := ((p.attempts k).binds_iff op).mpr hb
    split
    · next v t he hs =>
      have hread : ¬ (op.results.read p.reply).2.IsOk := fun h => hd ⟨⟨hb', he, h⟩, v, t, hs⟩
      exact ⟨hread, if_neg hread, 1, (commit_some hs).symm⟩
    · exact ⟨by simp, rfl, 0, rfl⟩
    · next committed states he =>
      have hn : ∃ n, (if committed then commit stmt s else s) = replay stmt n s := by
        cases committed
        · exact ⟨0, rfl⟩
        · exact ⟨1, rfl⟩
      split
      · next left hs =>
        have hne : (p.attempts k).connect ≠ .connected := fun hc =>
          hr ⟨⟨⟨hb', committed, (shouldReconnect_iff states).mp hs ▸ he⟩, hc⟩, by simp⟩
        have hconn : ¬ (cplOdbcReconnect (p.attempts k).connect c).1.IsOk := by
          cases hc : (p.attempts k).connect <;> simp_all [cplOdbcReconnect, cplOdbcConnect]
        rw [if_neg hconn]
        exact ⟨by simp, rfl, hn⟩
      · exact ⟨by simp, rfl, hn⟩

variable (op p) in
/-- A success is an acknowledged execution after attempts that were all retried; a failure
leaves the executions that were committed. -/
theorem retry_cases (stmt : Store → Option (α × Store)) (handle : Option Handle)
    (left k : ℕ) (c : Connection) (s : Store) :
    (∃ j ≤ left, (∀ i < j, Retried op (p.attempts (k + i))) ∧
      Delivers op p (p.attempts (k + j)) ∧
      ∃ v t, stmt (replay stmt (lostCommits p k j) s) = some (v, t)) ∨
    (¬ (op.retry stmt p handle left k c s).code.IsOk ∧
      (op.retry stmt p handle left k c s).value = none ∧
      ∃ n, (op.retry stmt p handle left k c s).store = replay stmt n s) := by
  induction left generalizing k c s with
  | zero =>
    by_cases hd : Delivers op p (p.attempts k) ∧ ∃ v t, stmt s = some (v, t)
    · exact Or.inl ⟨0, Nat.le_refl 0, by simp, hd.1, hd.2⟩
    · exact Or.inr (retry_fails (fun h => absurd rfl h.2) hd)
  | succ left ih =>
    by_cases hd : Delivers op p (p.attempts k) ∧ ∃ v t, stmt s = some (v, t)
    · exact Or.inl ⟨0, Nat.zero_le _, by simp, hd.1, hd.2⟩
    by_cases hr : Retried op (p.attempts k)
    · obtain ⟨c', uses, he⟩ := retry_of_retried stmt handle left c s hr
      rw [he]
      rcases ih (k + 1) c' (if Attempt.committed (p.attempts k) then commit stmt s else s) with
        ⟨j, hj, hjr, hjd, hjs⟩ | ⟨hcode, hvalue, n, hn⟩
      · refine Or.inl ⟨j + 1, by omega, ?_, ?_, ?_⟩
        · intro i hi
          cases i with
          | zero => exact hr
          | succ i =>
            have := hjr i (by omega)
            rwa [Nat.add_assoc, Nat.add_comm 1 i] at this
        · rwa [Nat.add_assoc, Nat.add_comm 1 j] at hjd
        · rwa [replay_lostCommits] at hjs
      · refine Or.inr ⟨hcode, hvalue, ?_⟩
        cases hc : Attempt.committed (p.attempts k) with
        | true => exact ⟨1 + n, by rw [← replay_commit]; simpa [hc, Ran.before] using hn⟩
        | false => exact ⟨n, by simpa [hc, Ran.before] using hn⟩
    · exact Or.inr (retry_fails (fun h => absurd h.1 hr) hd)

end Loop

section Operation

variable {op : Operation} {stmt : Store → Option (α × Store)} {p : Pattern} {c : Connection}
  {s : Store}

/-- An execution that was committed and lost is retried until one is acknowledged. -/
def Duplicated (op : Operation) (p : Pattern) : Prop :=
  ∃ j ≤ 3, (∀ i < j, Retried op (p.attempts i)) ∧ Delivers op p (p.attempts j) ∧
    ∃ i < j, Attempt.committed (p.attempts i) = true

variable (stmt p c s) in
/-- An operation that reports a single value is one of the abstract server, whose outcome counts
the commits that were lost. -/
theorem run_refines_execute (hop : op.results = .single) : ∃ o : Outcome, ∀ (srv : Server) n,
    srv.outcome n = o → srv.execute (fun _ => stmt) ⟨s, n⟩ =
      (((op.run stmt p c s).code, (op.run stmt p c s).value),
        ⟨(op.run stmt p c s).store, n + 1⟩) := by
  simp only [Operation.run]
  generalize (cplAcquireStmt (c.arrays op.pool).slots) = acquired
  rcases retry_cases op p stmt acquired.1 3 0
    (c.setSlots op.pool acquired.2.1) s with ⟨j, hj, hr, hd, v, t, hs⟩ | ⟨hcode, hvalue, n, hn⟩
  · obtain ⟨hstore, hcode, hvalue⟩ := retry_delivers acquired.1
      (c.setSlots op.pool acquired.2.1) hj hr hd hs
    have hok : (op.results.read p.reply).2 = .ok := by
      have := hd.read
      rw [hop, Results.read] at this ⊢
      exact cplSqlFetchSingleValue_isOk this
    refine ⟨⟨lostCommits p 0 j, none⟩, fun srv m ho => ?_⟩
    simp only [Server.execute, ho, hs, hstore, hcode, hvalue, hok]
  · refine ⟨⟨n, some ⟨_, hcode⟩⟩, fun srv m ho => ?_⟩
    simp only [Server.execute, ho, hvalue, hn]

def AddsRow {β : Type*} (rows : Store → List β) (ident : β → α)
    (stmt : Store → Option (α × Store)) : Prop :=
  ∀ s, ∃ row t, stmt s = some (ident row, t) ∧ rows t = rows s ++ [row]

variable {β : Type*} {rows : Store → List β} {ident : β → α}

theorem AddsRow.length_replay (h : AddsRow rows ident stmt) (n : ℕ) (s : Store) :
    (rows (replay stmt n s)).length = (rows s).length + n := by
  induction n generalizing s with
  | zero => rfl
  | succ n ih =>
    obtain ⟨row, t, hs, ht⟩ := h s
    rw [replay, hs, Option.map_some, Option.getD_some, ih, ht, List.length_append]
    simp only [List.length_cons, List.length_nil]
    omega

/-- A success has added one row, the one reported, exactly when nothing was duplicated. -/
theorem run_adds_once_iff (h : AddsRow rows ident stmt) :
    ((op.run stmt p c s).code.IsOk → ∃ row, rows (op.run stmt p c s).store = rows s ++ [row] ∧
      (op.run stmt p c s).value = some (ident row)) ↔ ¬ Duplicated op p := by
  simp only [Operation.run]
  generalize (cplAcquireStmt (c.arrays op.pool).slots) = acquired
  constructor
  · rintro hone ⟨j, hj, hr, hd, i, hi, hcom⟩
    obtain ⟨row, t, hs, ht⟩ := h (replay stmt (lostCommits p 0 j) s)
    obtain ⟨hstore, hcode, -⟩ := retry_delivers acquired.1
      (c.setSlots op.pool acquired.2.1) hj (by simpa using hr) (by simpa using hd) hs
    obtain ⟨row', hrow, -⟩ := hone (hcode ▸ hd.read)
    have hlen := congrArg List.length (ht.symm.trans ((congrArg rows hstore).symm.trans hrow))
    have hzero : lostCommits p 0 j = 0 := by
      simp only [List.length_append, h.length_replay, List.length_singleton] at hlen
      omega
    have := (lostCommits_eq_zero_iff p 0 j).mp hzero i hi
    rw [Nat.zero_add, hcom] at this
    cases this
  · intro hnone hok
    rcases retry_cases op p stmt acquired.1 3 0
      (c.setSlots op.pool acquired.2.1) s with ⟨j, hj, hr, hd, -⟩ | ⟨hcode, -⟩
    · have hzero : lostCommits p 0 j = 0 := (lostCommits_eq_zero_iff p 0 j).mpr fun i hi => by
        by_contra hcom
        exact hnone ⟨j, hj, by simpa using hr, by simpa using hd, i, hi, by simpa using hcom⟩
      obtain ⟨row, t, hs, ht⟩ := h s
      obtain ⟨hstore, -, hvalue⟩ := retry_delivers acquired.1
        (c.setSlots op.pool acquired.2.1) hj hr hd (by rwa [hzero])
      exact ⟨row, by rw [hstore, ht], hvalue⟩
    · exact absurd hok hcode

end Operation

section Calls

def createObjectStmt (nsPrefix name : String) (type : ℤ) (now : ℕ) :
    Store → Option (ℕ × Store) :=
  fun s => some (s.nextObject, s.insertObject nsPrefix name type now)

def addRelationStmt (fromId toId : ℕ) (type : ℤ) : Store → Option (ℕ × Store) :=
  fun s => some (s.nextRelation, s.insertRelation fromId toId type)

theorem createObjectStmt_addsRow (p n : String) (t : ℤ) (now : ℕ) :
    AddsRow Store.objects ObjectRow.id (createObjectStmt p n t now) :=
  fun s => ⟨⟨s.nextObject, some p, some n, some t, now⟩, _, rfl, rfl⟩

theorem addRelationStmt_addsRow (f o : ℕ) (t : ℤ) :
    AddsRow Store.relations RelationRow.id (addRelationStmt f o t) :=
  fun s => ⟨⟨s.nextRelation, some f, some o, some t⟩, _, rfl, rfl⟩

def updateCall (call : BackendCall) (stmt : Store → Option (ℕ × Store)) (p : Pattern) :
    Call Session (ReturnCode × Option ℕ) := fun s =>
  let ran := call.operation.run stmt p s.connection s.store
  ((ran.code, ran.value), ran.session)

def cplOdbcCreateObject (p : Pattern) (now : ℕ) (nsPrefix name : String) (type : ℤ) :
    Call Session (ReturnCode × Option ℕ) :=
  updateCall .createObject (createObjectStmt nsPrefix name type now) p

def cplOdbcAddRelation (p : Pattern) (fromId toId : ℕ) (type : ℤ) :
    Call Session (ReturnCode × Option ℕ) :=
  updateCall .addRelation (addRelationStmt fromId toId type) p

inductive Update where
  | createObject (nsPrefix name : Option String) (type : ℤ) (now : ℕ)
  | addRelation (fromId toId : ℕ) (type : ℤ)

structure Event where
  update : Update
  pattern : Pattern

def Event.run (e : Event) : Call Session (ReturnCode × Option ℕ) :=
  match e.update with
  | .createObject p n t now => cplCreateObject (cplOdbcCreateObject e.pattern now) p n t
  | .addRelation f o t => cplAddRelation (cplOdbcAddRelation e.pattern) f o t

def next (s : Session) (e : Event) : Session := (e.run s).2

/-- A call that returns success has added exactly one row, the row whose id it returns. -/
def AddsItsRow (s : Session) (e : Event) : Prop :=
  (e.run s).1.1.IsOk →
    match e.update with
    | .createObject .. => ∃ row, (e.run s).2.store.objects = s.store.objects ++ [row] ∧
        (e.run s).1.2 = some row.id
    | .addRelation .. => ∃ row, (e.run s).2.store.relations = s.store.relations ++ [row] ∧
        (e.run s).1.2 = some row.id

def Update.Accepted : Update → Prop
  | .createObject p n t _ => p.isSome ∧ n.isSome ∧ EnsureOType t
  | .addRelation f o t => f ≠ 0 ∧ o ≠ 0 ∧ EnsureRType t

def Update.operation : Update → Operation
  | .createObject .. => BackendCall.createObject.operation
  | .addRelation .. => BackendCall.addRelation.operation

/-- The front end reports what the backend operation reports, up to the code of a success. -/
structure PassesOn (front back : (ReturnCode × Option ℕ) × Session) : Prop where
  session : front.2 = back.2
  isOk : front.1.1.IsOk ↔ back.1.1.IsOk
  id : front.1.1.IsOk → front.1.2 = back.1.2

theorem createObject_passesOn {p n : String} {t : ℤ} (ht : EnsureOType t) (now : ℕ) (q : Pattern)
    (s : Session) : PassesOn (Event.run ⟨.createObject (some p) (some n) t now, q⟩ s)
      (cplOdbcCreateObject q now p n t s) := by
  simp only [Event.run, cplCreateObject, ht, if_true]
  split
  · next hok => exact ⟨rfl, by simp [hok], fun _ => rfl⟩
  · next hok => exact ⟨rfl, by simp [hok], fun h => absurd h hok⟩

theorem addRelation_passesOn {f o : ℕ} {t : ℤ} (hf : f ≠ 0) (ho : o ≠ 0) (ht : EnsureRType t)
    (q : Pattern) (s : Session) : PassesOn (Event.run ⟨.addRelation f o t, q⟩ s)
      (cplOdbcAddRelation q f o t s) := by
  simp only [Event.run, cplAddRelation, cplNone, hf, ho, ht, not_true, or_self, if_false]
  split
  · next hok => exact ⟨rfl, by simp [hok], fun _ => rfl⟩
  · next hok => exact ⟨rfl, by simp [hok], fun h => absurd h hok⟩

theorem PassesOn.adds_once_iff {β : Type*} {rows : Store → List β} {ident : β → ℕ}
    {call : BackendCall} {stmt : Store → Option (ℕ × Store)} {q : Pattern} {s : Session}
    {front : (ReturnCode × Option ℕ) × Session} (h : PassesOn front (updateCall call stmt q s))
    (hadd : AddsRow rows ident stmt) :
    (front.1.1.IsOk → ∃ row, rows front.2.store = rows s.store ++ [row] ∧
      front.1.2 = some (ident row)) ↔ ¬ Duplicated call.operation q := by
  rw [← run_adds_once_iff (c := s.connection) (s := s.store) hadd]
  constructor
  · intro hone hok
    obtain ⟨row, hrow, hid⟩ := hone (h.isOk.mpr hok)
    exact ⟨row, by rwa [h.session] at hrow, (h.id (h.isOk.mpr hok)).symm.trans hid⟩
  · intro hone hok
    obtain ⟨row, hrow, hid⟩ := hone (h.isOk.mp hok)
    exact ⟨row, by rwa [h.session], (h.id hok).trans hid⟩

theorem not_accepted_run {e : Event} (h : ¬ e.update.Accepted) (s : Session) :
    (e.run s).1.1 = .invalidArgument := by
  obtain ⟨u, q⟩ := e
  cases u with
  | createObject p n t now =>
    cases p with
    | none => rfl
    | some p =>
      cases n with
      | none => rfl
      | some n =>
        have ht : ¬ EnsureOType t := fun ht => h ⟨rfl, rfl, ht⟩
        simp [Event.run, cplCreateObject, ht]
  | addRelation f o t =>
    have hc : f = cplNone ∨ o = cplNone ∨ ¬ EnsureRType t := by
      by_contra hc
      simp only [cplNone, not_or, not_not] at hc
      exact h hc
    simp only [Event.run, cplAddRelation, if_pos hc]

theorem addsItsRow_iff (s : Session) (e : Event) :
    AddsItsRow s e ↔ ¬ (e.update.Accepted ∧ Duplicated e.update.operation e.pattern) := by
  by_cases ha : e.update.Accepted
  · rw [and_iff_right ha]
    obtain ⟨u, q⟩ := e
    cases u with
    | createObject p n t now =>
      obtain ⟨hp, hn, ht⟩ := ha
      obtain ⟨p, rfl⟩ := Option.isSome_iff_exists.mp hp
      obtain ⟨n, rfl⟩ := Option.isSome_iff_exists.mp hn
      exact (createObject_passesOn ht now q s).adds_once_iff (createObjectStmt_addsRow p n t now)
    | addRelation f o t =>
      exact (addRelation_passesOn ha.1 ha.2.1 ha.2.2 q s).adds_once_iff
        (addRelationStmt_addsRow f o t)
  · refine iff_of_true (fun hok => ?_) fun h => ha h.1
    rw [not_accepted_run ha] at hok
    exact absurd hok not_isOk_invalidArgument

def Update.onServer (srv : Server) : Update → Call World (ReturnCode × Option ℕ)
  | .createObject p n t _ => srv.createObject p n t
  | .addRelation f o t => srv.addRelation f o t

section FrontEnd

variable {σ τ : Type*} {R : σ → τ → Prop} {w : σ} {u : τ}

theorem cplCreateObject_agree {db : String → String → ℤ → Call σ (ReturnCode × Option ℕ)}
    {db' : String → String → ℤ → Call τ (ReturnCode × Option ℕ)} {p n : String} {t : ℤ}
    (hw : R w u)
    (h : (db p n t w).1 = (db' p n t u).1 ∧ R (db p n t w).2 (db' p n t u).2) :
    (cplCreateObject db (some p) (some n) t w).1 = (cplCreateObject db' (some p) (some n) t u).1 ∧
      R (cplCreateObject db (some p) (some n) t w).2
        (cplCreateObject db' (some p) (some n) t u).2 := by
  unfold cplCreateObject
  dsimp only
  split
  · obtain ⟨hout, hr⟩ := h
    simp only [hout]
    split <;> exact ⟨rfl, hr⟩
  · exact ⟨rfl, hw⟩

theorem cplAddRelation_agree {db : ℕ → ℕ → ℤ → Call σ (ReturnCode × Option ℕ)}
    {db' : ℕ → ℕ → ℤ → Call τ (ReturnCode × Option ℕ)} {f o : ℕ} {t : ℤ} (hw : R w u)
    (h : (db f o t w).1 = (db' f o t u).1 ∧ R (db f o t w).2 (db' f o t u).2) :
    (cplAddRelation db f o t w).1 = (cplAddRelation db' f o t u).1 ∧
      R (cplAddRelation db f o t w).2 (cplAddRelation db' f o t u).2 := by
  unfold cplAddRelation
  split
  · exact ⟨rfl, hw⟩
  · obtain ⟨hout, hr⟩ := h
    simp only [hout]
    split <;> exact ⟨rfl, hr⟩

end FrontEnd

def SameStore (w : World) (s : Session) : Prop := w.store = s.store

/-- Every call of a run is a call of the front end to a server with one outcome. -/
theorem run_refines_server (e : Event) (s : Session) : ∃ srv : Server, srv.attached = true ∧
    (e.update.onServer srv ⟨s.store, 0⟩).1 = (e.run s).1 ∧
    SameStore (e.update.onServer srv ⟨s.store, 0⟩).2 (e.run s).2 := by
  obtain ⟨u, q⟩ := e
  cases u with
  | createObject p n t now =>
    cases p with
    | none => exact ⟨.ideal, rfl, rfl, rfl⟩
    | some p =>
      cases n with
      | none => exact ⟨.ideal, rfl, rfl, rfl⟩
      | some n =>
        obtain ⟨out, ho⟩ := run_refines_execute (createObjectStmt p n t now) q
          s.connection s.store (rfl : BackendCall.createObject.operation.results = .single)
        let srv : Server := { Server.ideal with outcome := fun _ => out, clock := fun _ => now }
        have hdb : srv.cplOdbcCreateObject p n t ⟨s.store, 0⟩ = _ := ho srv 0 rfl
        have hag : (srv.cplOdbcCreateObject p n t ⟨s.store, 0⟩).1 =
            (cplOdbcCreateObject q now p n t s).1 ∧
            SameStore (srv.cplOdbcCreateObject p n t ⟨s.store, 0⟩).2
              (cplOdbcCreateObject q now p n t s).2 :=
          hdb ▸ ⟨rfl, rfl⟩
        exact ⟨srv, rfl, cplCreateObject_agree (R := SameStore) (w := ⟨s.store, 0⟩) rfl hag⟩
  | addRelation f o t =>
    obtain ⟨out, ho⟩ := run_refines_execute (addRelationStmt f o t) q
      s.connection s.store (rfl : BackendCall.addRelation.operation.results = .single)
    let srv : Server := { Server.ideal with outcome := fun _ => out }
    have hdb : srv.cplOdbcAddRelation f o t ⟨s.store, 0⟩ = _ := ho srv 0 rfl
    have hag : (srv.cplOdbcAddRelation f o t ⟨s.store, 0⟩).1 =
        (cplOdbcAddRelation q f o t s).1 ∧
        SameStore (srv.cplOdbcAddRelation f o t ⟨s.store, 0⟩).2 (cplOdbcAddRelation q f o t s).2 :=
      hdb ▸ ⟨rfl, rfl⟩
    exact ⟨srv, rfl, cplAddRelation_agree (R := SameStore) (w := ⟨s.store, 0⟩) rfl hag⟩

/-- In a run every success has added its one row exactly when no accepted call has an execution
that was committed, lost and then retried to an acknowledgement. -/
theorem updates_once_iff (s : Session) (events : List Event) :
    EachStep next AddsItsRow s events ↔
      ∀ e ∈ events, ¬ (e.update.Accepted ∧ Duplicated e.update.operation e.pattern) := by
  induction events generalizing s with
  | nil => simp [EachStep]
  | cons e events ih =>
    rw [List.forall_mem_cons, ← addsItsRow_iff s e, ← ih (next s e)]
    rfl

/-- The acknowledgement of the first execution is lost; the retry adds a second row. -/
theorem lost_acknowledgement_adds_twice :
    ¬ EachStep next AddsItsRow ⟨.first, .fresh⟩
      [⟨.createObject (some "ex") (some "alice") cplAgent 0, lostOnce true .connected⟩] := by
  rintro ⟨h, -⟩
  obtain ⟨row, hrow, -⟩ := h (by decide +kernel)
  have hlen := congrArg List.length hrow
  rw [List.length_append, List.length_singleton] at hlen
  exact absurd hlen (by decide +kernel)

end Calls

end RetriedUpdate
