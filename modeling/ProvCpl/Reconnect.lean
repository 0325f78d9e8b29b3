import ProvCpl.EventTrace
import ProvCpl.OdbcOperation

/-! # Handles after a reconnect

A reconnect frees the arrays and allocates new ones while the operation keeps the handle that
it took before. From a connection in order an operation uses only what is allocated exactly
when it gets a handle and does not reconnect. -/
namespace Reconnect

open ProvStore StatementPool OdbcOperation EventTrace

variable {α : Type*}

/-- A handle in use is one of the live generation; an array in use is allocated. -/
def Live : Use → Prop
  | .handle _ stmt live => ∃ h, stmt = some h ∧ live = some h.generation
  | .array generation live => live = some generation

/-- Every slot of every pool holds a handle of the live generation or NULL. -/
def SlotsLive (c : Connection) : Prop :=
  ∀ pool h, some h ∈ (c.arrays pool).slots → c.live = some h.generation

/-- One operation uses only what is live and leaves only live handles behind. -/
structure OnlyLive (ran : Ran α) : Prop where
  uses : ∀ u ∈ ran.uses, Live u
  slots : SlotsLive ran.connection

structure Healthy (c : Connection) : Prop where
  allocated : ∀ pool, c.live = some (c.arrays pool).generation
  known : ∀ g, c.live = some g → g ≤ c.opened
  slots : SlotsLive c

theorem first_healthy : Healthy .first where
  allocated := fun _ => rfl
  known := fun g hg => by cases hg; exact Nat.le_refl 0
  slots := by
    intro pool h hh
    obtain ⟨i, -, hi⟩ := List.mem_map.mp hh
    cases hi
    rfl

@[simp] theorem setSlots_live (c : Connection) (pool : Pool) (slots : List (Option Handle)) :
    (c.setSlots pool slots).live = c.live := rfl

@[simp] theorem setSlots_opened (c : Connection) (pool : Pool) (slots : List (Option Handle)) :
    (c.setSlots pool slots).opened = c.opened := rfl

@[simp] theorem setSlots_self (c : Connection) (pool : Pool) (slots : List (Option Handle)) :
    ((c.setSlots pool slots).arrays pool).slots = slots := by
  simp [Connection.setSlots]

@[simp] theorem setSlots_generation (c : Connection) (pool q : Pool)
    (slots : List (Option Handle)) :
    ((c.setSlots pool slots).arrays q).generation = (c.arrays q).generation := by
  by_cases h : q = pool
  · subst h
    simp [Connection.setSlots]
  · simp [Connection.setSlots, h]

/-- New contents of one array that are live or NULL leave the connection in order. -/
theorem Healthy.setSlots {c : Connection} (hc : Healthy c) {pool : Pool}
    {slots : List (Option Handle)} (h : ∀ x, some x ∈ slots → c.live = some x.generation) :
    Healthy (c.setSlots pool slots) where
  allocated := fun q => by simpa using hc.allocated q
  known := hc.known
  slots := by
    intro q x hx
    by_cases hq : q = pool
    · subst hq
      rw [setSlots_self] at hx
      exact h x hx
    · exact hc.slots q x (by simpa [Connection.setSlots, hq] using hx)

theorem mem_cplAcquireStmt {H : Type*} {slots : List (Option H)} {x : H}
    (h : some x ∈ (cplAcquireStmt slots).2.1) : some x ∈ slots := by
  rcases cplAcquireStmt_cases slots with ⟨l₁, stmt, l₂, rfl, he⟩ | ⟨-, he⟩
  · rw [he] at h
    simp only [List.mem_append, List.mem_cons, reduceCtorEq, false_or] at h ⊢
    tauto
  · rwa [he] at h

theorem cplAcquireStmt_some_iff {H : Type*} (slots : List (Option H)) :
    (∃ x, (cplAcquireStmt slots).1 = some x ∧ some x ∈ slots) ↔ ∃ x, some x ∈ slots := by
  rcases cplAcquireStmt_cases slots with ⟨l₁, stmt, l₂, rfl, he⟩ | ⟨h0, he⟩
  · exact ⟨fun ⟨x, _, hx⟩ => ⟨x, hx⟩, fun _ => ⟨stmt, by rw [he], by simp⟩⟩
  · refine ⟨fun ⟨x, _, hx⟩ => ⟨x, hx⟩, fun ⟨x, hx⟩ => ?_⟩
    have : some x ∉ slots := fun hm => by
      simpa using List.countP_eq_zero.mp h0 (some x) hm
    exact absurd hx this

theorem mem_cplReleaseStmt {H : Type*} {stmt : Option H} {slots : List (Option H)} {x : H}
    (h : some x ∈ (cplReleaseStmt stmt slots).1) : some x ∈ slots ∨ stmt = some x := by
  rw [cplReleaseStmt_eq, List.mem_map] at h
  obtain ⟨y, hy, hx⟩ := h
  cases y with
  | none => exact Or.inr hx
  | some y => exact Or.inl (by cases hx; exact hy)

theorem live_usesOf {h : Handle} {c : Connection} (hl : c.live = some h.generation)
    (fs : List OdbcFunction) : ∀ u ∈ usesOf (some h) c fs, Live u := by
  intro u hu
  obtain ⟨f, -, rfl⟩ := List.mem_map.mp hu
  exact ⟨h, rfl, hl⟩

theorem cplOdbcReconnect_live (o : ConnectOutcome) (c : Connection) :
    ((cplOdbcReconnect o c).1.IsOk ∧ (cplOdbcReconnect o c).2.live = some (c.opened + 1)) ∨
    (¬ (cplOdbcReconnect o c).1.IsOk ∧ (cplOdbcReconnect o c).2.live = none) := by
  cases o with
  | connected => exact Or.inl ⟨CplTypes.isOk_ok, rfl⟩
  | noMemory => exact Or.inr ⟨CplTypes.not_isOk_insufficientResources, rfl⟩
  | refused => exact Or.inr ⟨CplTypes.not_isOk_dbConnectionError, rfl⟩
  | notPrepared => exact Or.inr ⟨CplTypes.not_isOk_prepareStatementError, rfl⟩

section Operation

variable {op : Operation} {stmt : Store → Option (α × Store)} {p : Pattern} {c : Connection}
  {s : Store}

/-- The operation gets a handle and its first execution does not make it reconnect. -/
structure Undisturbed (op : Operation) (p : Pattern) (c : Connection) : Prop where
  available : ∃ h, some h ∈ (c.arrays op.pool).slots
  stays : ¬ (p.attempts 0).Reconnects op

theorem Undisturbed.run (hc : Healthy c) (h : Undisturbed op p c) :
    OnlyLive (op.run stmt p c s) ∧ Healthy (op.run stmt p c s).connection := by
  obtain ⟨x, hx, hm⟩ := (cplAcquireStmt_some_iff _).mpr h.available
  have hl : c.live = some x.generation := hc.slots op.pool x hm
  have htaken : Healthy (c.setSlots op.pool (cplAcquireStmt (c.arrays op.pool).slots).2.1) :=
    hc.setSlots fun y hy => hc.slots op.pool y (mem_cplAcquireStmt hy)
  obtain ⟨hconn, f, fs, huses⟩ := retry_of_not_reconnects stmt (some x) 3
    (c.setSlots op.pool (cplAcquireStmt (c.arrays op.pool).slots).2.1) s h.stays
  have hafter : Healthy (op.run stmt p c s).connection := by
    simp only [Operation.run, hx, hconn]
    refine htaken.setSlots fun y hy => ?_
    rcases mem_cplReleaseStmt hy with hy | hy
    · exact htaken.slots op.pool y hy
    · cases hy
      exact hl
  refine ⟨⟨?_, hafter.slots⟩, hafter⟩
  intro u hu
  simp only [Operation.run, hx, hconn, huses, List.cons_append, List.mem_cons, List.mem_append,
    List.not_mem_nil, or_false, setSlots_generation, setSlots_live] at hu
  rcases hu with rfl | hu | rfl
  · exact hc.allocated op.pool
  · exact live_usesOf (c := c.setSlots _ _) hl _ u hu
  · exact hc.allocated op.pool

/-- NULL is passed to the first function when no handle was there. -/
theorem OnlyLive.available (h : OnlyLive (op.run stmt p c s)) :
    ∃ x, some x ∈ (c.arrays op.pool).slots := by
  rcases cplAcquireStmt_cases (c.arrays op.pool).slots with ⟨l₁, x, l₂, he, -⟩ | ⟨-, he⟩
  · exact ⟨x, by simp [he]⟩
  · obtain ⟨f, hf⟩ := retry_first_use op stmt p none 3 0
      (c.setSlots op.pool (c.arrays op.pool).slots) s
    obtain ⟨x, hx, -⟩ := h.uses _ (List.mem_cons_of_mem _
      (List.mem_append_left _ (by simpa only [he] using hf)))
    cases hx

/-- After a reconnect the old handle or the freed array is used. -/
theorem OnlyLive.stays (hc : Healthy c) (h : OnlyLive (op.run stmt p c s)) :
    ¬ (p.attempts 0).Reconnects op := by
  rintro ⟨hb, committed, he⟩
  obtain ⟨x, hx, hm⟩ := (cplAcquireStmt_some_iff _).mpr h.available
  have hl : c.live = some x.generation := hc.slots op.pool x hm
  have hr := retry_of_reconnects stmt (some x) 2
    (c.setSlots op.pool (cplAcquireStmt (c.arrays op.pool).slots).2.1) s hb he
  rcases cplOdbcReconnect_live (p.attempts 0).connect
      (c.setSlots op.pool (cplAcquireStmt (c.arrays op.pool).slots).2.1) with
    ⟨hok, hlive⟩ | ⟨hok, hlive⟩
  · dsimp only at hr
    rw [if_pos hok] at hr
    obtain ⟨f, hf⟩ := retry_first_use op stmt p (some x) 2 1
      (cplOdbcReconnect (p.attempts 0).connect
        (c.setSlots op.pool (cplAcquireStmt (c.arrays op.pool).slots).2.1)).2
      (if committed then commit stmt s else s)
    obtain ⟨y, hy, hg⟩ := h.uses _ (List.mem_cons_of_mem _ (List.mem_append_left _ (by
      rw [hx, hr]
      exact List.mem_append_right _ hf)))
    cases hy
    rw [hlive] at hg
    have hold := hc.known x.generation hl
    simp only [setSlots_opened, Option.some.injEq] at hg
    omega
  · dsimp only at hr
    rw [if_neg hok] at hr
    have := h.uses _ (List.mem_cons_of_mem _ (List.mem_append_right _ (List.mem_singleton_self _)))
    rw [hx, hr] at this
    exact absurd (hlive.symm.trans this) (by simp)

theorem onlyLive_iff (hc : Healthy c) :
    OnlyLive (op.run stmt p c s) ↔ Undisturbed op p c :=
  ⟨fun h => ⟨h.available, h.stays hc⟩, fun h => (h.run hc).1⟩

end Operation

structure Event (α : Type*) where
  call : BackendCall
  stmt : Store → Option (α × Store)
  pattern : Pattern

def Event.run (e : Event α) (s : Session) : Ran α :=
  e.call.operation.run e.stmt e.pattern s.connection s.store

def next (s : Session) (e : Event α) : Session := (e.run s).session

/-- In a run of operations all handles in use are live exactly when no operation reconnects
and each finds a handle. -/
theorem handles_live_iff (c : Connection) (hc : Healthy c) (s : Store) (events : List (Event α)) :
    EachStep next (fun st e => OnlyLive (e.run st)) ⟨c, s⟩ events ↔
      EachStep next (fun st e => Undisturbed e.call.operation e.pattern st.connection) ⟨c, s⟩
        events := by
  refine eachStep_congr (I := fun st : Session => Healthy st.connection) ?_ ?_ hc
  · exact fun st e h => onlyLive_iff h
  · exact fun st e h hu => (hu.run h).2

def createEntity (pattern : Pattern) : Event ℕ :=
  ⟨.createObject, fun s => some (s.nextObject, s.insertObject "" "e" 1 0), pattern⟩

/-- The retry binds the handle of the connection that was closed. -/
theorem retry_uses_stale_handle :
    ¬ EachStep next (fun st e => OnlyLive (e.run st)) ⟨.first, .fresh⟩
      [createEntity (lostOnce false .connected)] := by
  rintro ⟨h, -⟩
  obtain ⟨x, hx, hg⟩ := h.uses
    (.handle .bindParameter (some ⟨0, .createObject, 0⟩) (some 1)) (by decide +kernel)
  cases hx
  cases hg

theorem handles_live_iff_unbroken :
    EachStep next (fun st e => OnlyLive (e.run st)) ⟨.first, .fresh⟩
      [createEntity unbroken, createEntity unbroken] := by
  refine (handles_live_iff .first first_healthy .fresh _).mpr
    ⟨⟨⟨⟨0, .createObject, 0⟩, by decide +kernel⟩, ?_⟩,
      ⟨⟨⟨0, .createObject, 0⟩, by decide +kernel⟩, ?_⟩, trivial⟩
  · rintro ⟨-, _, he⟩
    cases he
  · rintro ⟨-, _, he⟩
    cases he

end Reconnect
