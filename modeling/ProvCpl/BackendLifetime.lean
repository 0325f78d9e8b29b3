import ProvCpl.Lifetimes
import ProvCpl.OperationPaths
import Mathlib.Data.List.ReduceOption

/-! # The lifetime of a backend

The constructor initialises the semaphores and the locks and connects, the operations take and
return statements and may reconnect, the destructor disconnects and destroys. Operations come one
after another, on any paths. What they do to the resources of the backend is read off the source;
an allocation of an ODBC handle is taken to succeed. -/
namespace BackendLifetime

open CplTypes EventTrace OdbcOperation OperationPaths StatementPool Lifetimes

/-- Environments and connections are numbered by the connects that allocate them, and links, slot
arrays and statements by the generation that they belong to. -/
inductive Resource where
  | backend
  | semaphore (pool : Pool)
  | lock (pool : Pool)
  | environment (n : ℕ)
  | connection (n : ℕ)
  | link (generation : ℕ)
  | array (generation : ℕ) (pool : Pool)
  | statement (h : Handle)
  deriving DecidableEq, Repr

def within : Resource → Option Resource
  | .connection n => some (.environment n)
  | .statement h => some (.link h.generation)
  | _ => none

abbrev Steps := List (Step Resource)

/-- The pools in the order in which the constructor initialises their semaphores and locks. -/
def synchronised : List Pool :=
  [.createSession, .createObject, .lookupObjectNt, .lookupObjectT, .lookupObjectNtExt,
    .lookupObjectTExt, .addRelation, .lookupRelation, .lookupObjectPropertyWildcard,
    .addObjectProperty, .addRelationProperty, .addPrefix, .getSessionInfo, .getAllObjectsNt,
    .getAllObjectsT, .getObjectInfo, .getObjectAncestors, .getObjectDescendants,
    .getObjectProperties, .getObjectPropertiesWithKey, .lookupObjectByProperty,
    .getRelationProperties, .getRelationPropertiesWithKey, .hasImmediateAncestor,
    .getBundleObjects, .getBundleRelations, .getPrefixes]

/-- The order of `ALLOC_STMT` and of `FREE_HANDLE`. -/
def pools : List Pool := synchronised ++ [.getPrefixesWithKey]

/-- The order of `PREPARE`. -/
def preparedPools : List Pool :=
  [.createSession, .createObject, .lookupObjectNt, .lookupObjectT, .lookupObjectNtExt,
    .lookupObjectTExt, .addRelation, .lookupRelation, .lookupObjectPropertyWildcard,
    .addObjectProperty, .addRelationProperty, .addPrefix, .getAllObjectsNt, .getAllObjectsT,
    .getObjectInfo, .getSessionInfo, .getObjectAncestors, .getObjectDescendants,
    .getObjectProperties, .getObjectPropertiesWithKey, .lookupObjectByProperty,
    .getRelationProperties, .getRelationPropertiesWithKey, .hasImmediateAncestor,
    .getBundleObjects, .getBundleRelations, .getPrefixes, .getPrefixesWithKey]

/-- The fields of `cpl_odbc_t` that change; the environment and the connection handle are those
of the last connect that allocated them. -/
structure Backend where
  connection : Connection
  environments : ℕ

section Connects

def allocStmtSteps (generation : ℕ) (pool : Pool) : Steps :=
  .opened (.array generation pool) :: (List.range cplStmtMax).flatMap fun i =>
    [.used (.link generation), .used (.array generation pool),
      .opened (.statement ⟨generation, pool, i⟩)]

/-- `PREPARE`, up to a statement of its list. -/
def prepareSteps (generation : ℕ) (count : ℕ) : Steps :=
  ((preparedPools.flatMap fun pool => (List.range cplStmtMax).map fun i =>
    (⟨generation, pool, i⟩ : Handle)).take count).flatMap fun h =>
      [.used (.array generation h.pool), .used (.statement h)]

/-- `FREE_HANDLE`; the driver rejects a NULL. -/
def freeHandle (pool : Pool) (a : SlotArray) : Steps :=
  (a.slots.flatMap fun stmt => .used (.array a.generation pool) ::
    (stmt.map fun h => .closed (.statement h)).toList) ++ [.closed (.array a.generation pool)]

def cplOdbcFreeStatementHandles (c : Connection) : Steps :=
  pools.flatMap fun pool => freeHandle pool (c.arrays pool)

/-- `prepared` tells for a connect how many statements it prepares before one that fails. What
`ALLOC_STMT` and `SQLAllocHandle` allocate is taken to be there, also after a reconnect. -/
def connectSteps (prepared : ℕ → ℕ) (o : ConnectOutcome) (b : Backend) : Steps :=
  let n := b.environments + 1
  let generation := b.connection.opened + 1
  let allocated := [.opened (.environment n), .used (.environment n), .opened (.connection n),
    .used (.connection n)]
  let freed := [.closed (.connection n), .closed (.environment n)]
  let linked := .opened (.link generation) :: pools.flatMap (allocStmtSteps generation)
  match o with
  | .noMemory => []
  | .refused => allocated ++ .used (.connection n) :: freed
  | .connected => allocated ++ linked ++ prepareSteps generation (preparedPools.length * cplStmtMax)
  | .notPrepared =>
    allocated ++ linked ++ prepareSteps generation (prepared n + 1) ++
      cplOdbcFreeStatementHandles (cplOdbcConnect o b.connection).2 ++
      .closed (.link generation) :: freed

def Backend.connect (o : ConnectOutcome) (b : Backend) : Backend where
  connection := (cplOdbcConnect o b.connection).2
  environments := if o = .noMemory then b.environments else b.environments + 1

def disconnectSteps (b : Backend) : Steps :=
  cplOdbcFreeStatementHandles b.connection ++ [.closed (.link b.connection.opened),
    .closed (.connection b.environments), .closed (.environment b.environments)]

def Backend.disconnect (b : Backend) : Backend :=
  { b with connection := cplOdbcDisconnect b.connection }

end Connects

section Operations

/-- The driver returns `SQL_INVALID_HANDLE` for a NULL handle, and has no records for it. -/
def answersTo (stmt : Option Handle) (p : Answers) : Answers :=
  match stmt with
  | some _ => p
  | none => { p with ret := fun _ => .invalidHandle, states := fun _ => [] }

variable (prepared : ℕ → ℕ)

/-- `STMT_ACQUIRE` and `STMT_RELEASE` read the semaphore, the lock and the array. -/
def eventSteps (stmt : Option Handle) (b : Backend) : Event → Steps
  | .acquire pool _ => [.used .backend, .used (.semaphore pool), .used (.lock pool),
      .used (.array (b.connection.arrays pool).generation pool)]
  | .release pool _ => [.used .backend, .used (.lock pool),
      .used (.array (b.connection.arrays pool).generation pool), .used (.semaphore pool)]
  | .call _ _ | .execute _ _ => (stmt.map fun h => .used (.statement h)).toList
  | .reconnect o => disconnectSteps b ++ connectSteps prepared o b.disconnect
  | .allocate _ _ | .callback _ => []

def Backend.setSlots (b : Backend) (pool : Pool) (slots : List (Option Handle)) : Backend :=
  ⟨b.connection.setSlots pool slots, b.environments⟩

def perform (b : Backend) : Event → Backend
  | .acquire pool _ => b.setSlots pool (cplAcquireStmt (b.connection.arrays pool).slots).2.1
  | .release pool stmt => b.setSlots pool (cplReleaseStmt stmt (b.connection.arrays pool).slots).1
  | .reconnect o => b.disconnect.connect o
  | .call _ _ | .execute _ _ | .allocate _ _ | .callback _ => b

abbrev OdbcCall := BackendCall × Answers

def statementOf (b : Backend) (x : OdbcCall) : Option Handle :=
  (cplAcquireStmt (b.connection.arrays (cplOdbcBackend x.1).acquires).slots).1

def eventsOf (b : Backend) (x : OdbcCall) : List Event :=
  (cplOdbcBackend x.1).path (statementOf b x) (answersTo (statementOf b x) x.2)

def callSteps (b : Backend) (x : OdbcCall) : Steps :=
  emitted perform (eventSteps prepared (statementOf b x)) b (eventsOf b x)

def afterCall (b : Backend) (x : OdbcCall) : Backend := runTrace perform b (eventsOf b x)

end Operations

section Lifetime

variable (prepared : ℕ → ℕ)

/-- `new cpl_odbc_t`; the fields of the connection are not written yet. -/
def newBackend : Backend := ⟨⟨0, none, fun _ => ⟨0, []⟩⟩, 0⟩

def initSteps : Steps :=
  .opened .backend :: synchronised.map (fun pool => .opened (.semaphore pool)) ++
    synchronised.map fun pool => .opened (.lock pool)

/-- The end of the destructor, which is also that of a constructor that fails. -/
def destroySteps : Steps :=
  synchronised.map (fun pool => .closed (.semaphore pool)) ++
    synchronised.map (fun pool => .closed (.lock pool)) ++ [.closed .backend]

def cplOdbcDestroy (b : Backend) : Steps := disconnectSteps b ++ destroySteps

/-- A backend from `cpl_create_odbc_backend` to `cpl_odbc_destroy`. -/
def lifetime (o : ConnectOutcome) (calls : List OdbcCall) : Steps :=
  let b := newBackend.connect o
  initSteps ++ connectSteps prepared o newBackend ++
    if (cplOdbcConnect o newBackend.connection).1.IsOk then
      emitted afterCall (callSteps prepared) b calls ++ cplOdbcDestroy (runTrace afterCall b calls)
    else destroySteps

end Lifetime

section Freeing

theorem mem_pools (pool : Pool) : pool ∈ pools := by cases pool <;> decide

theorem pools_nodup : pools.Nodup := by decide

variable {s : Set Resource} {c : Connection} {pool : Pool} {a : SlotArray} {r : Resource}

def slotSteps (pool : Pool) (a : SlotArray) : Steps :=
  a.slots.flatMap fun stmt => .used (.array a.generation pool) ::
    (stmt.map fun h => .closed (.statement h)).toList

theorem freeHandle_eq :
    freeHandle pool a = slotSteps pool a ++ [.closed (.array a.generation pool)] := rfl

theorem used_slotSteps (h : .used r ∈ slotSteps pool a) : r = .array a.generation pool := by
  simp only [slotSteps, List.mem_flatMap, List.mem_cons, Option.mem_toList,
    Option.map_eq_some_iff, reduceCtorEq, and_false, exists_false, or_false, Step.used.injEq] at h
  exact h.choose_spec.2

theorem closed_slotSteps :
    .closed r ∈ slotSteps pool a ↔ ∃ h, some h ∈ a.slots ∧ r = .statement h := by
  simp only [slotSteps, List.mem_flatMap, List.mem_cons, Option.mem_toList,
    Option.map_eq_some_iff, reduceCtorEq, false_or, Step.closed.injEq]
  constructor
  · rintro ⟨_, hm, h, rfl, rfl⟩
    exact ⟨h, hm, rfl⟩
  · rintro ⟨h, hm, rfl⟩
    exact ⟨_, hm, h, rfl, rfl⟩

theorem not_opened_slotSteps : .opened r ∉ slotSteps pool a := by
  simp [slotSteps]

theorem closes_slotSteps : closes (slotSteps pool a) = a.slots.reduceOption.map .statement := by
  rw [slotSteps]
  induction a.slots with
  | nil => rfl
  | cons stmt slots ih =>
    cases stmt with
    | none => simpa using ih
    | some h => simpa using ih

theorem not_opened_free : .opened r ∉ cplOdbcFreeStatementHandles c := by
  simp [cplOdbcFreeStatementHandles, freeHandle_eq, not_opened_slotSteps]

theorem closed_freeHandle : .closed r ∈ freeHandle pool a ↔
    r = .array a.generation pool ∨ ∃ h, some h ∈ a.slots ∧ r = .statement h := by
  rw [freeHandle_eq, List.mem_append, closed_slotSteps, List.mem_singleton, Step.closed.injEq,
    or_comm]

theorem closed_free : .closed r ∈ cplOdbcFreeStatementHandles c ↔
    ∃ pool, r = .array (c.arrays pool).generation pool ∨
      ∃ h, some h ∈ (c.arrays pool).slots ∧ r = .statement h := by
  simp only [cplOdbcFreeStatementHandles, List.mem_flatMap, closed_freeHandle, mem_pools, true_and]

def OwnHandles (c : Connection) : Prop := ∀ pool h, some h ∈ (c.arrays pool).slots → h.pool = pool

/-- The arrays and the statements in them are there to be freed. -/
structure Freeable (c : Connection) (s : Set Resource) : Prop where
  own : OwnHandles c
  arrays : ∀ pool, .array (c.arrays pool).generation pool ∈ s
  statements : ∀ pool h, some h ∈ (c.arrays pool).slots → Alive within s (.statement h)

def NoDuplicates (c : Connection) : Prop := ∀ pool, (c.arrays pool).slots.reduceOption.Nodup

theorem freeHandle_proper_iff (harray : .array a.generation pool ∈ s)
    (hstatements : ∀ h, some h ∈ a.slots → Alive within s (.statement h)) :
    Proper within s (freeHandle pool a) ↔ a.slots.reduceOption.Nodup := by
  have hclosed : ∀ {r}, .closed r ∈ slotSteps pool a → ∃ h, some h ∈ a.slots ∧ r = .statement h :=
    closed_slotSteps.mp
  have hslots : Proper within s (slotSteps pool a) ↔ a.slots.reduceOption.Nodup := by
    rw [closing_proper_iff (fun r => not_opened_slotSteps), closes_slotSteps]
    · rw [List.nodup_map_iff fun x y h => Resource.statement.inj h, and_iff_left_iff_imp]
      intro _ r hr
      obtain ⟨h, hm, rfl⟩ := hclosed hr
      exact (hstatements h hm).1
    · intro r hr
      obtain rfl := used_slotSteps hr
      refine ⟨⟨harray, fun o ho => by cases ho⟩, fun hc => ?_, fun o ho => by cases ho⟩
      obtain ⟨h, -, he⟩ := hclosed hc
      cases he
    · intro r hr o ho
      obtain ⟨h, hm, rfl⟩ := hclosed hr
      refine ⟨(hstatements h hm).2 o ho, fun hc => ?_⟩
      obtain ⟨h', -, rfl⟩ := hclosed hc
      cases ho
  rw [freeHandle_eq, proper_append, hslots, and_iff_left_iff_imp, proper_cons,
    after_closing fun r => not_opened_slotSteps]
  refine fun _ => ⟨⟨⟨harray, fun hc => ?_⟩, fun o ho => by cases ho⟩, trivial⟩
  obtain ⟨h, -, he⟩ := hclosed hc
  cases he

/-- `cpl_odbc_free_statement_handles` frees everything once unless an array holds a handle twice. -/
theorem Freeable.proper_iff (h : Freeable c s) :
    Proper within s (cplOdbcFreeStatementHandles c) ↔ NoDuplicates c := by
  suffices hloop : Proper within s (pools.flatMap fun pool => freeHandle pool (c.arrays pool)) ↔
      ∀ pool ∈ pools, (c.arrays pool).slots.reduceOption.Nodup by
    rw [cplOdbcFreeStatementHandles, hloop]
    exact ⟨fun hn pool => hn pool (mem_pools pool), fun hn pool _ => hn pool⟩
  apply loop_proper_iff
  intro done pool rest hdone
  have hfresh : pool ∉ done := by
    have hnodup := hdone ▸ pools_nodup
    rw [List.nodup_append] at hnodup
    exact fun hm => hnodup.2.2 pool hm pool List.mem_cons_self rfl
  rw [after_closing fun r => by simp [freeHandle_eq, not_opened_slotSteps]]
  have hkept : ∀ r, .closed r ∈ done.flatMap (fun pool => freeHandle pool (c.arrays pool)) →
      ∃ q, q ≠ pool ∧ (r = .array (c.arrays q).generation q ∨
        ∃ x, some x ∈ (c.arrays q).slots ∧ r = .statement x) := by
    intro r hr
    obtain ⟨q, hq, hr⟩ := List.mem_flatMap.mp hr
    exact ⟨q, fun hqp => hfresh (hqp ▸ hq), closed_freeHandle.mp hr⟩
  apply freeHandle_proper_iff
  · refine ⟨h.arrays pool, fun hc => ?_⟩
    obtain ⟨q, hq, he | ⟨x, -, he⟩⟩ := hkept _ hc
    · exact hq (Resource.array.inj he).2.symm
    · cases he
  · intro x hx
    obtain ⟨hmem, hhouse⟩ := h.statements pool x hx
    refine ⟨⟨hmem, fun hc => ?_⟩, fun o ho => ⟨hhouse o ho, fun hc => ?_⟩⟩
    · obtain ⟨q, hq, he | ⟨y, hy, he⟩⟩ := hkept _ hc
      · cases he
      · cases he
        exact hq ((h.own q x hy).symm.trans (h.own pool x hx))
    · cases ho
      obtain ⟨q, hq, he | ⟨y, hy, he⟩⟩ := hkept _ hc <;> cases he

end Freeing

section Destruction

def present (n generation : ℕ) : Set Resource := {r | match r with
  | .backend => True
  | .semaphore pool | .lock pool => pool ∈ synchronised
  | .environment m | .connection m => m = n
  | .link g | .array g _ => g = generation
  | .statement h => h.generation = generation ∧ h.index < cplStmtMax}

/-- A connected backend; any of its statements may be out, and an array may hold one twice. -/
structure Steady (b : Backend) (s : Set Resource) : Prop where
  resources : s = present b.environments b.connection.opened
  arrays : ∀ pool, (b.connection.arrays pool).generation = b.connection.opened
  own : OwnHandles b.connection
  slots : ∀ pool h, some h ∈ (b.connection.arrays pool).slots →
    h.generation = b.connection.opened ∧ h.index < cplStmtMax

variable {b : Backend} {s : Set Resource} {r : Resource}

theorem Steady.alive_statement (h : Steady b s) {pool : Pool} {x : Handle}
    (hx : some x ∈ (b.connection.arrays pool).slots) : Alive within s (.statement x) := by
  obtain rfl := h.resources
  refine ⟨h.slots pool x hx, fun o ho => ?_⟩
  cases ho
  exact (h.slots pool x hx).1

theorem Steady.freeable (h : Steady b s) : Freeable b.connection s where
  own := h.own
  arrays := fun pool => h.resources ▸ h.arrays pool
  statements := fun _ _ hx => h.alive_statement hx

theorem closed_destroySteps : .closed r ∈ destroySteps ↔
    r = .backend ∨ ∃ pool ∈ synchronised, r = .semaphore pool ∨ r = .lock pool := by
  simp only [destroySteps, List.mem_append, List.mem_map, Step.closed.injEq, List.mem_singleton]
  constructor
  · rintro ((⟨pool, hp, rfl⟩ | ⟨pool, hp, rfl⟩) | rfl)
    · exact Or.inr ⟨pool, hp, Or.inl rfl⟩
    · exact Or.inr ⟨pool, hp, Or.inr rfl⟩
    · exact Or.inl rfl
  · rintro (rfl | ⟨pool, hp, rfl | rfl⟩)
    · exact Or.inr rfl
    · exact Or.inl (Or.inl ⟨pool, hp, rfl⟩)
    · exact Or.inl (Or.inr ⟨pool, hp, rfl⟩)

theorem not_opened_destroySteps : .opened r ∉ destroySteps := by simp [destroySteps]

theorem destroySteps_proper (hbackend : .backend ∈ s)
    (hsync : ∀ pool ∈ synchronised, .semaphore pool ∈ s ∧ .lock pool ∈ s) :
    Proper within s destroySteps := by
  refine (closing_proper_iff (fun _ => not_opened_destroySteps) (fun r hr => ?_)
    fun r hr o ho => ?_).mpr ⟨by decide, fun r hr => ?_⟩
  · simp [destroySteps] at hr
  · rcases closed_destroySteps.mp hr with rfl | ⟨pool, -, rfl | rfl⟩ <;> cases ho
  · rcases closed_destroySteps.mp hr with rfl | ⟨pool, hp, rfl | rfl⟩
    · exact hbackend
    · exact (hsync pool hp).1
    · exact (hsync pool hp).2

/-- The destructor frees everything once unless an array holds a handle twice. -/
theorem Steady.destroy_iff (h : Steady b s) :
    Proper within s (cplOdbcDestroy b) ↔ NoDuplicates b.connection := by
  rw [cplOdbcDestroy, disconnectSteps, proper_append, proper_append, h.freeable.proper_iff,
    and_assoc, and_iff_left_iff_imp]
  intro _
  have hkept : ∀ r ∈ s, (∀ g pool, r ≠ .array g pool) → (∀ x, r ≠ .statement x) →
      r ∈ after s (cplOdbcFreeStatementHandles b.connection) := by
    intro r hr ha hx
    rw [after_closing fun _ => not_opened_free]
    refine ⟨hr, fun hc => ?_⟩
    obtain ⟨pool, rfl | ⟨x, -, rfl⟩⟩ := closed_free.mp hc
    · exact ha _ _ rfl
    · exact hx _ rfl
  obtain rfl := h.resources
  have hlink := hkept (.link b.connection.opened) rfl (by simp) (by simp)
  have hconnection := hkept (.connection b.environments) rfl (by simp) (by simp)
  have henvironment := hkept (.environment b.environments) rfl (by simp) (by simp)
  constructor
  · simp [Step.Allowed, Step.next, Alive, Housed, within, hlink, hconnection, henvironment]
  · rw [after_append, after_closing (l := [_, _, _]) (by simp)]
    apply destroySteps_proper
    · exact ⟨hkept .backend trivial (by simp) (by simp), by simp⟩
    · intro pool hp
      exact ⟨⟨hkept (.semaphore pool) hp (by simp) (by simp), by simp⟩,
        hkept (.lock pool) hp (by simp) (by simp), by simp⟩

theorem Steady.gone (h : Steady b s) : Gone within (after s (cplOdbcDestroy b)) := by
  have hopen : ∀ r, .opened r ∉ cplOdbcDestroy b := by
    intro r hr
    simp [cplOdbcDestroy, disconnectSteps, not_opened_free, not_opened_destroySteps] at hr
  have hclosed : ∀ {r}, .closed r ∈ cplOdbcDestroy b → r ∉ after s (cplOdbcDestroy b) := by
    intro r hr hm
    rw [after_closing hopen] at hm
    exact hm.2 hr
  have hdestroyed : ∀ {r}, .closed r ∈ destroySteps → r ∉ after s (cplOdbcDestroy b) :=
    fun hr => hclosed (List.mem_append_right _ hr)
  have hconnected : ∀ {r}, r ∈ [Resource.link b.connection.opened, .connection b.environments,
      .environment b.environments] → r ∉ after s (cplOdbcDestroy b) := by
    intro r hr
    apply hclosed
    simpa [cplOdbcDestroy, disconnectSteps] using Or.inr (by simpa [or_assoc] using Or.inl hr)
  rintro r ⟨hr, hhouse⟩
  have hp : r ∈ present b.environments b.connection.opened := by
    have hm := hr
    rw [after_closing hopen] at hm
    exact h.resources ▸ hm.1
  cases r with
  | backend => exact hdestroyed (closed_destroySteps.mpr (Or.inl rfl)) hr
  | semaphore pool =>
    exact hdestroyed (closed_destroySteps.mpr (Or.inr ⟨pool, hp, Or.inl rfl⟩)) hr
  | lock pool => exact hdestroyed (closed_destroySteps.mpr (Or.inr ⟨pool, hp, Or.inr rfl⟩)) hr
  | environment m =>
    obtain rfl : m = b.environments := hp
    exact hconnected (by simp) hr
  | connection m =>
    obtain rfl : m = b.environments := hp
    exact hconnected (by simp) hr
  | link g =>
    obtain rfl : g = b.connection.opened := hp
    exact hconnected (by simp) hr
  | array g pool =>
    obtain rfl : g = b.connection.opened := hp
    have hfree : .closed (.array b.connection.opened pool) ∈
        cplOdbcFreeStatementHandles b.connection :=
      closed_free.mpr ⟨pool, Or.inl (by rw [h.arrays])⟩
    exact hclosed (List.mem_append_left _ (List.mem_append_left _ hfree)) hr
  | statement x =>
    have hlink := hhouse _ rfl
    obtain ⟨hg, -⟩ : x.generation = b.connection.opened ∧ _ := hp
    exact hconnected (by simp [hg]) hlink

end Destruction

section Reconnects

variable {prepared : ℕ → ℕ} {stmt : Option Handle} {b : Backend} {s : Set Resource}

def Broken (b : Backend) (s : Set Resource) : Prop :=
  ∀ pool, .array (b.connection.arrays pool).generation pool ∉ s

theorem array_of_freeHandle {pool : Pool} {a : SlotArray}
    (h : Proper within s (freeHandle pool a)) : .array a.generation pool ∈ s := by
  rw [freeHandle] at h
  cases hs : a.slots with
  | nil =>
    rw [hs] at h
    exact h.1.1
  | cons stmt slots =>
    rw [hs] at h
    exact h.1.1

theorem Broken.not_free (h : Broken b s) (l : Steps) :
    ¬ Proper within s (cplOdbcFreeStatementHandles b.connection ++ l) := by
  intro hp
  have hpools : pools = .createSession :: pools.tail := rfl
  rw [cplOdbcFreeStatementHandles, hpools, List.flatMap_cons, proper_append, proper_append] at hp
  exact h .createSession (array_of_freeHandle hp.1.1)

/-- With freed arrays nothing can go well any more that takes, returns or frees a statement. -/
theorem Broken.event (h : Broken b s) (e : Event) :
    ¬ Proper within s (eventSteps prepared stmt b e) ∨
      Broken (perform b e) (after s (eventSteps prepared stmt b e)) := by
  cases e with
  | acquire pool x => exact Or.inl fun hp => h pool hp.2.2.2.1.1
  | release pool x => exact Or.inl fun hp => h pool hp.2.2.1.1
  | reconnect o =>
    left
    rw [eventSteps, disconnectSteps, List.append_assoc]
    exact h.not_free _
  | call | execute => cases stmt <;> exact Or.inr h
  | allocate | callback => exact Or.inr h

theorem not_opened_disconnect {r : Resource} : .opened r ∉ disconnectSteps b := by
  simp [disconnectSteps, not_opened_free]

theorem not_mem_disconnected {r : Resource} (h : .closed r ∈ disconnectSteps b) :
    r ∉ after s (disconnectSteps b) := by
  rw [after_closing fun _ => not_opened_disconnect]
  exact fun hr => hr.2 h

theorem not_opened_prepare {r : Resource} {g n : ℕ} : .opened r ∉ prepareSteps g n := by
  simp [prepareSteps]

theorem after_reconnect (o : ConnectOutcome) :
    after s (eventSteps prepared stmt b (.reconnect o)) =
      after (after s (disconnectSteps b)) (connectSteps prepared o b.disconnect) := by
  rw [eventSteps, after_append]

/-- After a reconnect that fails the arrays are freed, whichever of them the backend names. -/
theorem failed_broken {o : ConnectOutcome} (ho : o ≠ .connected) :
    Broken (perform b (.reconnect o)) (after s (eventSteps prepared stmt b (.reconnect o))) := by
  have hold : ∀ pool, .closed (.array (b.connection.arrays pool).generation pool) ∈
      disconnectSteps b := fun pool =>
    List.mem_append_left _ (closed_free.mpr ⟨pool, Or.inl rfl⟩)
  intro pool hm
  rw [after_reconnect] at hm
  cases o with
  | connected => exact ho rfl
  | noMemory => exact not_mem_disconnected (hold pool) hm
  | refused =>
    rcases mem_after hm with hm | hm
    · exact not_mem_disconnected (hold pool) hm
    · simp [connectSteps] at hm
  | notPrepared =>
    rw [connectSteps, after_append, after_append] at hm
    rcases mem_after hm with hm | hm
    · rw [after_closing fun _ => not_opened_free] at hm
      exact hm.2 (closed_free.mpr ⟨pool, Or.inl rfl⟩)
    · simp at hm

theorem opened_link {o : ConnectOutcome} {g : ℕ}
    (h : .link g ∈ after s (connectSteps prepared o b)) :
    .link g ∈ s ∨ g = b.connection.opened + 1 := by
  refine (mem_after h).imp_right fun hm => ?_
  have hfree : ∀ c, .opened (.link g) ∉ cplOdbcFreeStatementHandles c := fun _ => not_opened_free
  cases o with
  | noMemory => simp [connectSteps] at hm
  | refused => simp [connectSteps] at hm
  | connected => simpa [connectSteps, allocStmtSteps, not_opened_prepare] using hm
  | notPrepared => simpa [connectSteps, allocStmtSteps, not_opened_prepare, hfree] using hm

variable (prepared stmt) in
/-- After a reconnect a statement that was out belongs to a link that is gone. -/
theorem resumed_not_proper (o : ConnectOutcome) {x : Handle}
    (hx : x.generation = b.connection.opened) (ret : SqlReturn) (f : OdbcFunction) :
    ¬ Proper within s (eventSteps prepared stmt b (.reconnect o) ++
      eventSteps prepared (some x) (perform b (.reconnect o)) (.call f ret)) := by
  intro hp
  have hused : Proper within (after s (eventSteps prepared stmt b (.reconnect o)))
      [.used (.statement x)] := (proper_append.mp hp).2
  have hlink : .link x.generation ∈ after s (eventSteps prepared stmt b (.reconnect o)) :=
    (proper_cons.mp hused).1.2 _ rfl
  rw [after_reconnect] at hlink
  rcases opened_link hlink with hm | hm
  · have hclosed : .closed (.link b.connection.opened) ∈ disconnectSteps b := by
      simp [disconnectSteps]
    exact not_mem_disconnected (hx ▸ hclosed) hm
  · exact Nat.succ_ne_self _ (hx.symm.trans hm).symm

end Reconnects

end BackendLifetime
