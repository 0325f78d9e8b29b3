import ProvCpl.CplTypes
import ProvCpl.EarlyExit
import ProvCpl.EventTrace

/-! # Attaching and detaching the library

Both calls take the backend lock first. Where they return through an argument check, which is a
macro with a return in it, the lock stays held, and the next call of the thread waits for it. -/
namespace AttachDetach

open CplTypes EarlyExit EventTrace

variable {β : Type}

structure Library (β : Type) where
  locked : Bool
  initialized : Bool
  backend : Option β
  deriving DecidableEq, Repr

inductive Exit where
  | ret (code : ReturnCode)
  | waits
  | undefined
  deriving DecidableEq, Repr

abbrev LibraryCall (β α : Type) := Prog (Library β) Exit α

def mutexLock : LibraryCall β Unit := fun s =>
  if s.locked then (.error .waits, s) else (.ok (), { s with locked := true })

def mutexUnlock : LibraryCall β Unit := call fun s => ((), { s with locked := false })

def ensureNotNull (p : Option β) : LibraryCall β Unit :=
  if p.isNone then leave (.ret .invalidArgument) else pure ()

def ensureInitialized : LibraryCall β Unit := fun s =>
  if s.initialized then (.ok (), s) else (.error (.ret .notInitialized), s)

def setBackend (backend : Option β) : LibraryCall β Unit := call fun s =>
  ((), { s with backend := backend })

def setInitialized (b : Bool) : LibraryCall β Unit :=
  call fun s => ((), { s with initialized := b })

def unlockReturn (code : ReturnCode) : LibraryCall β Unit := do
  mutexUnlock
  leave (.ret code)

/-- `cpl_lock_initialize`, as configured without a unique id generator. -/
def cplLockInitialize : ReturnCode := .ok

/-- `opened` tells whether opening the shared semaphore gave one. -/
def cplAttach (backend : Option β) (opened : Bool) : LibraryCall β Unit := do
  mutexLock
  ensureNotNull backend
  let initialized ← call fun s => (s.initialized, s)
  if initialized then unlockReturn .alreadyInitialized
  else
    let current ← call fun s => (s.backend, s)
    if current.isSome then unlockReturn .internalError
    else
      setBackend backend
      if ¬ cplLockInitialize.IsOk then
        setBackend none
        unlockReturn cplLockInitialize
      else if ¬ opened then
        setBackend none
        unlockReturn .platformError
      else
        setInitialized true
        mutexUnlock

/-- The destructor of the backend is called through the pointer. -/
def cplDetach : LibraryCall β Unit := do
  mutexLock
  ensureInitialized
  setInitialized false
  let current ← call fun s => (s.backend, s)
  if current.isNone then leave .undefined
  else
    setBackend none
    mutexUnlock

inductive Event (β : Type) where
  | attach (backend : Option β) (opened : Bool)
  | detach
  deriving DecidableEq, Repr

def Event.perform : Event β → LibraryCall β Unit
  | .attach backend opened => cplAttach backend opened
  | .detach => cplDetach

def Event.isAttach : Event β → Bool
  | .attach _ _ => true
  | .detach => false

/-- The calls of one thread: whether all have returned, and whether the last one that
succeeded was an attach. -/
structure State (β : Type) where
  library : Library β
  returned : Bool
  attachedLast : Bool
  deriving DecidableEq, Repr

def initial : State β := ⟨⟨false, false, none⟩, true, false⟩

def next (s : State β) (e : Event β) : State β :=
  if s.returned then
    match e.perform s.library with
    | (.ok _, l) => ⟨l, true, e.isAttach⟩
    | (.error (.ret _), l) => { s with library := l }
    | (.error _, l) => { s with library := l, returned := false }
  else s

structure Consistent (s : State β) : Prop where
  returned : s.returned = true
  unlocked : s.library.locked = false
  backend : s.library.initialized = true ↔ s.library.backend.isSome
  attached : s.library.initialized = true ↔ s.attachedLast = true

instance (s : State β) : Decidable (Consistent s) :=
  decidable_of_iff (s.returned = true ∧ s.library.locked = false ∧
      (s.library.initialized = true ↔ s.library.backend.isSome) ∧
      (s.library.initialized = true ↔ s.attachedLast = true))
    ⟨fun h => ⟨h.1, h.2.1, h.2.2.1, h.2.2.2⟩, fun h => ⟨h.1, h.2, h.3, h.4⟩⟩

/-- An attach is given a backend, and a detach finds the library initialized. -/
def Allowed (s : State β) : Event β → Prop
  | .attach backend _ => backend.isSome
  | .detach => s.library.initialized = true

theorem cplAttach_free (i : Bool) (current backend : Option β) (opened : Bool) :
    cplAttach backend opened ⟨false, i, current⟩ =
      if backend.isNone then (.error (.ret .invalidArgument), ⟨true, i, current⟩)
      else if i then (.error (.ret .alreadyInitialized), ⟨false, i, current⟩)
      else if current.isSome then (.error (.ret .internalError), ⟨false, i, current⟩)
      else if opened then (.ok (), ⟨false, true, backend⟩)
      else (.error (.ret .platformError), ⟨false, i, none⟩) := by
  cases backend <;> cases i <;> cases current <;> cases opened <;> rfl

theorem cplDetach_free (i : Bool) (current : Option β) :
    cplDetach ⟨false, i, current⟩ =
      if ¬ i then (.error (.ret .notInitialized), ⟨true, i, current⟩)
      else if current.isNone then (.error .undefined, ⟨true, false, current⟩)
      else (.ok (), ⟨false, false, none⟩) := by
  cases i <;> cases current <;> rfl

theorem consistent_initial : Consistent (initial : State β) := by
  constructor <;> simp [initial]

theorem consistent_cases {s : State β} (h : Consistent s) :
    s = ⟨⟨false, false, none⟩, true, false⟩ ∨
      ∃ b, s = ⟨⟨false, true, some b⟩, true, true⟩ := by
  obtain ⟨⟨locked, i, current⟩, returned, last⟩ := s
  obtain ⟨rfl, rfl, hb, ha⟩ := h
  cases i <;> cases current <;> cases last <;> simp_all

theorem not_consistent_of_locked {s : State β} (h : s.library.locked = true) : ¬ Consistent s :=
  fun hc => by simp [hc.unlocked] at h

theorem consistent_attached (b : β) :
    Consistent (⟨⟨false, true, some b⟩, true, true⟩ : State β) := by
  constructor <;> simp

theorem consistent_next_iff {s : State β} (h : Consistent s) (e : Event β) :
    Consistent (next s e) ↔ Allowed s e := by
  rcases consistent_cases h with rfl | ⟨b, rfl⟩
  · cases e with
    | attach backend opened =>
      cases backend with
      | none => exact iff_of_false (not_consistent_of_locked rfl) Bool.false_ne_true
      | some b =>
        refine iff_of_true ?_ rfl
        cases opened with
        | false => exact consistent_initial
        | true => exact consistent_attached b
    | detach => exact iff_of_false (not_consistent_of_locked rfl) Bool.false_ne_true
  · cases e with
    | attach backend opened =>
      cases backend with
      | none => exact iff_of_false (not_consistent_of_locked rfl) Bool.false_ne_true
      | some c => exact iff_of_true (consistent_attached b) rfl
    | detach => exact iff_of_true consistent_initial rfl

/-- Every call of a run returns and leaves the library consistent exactly when every call is
allowed in the state in which it is made. -/
theorem consistent_run_iff (events : List (Event β)) :
    Throughout next Consistent initial events ↔ EachStep next Allowed initial events := by
  constructor
  · intro h
    exact eachStep_of_throughout (C := fun _ _ => True)
      (fun s e hs _ hn => (consistent_next_iff hs e).mp hn) h
      (eachStep_of_forall fun _ _ => trivial)
  · exact throughout_of_step (fun s e hs he => (consistent_next_iff hs e).mpr he) consistent_initial

/-- `CPLInitializationHelper`: it attaches to a backend that is not NULL, and its destructor
always detaches. -/
def helperCalls (backend : Option β) (opened : Bool) : List (Event β) :=
  match backend with
  | none => [.detach]
  | some b => [.attach (some b) opened, .detach]

/-- A helper made for cleanup only leaves the lock held, and the attach that follows waits. -/
theorem cleanup_helper_blocks_attach :
    ¬ Throughout next Consistent (initial : State Unit)
        (helperCalls none true ++ [.attach (some ()) true]) ∧
      (runTrace next (initial : State Unit)
        (helperCalls none true ++ [.attach (some ()) true])).returned = false := by
  refine ⟨fun h => ?_, rfl⟩
  have hlast := h.last
  revert hlast
  decide

/-- In any run, blocked or not, the library is initialized only with a backend. -/
theorem initialized_has_backend (events : List (Event β)) :
    let l := (runTrace next initial events).library
    l.initialized = true → l.backend.isSome := by
  have hrun : Throughout next (fun s : State β => s.library.initialized = true →
      s.library.backend.isSome) initial events := by
    refine throughout_of_step (C := fun _ _ => True) (fun s e hs _ => ?_)
      (fun h => by cases h) (eachStep_of_forall fun _ _ => trivial)
    obtain ⟨⟨locked, i, current⟩, returned, last⟩ := s
    cases returned with
    | false => exact hs
    | true =>
      cases locked with
      | true => cases e <;> exact hs
      | false =>
        cases e with
        | attach backend opened =>
          simp only [next, Event.perform, cplAttach_free, if_true]
          cases backend <;> cases i <;> cases current <;> cases opened <;> simp_all
        | detach =>
          simp only [next, Event.perform, cplDetach_free, if_true]
          cases i <;> cases current <;> simp_all
  exact hrun.last

end AttachDetach
