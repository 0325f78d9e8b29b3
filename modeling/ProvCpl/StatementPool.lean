import ProvCpl.EventTrace
import Mathlib.Algebra.GroupWithZero.Nat
import Mathlib.Data.List.Nodup
import Mathlib.Data.Option.Basic
import Mathlib.Logic.Function.Basic

/-! # The pool of prepared statements

A call of the acquire function waits on the semaphore and then scans the slots; the body of
each function is one step, as under its mutex. Parameters are passed by value: where a
semaphore is a structure the calls wait on and post to a copy, where it is a reference they
reach the pool's own. -/
namespace StatementPool

open EventTrace
open Function (update)

variable {T H : Type*}

/-- `CPL_STMT_MAX`, which is also the value that every pool semaphore starts with. -/
def cplStmtMax : ℕ := 4

/-- How a semaphore type behaves as a parameter. -/
inductive SemaT where
  | byReference
  | byValue
  deriving DecidableEq, Repr

/-- The field of the pool after a call has changed its parameter. -/
def SemaT.afterCall : SemaT → ℕ → ℕ → ℕ
  | .byReference, _, changed => changed
  | .byValue, field, _ => field

/-- The scan of `cpl_acquire_stmt`: the handle, the slots, and the posts. -/
def cplAcquireStmt : List (Option H) → Option H × List (Option H) × ℕ
  | [] => (none, [], 1)
  | some stmt :: slots => (some stmt, none :: slots, 0)
  | none :: slots =>
    let r := cplAcquireStmt slots
    (r.1, none :: r.2.1, r.2.2)

/-- The loop of `cpl_release_stmt`, which goes on after it has found a slot. -/
def cplReleaseStmt (stmt : Option H) : List (Option H) → List (Option H) × ℕ
  | [] => ([], 1)
  | none :: slots =>
    let r := cplReleaseStmt stmt slots
    (stmt :: r.1, r.2 + 1)
  | some other :: slots =>
    let r := cplReleaseStmt stmt slots
    (some other :: r.1, r.2)

/-- Where a thread is: outside, past the wait, or back with what it acquired. -/
inductive Client (H : Type*) where
  | outside
  | admitted
  | holding (stmt : Option H)
  deriving DecidableEq, Repr

structure State (T H : Type*) where
  sem : ℕ
  slots : List (Option H)
  threads : T → Client H

def initial (handles : List H) : State T H := ⟨cplStmtMax, handles.map some, fun _ => .outside⟩

inductive Event (T : Type*) where
  | wait (t : T)
  | scan (t : T)
  | release (t : T)
  deriving DecidableEq, Repr

def Client.IsHolding : Client H → Prop
  | .holding _ => True
  | _ => False

def Enabled (s : State T H) : Event T → Prop
  | .wait t => s.threads t = .outside ∧ 0 < s.sem
  | .scan t => s.threads t = .admitted
  | .release t => (s.threads t).IsHolding

instance (c : Client H) : Decidable c.IsHolding :=
  match c with
  | .holding _ => .isTrue trivial
  | .outside | .admitted => .isFalse fun h => h

instance [DecidableEq H] (s : State T H) : (e : Event T) → Decidable (Enabled s e)
  | .wait t => inferInstanceAs (Decidable (s.threads t = .outside ∧ 0 < s.sem))
  | .scan t => inferInstanceAs (Decidable (s.threads t = .admitted))
  | .release t => inferInstanceAs (Decidable (s.threads t).IsHolding)

theorem exists_holding {s : State T H} {t : T} (h : Enabled s (.release t)) :
    ∃ stmt, s.threads t = .holding stmt := by
  unfold Enabled at h
  cases hc : s.threads t with
  | outside => simp [hc, Client.IsHolding] at h
  | admitted => simp [hc, Client.IsHolding] at h
  | holding stmt => exact ⟨stmt, rfl⟩

section Slots

def freeSlots (slots : List (Option H)) : ℕ := slots.countP Option.isNone

def filledSlots (slots : List (Option H)) : ℕ := slots.countP Option.isSome

/-- The scan takes the first handle; without one it posts and returns NULL. -/
theorem cplAcquireStmt_cases (slots : List (Option H)) :
    (∃ l₁ stmt l₂, slots = l₁ ++ some stmt :: l₂ ∧
      cplAcquireStmt slots = (some stmt, l₁ ++ none :: l₂, 0)) ∨
    (filledSlots slots = 0 ∧ cplAcquireStmt slots = (none, slots, 1)) := by
  induction slots with
  | nil => exact Or.inr ⟨rfl, rfl⟩
  | cons x slots ih =>
    cases x with
    | some stmt => exact Or.inl ⟨[], stmt, slots, rfl, rfl⟩
    | none =>
      rcases ih with ⟨l₁, stmt, l₂, rfl, hr⟩ | ⟨h0, hr⟩
      · exact Or.inl ⟨none :: l₁, stmt, l₂, rfl, by simp [cplAcquireStmt, hr]⟩
      · exact Or.inr ⟨by simpa [filledSlots] using h0, by simp [cplAcquireStmt, hr]⟩

/-- The loop fills every free slot and posts once for each, and once more at the end. -/
theorem cplReleaseStmt_eq (stmt : Option H) (slots : List (Option H)) :
    cplReleaseStmt stmt slots = (slots.map (·.or stmt), freeSlots slots + 1) := by
  induction slots with
  | nil => rfl
  | cons x slots ih =>
    cases x with
    | none => simp [cplReleaseStmt, ih, freeSlots]
    | some other => simp [cplReleaseStmt, ih, freeSlots]

theorem filledSlots_take (l₁ l₂ : List (Option H)) (stmt : H) :
    filledSlots (l₁ ++ some stmt :: l₂) = filledSlots (l₁ ++ none :: l₂) + 1 := by
  simp [filledSlots, List.countP_append]
  omega

theorem filledSlots_le (slots : List (Option H)) : filledSlots slots ≤ slots.length :=
  List.countP_le_length

theorem filledSlots_map_some (handles : List H) :
    filledSlots (handles.map some) = handles.length := by
  rw [filledSlots, List.countP_eq_length.mpr (by simp), List.length_map]

theorem filledSlots_add_freeSlots (slots : List (Option H)) :
    filledSlots slots + freeSlots slots = slots.length := by
  have h := List.length_eq_countP_add_countP Option.isSome (l := slots)
  have hn : slots.countP (fun x => ¬ x.isSome = true) = freeSlots slots :=
    List.countP_congr fun x _ => by cases x <;> simp
  unfold filledSlots
  omega

variable [DecidableEq H]

theorem count_fill (slots : List (Option H)) (stmt : H) :
    (slots.map (·.or (some stmt))).count (some stmt) =
      slots.count (some stmt) + freeSlots slots := by
  induction slots with
  | nil => rfl
  | cons x slots ih =>
    rw [List.map_cons, List.count_cons, List.count_cons, ih]
    cases x with
    | none => simp [freeSlots]; omega
    | some other => simp [freeSlots]; omega

theorem count_fill_ne (slots : List (Option H)) {stmt other : H} (h : other ≠ stmt) :
    (slots.map (·.or (some stmt))).count (some other) = slots.count (some other) := by
  induction slots with
  | nil => rfl
  | cons x slots ih =>
    rw [List.map_cons, List.count_cons, List.count_cons, ih]
    cases x with
    | none => simp [Ne.symm h]
    | some y => simp

end Slots

def Holds (s : State T H) (t : T) (stmt : H) : Prop := s.threads t = .holding (some stmt)

structure Original (handles : List H) (s : State T H) : Prop where
  slots : ∀ stmt, some stmt ∈ s.slots → stmt ∈ handles
  held : ∀ t stmt, Holds s t stmt → stmt ∈ handles

theorem original_initial {handles : List H} :
    Original handles (initial handles : State T H) :=
  ⟨by simp [initial], by simp [Holds, initial]⟩

section Ownership

variable [DecidableEq H]

/-- In exactly one slot and with no thread, or in no slot and with exactly one thread. -/
def Placed (s : State T H) (stmt : H) : Prop :=
  (s.slots.count (some stmt) = 1 ∧ ∀ t, ¬ Holds s t stmt) ∨
  (s.slots.count (some stmt) = 0 ∧ ∃ t, Holds s t stmt ∧ ∀ u, Holds s u stmt → u = t)

def Owned (handles : List H) (s : State T H) : Prop := ∀ stmt ∈ handles, Placed s stmt

/-- A handle is released only while no other handle of the pool is out. -/
def ReleasesAlone (s : State T H) : Event T → Prop
  | .release t => (∃ stmt, Holds s t stmt) → freeSlots s.slots = 1
  | _ => True

theorem Placed.congr {s s' : State T H} {stmt : H} (h : Placed s stmt)
    (hc : s'.slots.count (some stmt) = s.slots.count (some stmt))
    (hh : ∀ t, Holds s' t stmt ↔ Holds s t stmt) : Placed s' stmt := by
  unfold Placed
  simp only [hc, hh]
  exact h

theorem owned_initial {handles : List H} (hn : handles.Nodup) :
    Owned handles (initial handles : State T H) := by
  intro stmt hm
  refine Or.inl ⟨?_, by simp [Holds, initial]⟩
  rw [initial, List.count_eq_one_of_mem (hn.map (Option.some_injective H))]
  exact List.mem_map.mpr ⟨stmt, hm, rfl⟩

end Ownership

section Counting

/-- No call is between its wait and its scan. -/
def Quiescent (s : State T H) : Prop := ∀ t, s.threads t ≠ .admitted

def CountsFilled (s : State T H) : Prop := Quiescent s → s.sem = filledSlots s.slots

def AcquiresHandle (s : State T H) : Event T → Prop
  | .scan _ => (cplAcquireStmt s.slots).1.isSome
  | _ => True

/-- No release, and where the semaphore is passed by value no acquire either. -/
def Harmless (p : SemaT) : Event T → Prop
  | .wait _ => True
  | .scan _ => p = .byReference
  | .release _ => False

structure Admits (s : State T H) (l : List T) : Prop where
  nodup : l.Nodup
  mem : ∀ t, t ∈ l ↔ s.threads t = .admitted

theorem admits_nil_of_quiescent {s : State T H} {l : List T} (h : Admits s l)
    (hq : Quiescent s) : l = [] := by
  refine List.eq_nil_iff_forall_not_mem.mpr fun t ht => ?_
  exact hq t ((h.mem t).mp ht)

def Event.releases : Event T → ℕ
  | .release _ => 1
  | _ => 0

def Event.scans : Event T → Prop
  | .scan _ => True
  | _ => False

end Counting

variable [DecidableEq T]

def next (p : SemaT) (s : State T H) : Event T → State T H
  | .wait t => { s with
      sem := p.afterCall s.sem (s.sem - 1)
      threads := update s.threads t .admitted }
  | .scan t =>
    let r := cplAcquireStmt s.slots
    ⟨p.afterCall s.sem (s.sem + r.2.2), r.2.1, update s.threads t (.holding r.1)⟩
  | .release t =>
    match s.threads t with
    | .holding stmt =>
      let r := cplReleaseStmt stmt s.slots
      ⟨p.afterCall s.sem (s.sem + r.2), r.1, update s.threads t .outside⟩
    | _ => s

theorem next_release {p : SemaT} {s : State T H} {t : T} {stmt : Option H}
    (h : s.threads t = .holding stmt) : next p s (.release t) =
      ⟨p.afterCall s.sem (s.sem + (freeSlots s.slots + 1)), s.slots.map (·.or stmt),
        update s.threads t .outside⟩ := by
  simp only [next, h, cplReleaseStmt_eq]

theorem holds_update {threads : T → Client H} {slots : List (Option H)} {n : ℕ} {t : T}
    {c : Client H} {stmt : H} (hb : threads t ≠ .holding (some stmt))
    (ha : c ≠ .holding (some stmt)) (u : T) :
    Holds ⟨n, slots, update threads t c⟩ u stmt ↔ threads u = .holding (some stmt) := by
  unfold Holds
  by_cases hu : u = t
  · subst hu
    simp [ha, hb]
  · simp [hu]

variable {handles : List H} {p : SemaT} {s : State T H}

theorem original_next {e : Event T} (he : Enabled s e) (h : Original handles s) :
    Original handles (next p s e) := by
  have held : ∀ t c, (∀ stmt, c = .holding (some stmt) → stmt ∈ handles) →
      ∀ u stmt, update s.threads t c u = .holding (some stmt) → stmt ∈ handles := by
    intro t c hc u stmt hu
    by_cases hut : u = t
    · subst hut
      exact hc stmt (by simpa using hu)
    · exact h.held u stmt (by simpa [Holds, hut] using hu)
  cases e with
  | wait t => exact ⟨h.slots, held t _ (by simp)⟩
  | scan t =>
    unfold next
    rcases cplAcquireStmt_cases s.slots with ⟨l₁, got, l₂, hslots, hr⟩ | ⟨-, hr⟩
    · have hgot : got ∈ handles := h.slots got (by simp [hslots])
      simp only [hr]
      refine ⟨fun stmt hm => h.slots stmt ?_, held t _ fun stmt hs => ?_⟩
      · rw [hslots]
        simp only [List.mem_append, List.mem_cons, reduceCtorEq, false_or] at hm ⊢
        exact hm.imp_right Or.inr
      · simp only [Client.holding.injEq, Option.some.injEq] at hs
        exact hs ▸ hgot
    · simp only [hr]
      exact ⟨h.slots, held t _ (by simp)⟩
  | release t =>
    obtain ⟨x, hx⟩ := exists_holding he
    rw [next_release hx]
    refine ⟨fun stmt hm => ?_, held t _ (by simp)⟩
    obtain ⟨y, hy, hor⟩ := List.mem_map.mp hm
    cases y with
    | some other => exact h.slots stmt (by simpa [← hor] using hy)
    | none =>
      simp only [Option.none_or] at hor
      exact h.held t stmt (by rw [Holds, hx, hor])

section Ownership

variable [DecidableEq H]

theorem placed_wait {t : T} {stmt : H} (he : Enabled s (.wait t)) (h : Placed s stmt) :
    Placed (next p s (.wait t)) stmt :=
  h.congr rfl fun u => holds_update (by simp [he.1]) (by simp) u

theorem placed_scan {t : T} {stmt : H} (he : Enabled s (.scan t)) (h : Placed s stmt) :
    Placed (next p s (.scan t)) stmt := by
  have hout : s.threads t ≠ .holding (some stmt) := by
    rw [show s.threads t = .admitted from he]
    simp
  unfold next
  rcases cplAcquireStmt_cases s.slots with ⟨l₁, got, l₂, hslots, hr⟩ | ⟨-, hr⟩
  · simp only [hr]
    by_cases hs : stmt = got
    · subst hs
      rcases h with ⟨hc, hno⟩ | ⟨hc, -⟩
      · refine Or.inr ⟨?_, t, by simp [Holds], fun u hu => ?_⟩
        · rw [hslots] at hc
          simp only [List.count_append, List.count_cons_self, List.count_cons,
            beq_iff_eq, reduceCtorEq, if_false] at hc ⊢
          omega
        · by_contra hne
          refine hno u ?_
          simpa [Holds, hne] using hu
      · rw [hslots] at hc
        simp [List.count_append] at hc
    · refine h.congr ?_ fun u => holds_update hout (by simp [Ne.symm hs]) u
      rw [hslots]
      simp [List.count_append, Ne.symm hs]
  · simp only [hr]
    exact h.congr rfl fun u => holds_update hout (by simp) u

theorem placed_release {t : T} {stmt : H} (he : Enabled s (.release t))
    (ha : ReleasesAlone s (.release t)) (h : Placed s stmt) :
    Placed (next p s (.release t)) stmt := by
  obtain ⟨x, hx⟩ := exists_holding he
  rw [next_release hx]
  by_cases hs : x = some stmt
  · subst hs
    have hfree : freeSlots s.slots = 1 := ha ⟨stmt, hx⟩
    rcases h with ⟨-, hno⟩ | ⟨h0, u, hu, huniq⟩
    · exact absurd hx (hno t)
    · refine Or.inl ⟨?_, fun v hv => ?_⟩
      · rw [count_fill, h0, hfree]
      · by_cases hvt : v = t
        · subst hvt
          simp [Holds] at hv
        · refine hvt ((huniq v ?_).trans (huniq t hx).symm)
          simpa [Holds, hvt] using hv
  · have hkeep : s.threads t ≠ .holding (some stmt) := by simpa [hx] using hs
    refine h.congr ?_ fun u => holds_update hkeep (by simp) u
    cases x with
    | none => simp
    | some got => exact count_fill_ne _ fun he => hs (congrArg some he.symm)

theorem owned_next {e : Event T} (he : Enabled s e) (ha : ReleasesAlone s e)
    (h : Owned handles s) : Owned handles (next p s e) := by
  intro stmt hm
  cases e with
  | wait t => exact placed_wait he (h stmt hm)
  | scan t => exact placed_scan he (h stmt hm)
  | release t => exact placed_release he ha (h stmt hm)

/-- A release that keeps the ownership has found exactly one free slot. -/
theorem releasesAlone_of_owned {e : Event T} (he : Enabled s e)
    (h : Owned handles s ∧ Original handles s)
    (h' : Owned handles (next p s e) ∧ Original handles (next p s e)) : ReleasesAlone s e := by
  cases e with
  | wait t => trivial
  | scan t => trivial
  | release t =>
    rintro ⟨stmt, hx⟩
    have hm := h.2.held t stmt hx
    have hafter := h'.1 stmt hm
    rw [next_release hx] at hafter
    rcases h.1 stmt hm with ⟨-, hno⟩ | ⟨h0, u, -, huniq⟩
    · exact absurd hx (hno t)
    · rcases hafter with ⟨hc, -⟩ | ⟨-, v, hv, -⟩
      · rw [count_fill, h0] at hc
        omega
      · by_cases hvt : v = t
        · subst hvt
          simp [Holds] at hv
        · refine absurd ((huniq v ?_).trans (huniq t hx).symm) hvt
          simpa [Holds, hvt] using hv

/-- Two handles are out; releasing the first one fills both slots with it. -/
theorem release_duplicates_handle :
    let events : List (Event ℕ) := [.wait 0, .scan 0, .wait 1, .scan 1, .release 0]
    let final := runTrace (next .byValue) (initial [1, 2, 3, 4]) events
    EachStep (next .byValue) Enabled (initial [1, 2, 3, 4]) events ∧
      final.slots = [some 1, some 1, some 3, some 4] ∧ ¬ Owned [1, 2, 3, 4] final := by
  refine ⟨by decide, by decide, fun h => ?_⟩
  rcases h 1 (by decide) with ⟨hc, -⟩ | ⟨hc, -⟩
  · revert hc; decide
  · revert hc; decide

/-- In every run from a filled pool, each handle has exactly one place throughout if and only
if each handle is released while no other one is out. -/
theorem owned_iff_releasesAlone (hn : handles.Nodup) {events : List (Event T)}
    (hv : EachStep (next p) Enabled (initial handles) events) :
    Throughout (next p) (Owned handles) (initial handles) events ↔
      EachStep (next p) ReleasesAlone (initial handles) events := by
  constructor
  · intro howned
    have horig : Throughout (next p) (Original handles) (initial handles) events :=
      throughout_of_step (fun _ _ h he => original_next he h) original_initial hv
    exact eachStep_of_throughout (C := Enabled) (fun _ _ h he h' => releasesAlone_of_owned he h h')
      (howned.and horig) hv
  · intro halone
    exact throughout_of_step (fun _ _ h hc => owned_next hc.1 hc.2 h) (owned_initial hn)
      (hv.and halone)

theorem owned_iff_releasesAlone_single :
    Throughout (next .byReference) (Owned [1, 2, 3, 4]) (initial [1, 2, 3, 4])
      ([.wait 0, .scan 0, .release 0] : List (Event ℕ)) :=
  (owned_iff_releasesAlone (by decide) (by decide)).mpr
    ⟨trivial, trivial, fun _ => by decide, trivial⟩

end Ownership

section Counting

theorem Admits.wait {l : List T} (h : Admits s l) {t : T} (ho : s.threads t = .outside) (n : ℕ) :
    Admits ⟨n, s.slots, update s.threads t .admitted⟩ (t :: l) := by
  refine ⟨List.nodup_cons.mpr ⟨fun hm => ?_, h.nodup⟩, fun u => ?_⟩
  · rw [h.mem, ho] at hm
    cases hm
  · by_cases hu : u = t
    · simp [hu]
    · simp [hu, h.mem]

theorem Admits.leave {l : List T} (h : Admits s l) (t : T) {c : Client H} (hc : c ≠ .admitted)
    (n : ℕ) (slots : List (Option H)) :
    Admits ⟨n, slots, update s.threads t c⟩ (l.erase t) := by
  refine ⟨h.nodup.erase t, fun u => ?_⟩
  rw [h.nodup.mem_erase_iff]
  by_cases hu : u = t
  · simp [hu, hc]
  · simp [hu, h.mem]

/-- By reference, the permits and the admitted threads exceed the filled slots by at least one
for each release. -/
theorem surplus_next {l : List T} (h : Admits s l) {e : Event T} (he : Enabled s e) {k : ℕ}
    (hk : filledSlots s.slots + k ≤ s.sem + l.length) :
    ∃ l', Admits (next .byReference s e) l' ∧
      filledSlots (next .byReference s e).slots + (k + e.releases) ≤
        (next .byReference s e).sem + l'.length := by
  cases e with
  | wait t =>
    refine ⟨t :: l, h.wait he.1 _, ?_⟩
    have hpos := he.2
    simp only [next, SemaT.afterCall, Event.releases, List.length_cons]
    omega
  | scan t =>
    have hlen := List.length_erase_add_one ((h.mem t).mpr he)
    refine ⟨l.erase t, h.leave t (by simp) _ _, ?_⟩
    simp only [next, SemaT.afterCall, Event.releases]
    rcases cplAcquireStmt_cases s.slots with ⟨l₁, got, l₂, hslots, hr⟩ | ⟨h0, hr⟩
    · rw [hslots, filledSlots_take] at hk
      simp only [hr]
      omega
    · simp only [hr]
      omega
  | release t =>
    obtain ⟨x, hx⟩ := exists_holding he
    have hmem : t ∉ l := fun hm => by rw [h.mem, hx] at hm; cases hm
    have hlen : (l.erase t).length = l.length := by rw [List.erase_of_not_mem hmem]
    have hle := filledSlots_le (s.slots.map (·.or x))
    have hsum := filledSlots_add_freeSlots s.slots
    rw [List.length_map] at hle
    rw [next_release hx]
    refine ⟨l.erase t, h.leave t (by simp) _ _, ?_⟩
    simp only [SemaT.afterCall, Event.releases, hlen]
    omega

theorem surplus_runTrace {events : List (Event T)} : ∀ {s : State T H} {l : List T} {k : ℕ},
    Admits s l → EachStep (next .byReference) Enabled s events →
    filledSlots s.slots + k ≤ s.sem + l.length →
    ∃ l', Admits (runTrace (next .byReference) s events) l' ∧
      filledSlots (runTrace (next .byReference) s events).slots +
        (k + (events.map Event.releases).sum) ≤
          (runTrace (next .byReference) s events).sem + l'.length := by
  induction events with
  | nil => exact fun h _ hk => ⟨_, h, hk⟩
  | cons e es ih =>
    intro s l k h hv hk
    obtain ⟨l₁, h₁, hk₁⟩ := surplus_next h hv.1 hk
    obtain ⟨l₂, h₂, hk₂⟩ := ih h₁ hv.2 hk₁
    exact ⟨l₂, h₂, by simpa [Nat.add_assoc] using hk₂⟩

/-- Without a release the count by reference is exact, so every scan finds a handle. -/
theorem exact_next {l : List T} (h : Admits s l) {e : Event T} (he : Enabled s e)
    (hr : e.releases = 0) (hk : filledSlots s.slots = s.sem + l.length) :
    AcquiresHandle s e ∧ ∃ l', Admits (next .byReference s e) l' ∧
      filledSlots (next .byReference s e).slots = (next .byReference s e).sem + l'.length := by
  cases e with
  | wait t =>
    refine ⟨trivial, t :: l, h.wait he.1 _, ?_⟩
    have hpos := he.2
    simp only [next, SemaT.afterCall, List.length_cons]
    omega
  | scan t =>
    have hlen := List.length_erase_add_one ((h.mem t).mpr he)
    rcases cplAcquireStmt_cases s.slots with ⟨l₁, got, l₂, hslots, hr⟩ | ⟨h0, hr⟩
    · refine ⟨by simp [AcquiresHandle, hr], l.erase t, h.leave t (by simp) _ _, ?_⟩
      rw [hslots, filledSlots_take] at hk
      simp only [next, SemaT.afterCall, hr]
      omega
    · omega
  | release t => cases hr

section ByValue

/-- By value the semaphore never changes, and slots are only filled and emptied. -/
theorem byValue_next {e : Event T} (he : Enabled s e) : (next .byValue s e).sem = s.sem ∧
    (next .byValue s e).slots.length = s.slots.length := by
  cases e with
  | wait t => exact ⟨rfl, rfl⟩
  | scan t =>
    rcases cplAcquireStmt_cases s.slots with ⟨l₁, got, l₂, hslots, hr⟩ | ⟨h0, hr⟩
    · simp only [next, SemaT.afterCall, hr]
      simp [hslots]
    · simp [next, SemaT.afterCall, hr]
  | release t =>
    obtain ⟨x, hx⟩ := exists_holding he
    rw [next_release hx]
    simp [SemaT.afterCall]

theorem admitted_stays {events : List (Event T)} (t : T) : ∀ {s : State T H},
    s.threads t = .admitted → EachStep (next p) Enabled s events →
    (∀ e ∈ events, ¬ e.scans) → (runTrace (next p) s events).threads t = .admitted := by
  induction events with
  | nil => exact fun h _ _ => h
  | cons e es ih =>
    intro s h hv hn
    refine ih ?_ hv.2 fun x hx => hn x (List.mem_cons_of_mem e hx)
    cases e with
    | wait u =>
      have hu : t ≠ u := by rintro rfl; rw [hv.1.1] at h; cases h
      simpa [next, hu] using h
    | scan u => exact absurd trivial (hn _ List.mem_cons_self)
    | release u =>
      obtain ⟨x, hx⟩ := exists_holding hv.1
      have hu : t ≠ u := by rintro rfl; rw [hx] at h; cases h
      rw [next_release hx]
      simpa [hu] using h

/-- After the last scan nobody is admitted and a slot is empty, but the semaphore is full. -/
theorem byValue_no_scan {events : List (Event T)} : ∀ {s : State T H}, s.sem = s.slots.length →
    EachStep (next .byValue) Enabled s events →
    Throughout (next .byValue) CountsFilled s events →
    EachStep (next .byValue) AcquiresHandle s events →
    Quiescent (runTrace (next .byValue) s events) → ∀ e ∈ events, ¬ e.scans := by
  induction events with
  | nil => simp
  | cons e es ih =>
    intro s hs hv hc ha hq
    have hn := byValue_next hv.1
    have hes := ih (by rw [hn.1, hn.2, hs]) hv.2 hc.2 ha.2 hq
    intro x hx
    rcases List.mem_cons.mp hx with rfl | hx
    · cases x with
      | wait t => exact fun h => h
      | release t => exact fun h => h
      | scan t =>
        intro _
        have hq' : Quiescent (next .byValue s (.scan t)) := by
          intro u hu
          have hstay := admitted_stays u hu hv.2 hes
          exact hq u hstay
        have hcount := hc.2.first hq'
        have hle := filledSlots_le s.slots
        have hgot := ha.1
        rcases cplAcquireStmt_cases s.slots with ⟨l₁, got, l₂, hslots, hr⟩ | ⟨-, hr⟩
        · rw [hn.1] at hcount
          simp only [next, hr] at hcount
          rw [hslots, filledSlots_take] at hle
          rw [hslots] at hs
          omega
        · simp [AcquiresHandle, hr] at hgot
    · exact hes x hx

theorem byValue_harmless {events : List (Event T)} : ∀ {s : State T H},
    (∀ t, ¬ (s.threads t).IsHolding) → EachStep (next .byValue) Enabled s events →
    (∀ e ∈ events, ¬ e.scans) → ∀ e ∈ events, Harmless .byValue e := by
  induction events with
  | nil => simp
  | cons e es ih =>
    intro s hs hv hn
    have hhead : Harmless .byValue e := by
      cases e with
      | wait t => trivial
      | scan t => exact absurd trivial (hn _ List.mem_cons_self)
      | release t => exact absurd hv.1 (hs t)
    refine List.forall_mem_cons.mpr ⟨hhead, ?_⟩
    refine ih (fun t => ?_) hv.2 fun x hx => hn x (List.mem_cons_of_mem e hx)
    cases e with
    | wait u =>
      by_cases hu : t = u
      · simp [next, hu, Client.IsHolding]
      · simpa [next, hu] using hs t
    | scan u => exact absurd trivial (hn _ List.mem_cons_self)
    | release u => exact absurd hv.1 (hs u)

end ByValue

/-- What the callers rely on: between calls the semaphore counts the filled slots, and a call
that gets past the wait comes back with a handle. -/
structure SemaphoreCounts (p : SemaT) (handles : List H) (events : List (Event T)) : Prop where
  counts : Throughout (next p) CountsFilled (initial handles) events
  acquires : EachStep (next p) AcquiresHandle (initial handles) events

theorem counts_of_harmless_byReference (hlen : handles.length = cplStmtMax)
    {events : List (Event T)} (hv : EachStep (next .byReference) Enabled (initial handles) events)
    (hh : ∀ e ∈ events, Harmless .byReference e) :
    SemaphoreCounts .byReference handles events := by
  have hr : ∀ e ∈ events, e.releases = 0 := by
    intro e he
    have := hh e he
    cases e with
    | release t => exact this.elim
    | _ => rfl
  have hsteps := hv.and (eachStep_of_forall hr)
  have hinv : Throughout (next .byReference)
      (fun s : State T H => ∃ l, Admits s l ∧ filledSlots s.slots = s.sem + l.length)
      (initial handles) events :=
    throughout_of_step (fun s e ⟨l, h, hk⟩ hc => (exact_next h hc.1 hc.2 hk).2)
      ⟨[], ⟨List.nodup_nil, by simp [initial]⟩, by simp [initial, filledSlots_map_some, hlen]⟩
      hsteps
  refine ⟨hinv.imp fun s ⟨l, h, hk⟩ hq => ?_, eachStep_of_throughout
    (fun s e ⟨l, h, hk⟩ hc _ => (exact_next h hc.1 hc.2 hk).1) hinv hsteps⟩
  rw [admits_nil_of_quiescent h hq] at hk
  exact hk.symm

theorem counts_of_harmless_byValue (hlen : handles.length = cplStmtMax)
    {events : List (Event T)} (hv : EachStep (next .byValue) Enabled (initial handles) events)
    (hh : ∀ e ∈ events, Harmless .byValue e) : SemaphoreCounts .byValue handles events := by
  have hsteps := hv.and (eachStep_of_forall hh)
  have hstep : ∀ (s : State T H) e, s.sem = filledSlots s.slots →
      Enabled s e ∧ Harmless .byValue e →
      (next .byValue s e).sem = filledSlots (next .byValue s e).slots := by
    intro s e hs hc
    cases e with
    | wait t => exact hs
    | scan t => cases hc.2
    | release t => exact hc.2.elim
  have hinv := throughout_of_step hstep (s := initial handles)
    (by simp [initial, filledSlots_map_some, hlen]) hsteps
  refine ⟨hinv.imp fun s hs _ => hs, eachStep_of_throughout (fun s e _ hc _ => ?_) hinv hsteps⟩
  cases e with
  | scan t => cases hc.2
  | _ => trivial

def oneAcquire : List (Event ℕ) := [.wait 0, .scan 0]

def oneUse : List (Event ℕ) := [.wait 0, .scan 0, .release 0]

/-- By value the first acquire loses the count, by reference the first release does. -/
theorem semaphore_loses_count :
    (EachStep (next .byValue) Enabled (initial [1, 2, 3, 4]) oneAcquire ∧
      (runTrace (next .byValue) (initial [1, 2, 3, 4]) oneAcquire).sem = 4 ∧
      filledSlots (runTrace (next .byValue) (initial [1, 2, 3, 4]) oneAcquire).slots = 3) ∧
    EachStep (next .byReference) Enabled (initial [1, 2, 3, 4]) oneUse ∧
      (runTrace (next .byReference) (initial [1, 2, 3, 4]) oneUse).sem = 5 ∧
      filledSlots (runTrace (next .byReference) (initial [1, 2, 3, 4]) oneUse).slots = 4 := by
  decide

/-- The semaphore counts the filled slots in exactly the runs without a release and, where it
is passed by value, without an acquire. -/
theorem semaphoreCounts_iff_harmless (hlen : handles.length = cplStmtMax)
    {events : List (Event T)} (hv : EachStep (next p) Enabled (initial handles) events) :
    ((∀ e ∈ events, Harmless p e) → SemaphoreCounts p handles events) ∧
      (Quiescent (runTrace (next p) (initial handles) events) →
        SemaphoreCounts p handles events → ∀ e ∈ events, Harmless p e) := by
  cases p with
  | byReference =>
    refine ⟨counts_of_harmless_byReference hlen hv, fun hq hc e he => ?_⟩
    obtain ⟨l, hl, hk⟩ := surplus_runTrace (k := 0) (l := [])
      ⟨List.nodup_nil, by simp [initial]⟩ hv (by simp [initial, filledSlots_map_some, hlen])
    rw [admits_nil_of_quiescent hl hq, hc.counts.last hq] at hk
    have hsum : (events.map Event.releases).sum = 0 := by
      simp only [List.length_nil] at hk
      omega
    have hzero := List.sum_eq_zero_iff_forall_eq_nat.mp hsum e.releases
      (List.mem_map.mpr ⟨e, he, rfl⟩)
    cases e with
    | wait t => trivial
    | scan t => rfl
    | release t => cases hzero
  | byValue =>
    refine ⟨counts_of_harmless_byValue hlen hv, fun hq hc => ?_⟩
    refine byValue_harmless (fun t => by simp [initial, Client.IsHolding]) hv ?_
    exact byValue_no_scan (by simp [initial, hlen]) hv hc.counts hc.acquires hq

theorem semaphoreCounts_iff_harmless_acquires :
    SemaphoreCounts .byReference [1, 2, 3, 4]
      ([.wait 0, .wait 1, .scan 1, .scan 0] : List (Event ℕ)) :=
  (semaphoreCounts_iff_harmless rfl (by decide)).1 (by simp [Harmless])

end Counting

end StatementPool
