import ProvCpl.EventTrace
import ProvCpl.InsertOnce
import ProvCpl.ProvStore
import Mathlib.Logic.Function.Basic

/-! # Insertions by several clients

Under READ COMMITTED the condition of a rule is evaluated on the rows that are committed when
the statement starts; its row is added and committed in a later step. No unique constraint
stands behind the rules, so two insertions of one key that overlap can both add their row. -/
namespace ConcurrentInserts

open CplTypes ProvStore InsertOnce EventTrace
open Function (update)

inductive Insertion where
  | objectProperty (r : PropertyRow)
  | relationProperty (r : PropertyRow)
  | bundlePrefix (r : PrefixRow)
  deriving DecidableEq, Repr

/-- The condition of the rule of the table. -/
def Insertion.Duplicate (s : Store) : Insertion → Prop
  | .objectProperty r => Present SameKey s.objectProperties r
  | .relationProperty r => Present SameKey s.relationProperties r
  | .bundlePrefix r => Present SamePrefix s.prefixes r

instance (s : Store) : (i : Insertion) → Decidable (i.Duplicate s)
  | .objectProperty r => inferInstanceAs (Decidable (Present SameKey s.objectProperties r))
  | .relationProperty r => inferInstanceAs (Decidable (Present SameKey s.relationProperties r))
  | .bundlePrefix r => inferInstanceAs (Decidable (Present SamePrefix s.prefixes r))

def Insertion.HasOwner (s : Store) : Insertion → Prop
  | .objectProperty r => r.id ∈ s.objects.map (·.id)
  | .relationProperty r => r.id ∈ s.relations.map (·.id)
  | .bundlePrefix r => r.id ∈ s.objects.map (·.id)

instance (s : Store) : (i : Insertion) → Decidable (i.HasOwner s)
  | .objectProperty r => inferInstanceAs (Decidable (r.id ∈ s.objects.map (·.id)))
  | .relationProperty r => inferInstanceAs (Decidable (r.id ∈ s.relations.map (·.id)))
  | .bundlePrefix r => inferInstanceAs (Decidable (r.id ∈ s.objects.map (·.id)))

def Insertion.append (s : Store) : Insertion → Store
  | .objectProperty r => { s with objectProperties := s.objectProperties ++ [r] }
  | .relationProperty r => { s with relationProperties := s.relationProperties ++ [r] }
  | .bundlePrefix r => { s with prefixes := s.prefixes ++ [r] }

/-- The statement run at once, as when no other client comes between. -/
def Insertion.run (s : Store) : Insertion → Option Store
  | .objectProperty r => s.insertObjectProperty r
  | .relationProperty r => s.insertRelationProperty r
  | .bundlePrefix r => s.insertPrefix r

def Insertion.Clashes : Insertion → Insertion → Prop
  | .objectProperty q, .objectProperty r => SameKey q r
  | .relationProperty q, .relationProperty r => SameKey q r
  | .bundlePrefix q, .bundlePrefix r => SamePrefix q r
  | _, _ => False

/-- Where a client's connection is; `duplicate` is what the rule's condition came out to be. -/
inductive Session where
  | idle
  | started (i : Insertion) (duplicate : Bool)
  deriving DecidableEq, Repr

variable {T : Type*}

structure State (T : Type*) where
  store : Store
  sessions : T → Session

def initial : State T := ⟨Store.fresh, fun _ => .idle⟩

inductive Event (T : Type*) where
  | start (t : T) (i : Insertion)
  | finish (t : T)
  | createObject (nsPrefix name : String) (type : ℤ) (now : ℕ)
  | addRelation (fromId toId : ℕ) (type : ℤ)

def Enabled (s : State T) : Event T → Prop
  | .start t _ => s.sessions t = .idle
  | .finish t => s.sessions t ≠ .idle
  | .createObject _ _ type _ => EnsureOType type
  | .addRelation fromId toId type => fromId ≠ 0 ∧ toId ≠ 0 ∧ EnsureRType type

instance (s : State T) : (e : Event T) → Decidable (Enabled s e)
  | .start t _ => inferInstanceAs (Decidable (s.sessions t = .idle))
  | .finish t => inferInstanceAs (Decidable (s.sessions t ≠ .idle))
  | .createObject _ _ type _ => inferInstanceAs (Decidable (EnsureOType type))
  | .addRelation fromId toId type =>
    inferInstanceAs (Decidable (fromId ≠ 0 ∧ toId ≠ 0 ∧ EnsureRType type))

def Session.commit (s : Store) : Session → Store
  | .started i false => if i.HasOwner s then i.append s else s
  | _ => s

section Steps

variable [DecidableEq T]

def next (s : State T) : Event T → State T
  | .start t i => { s with
      sessions := update s.sessions t (.started i (decide (i.Duplicate s.store))) }
  | .finish t => ⟨(s.sessions t).commit s.store, update s.sessions t .idle⟩
  | .createObject nsPrefix name type now =>
    { s with store := s.store.insertObject nsPrefix name type now }
  | .addRelation fromId toId type =>
    { s with store := s.store.insertRelation fromId toId type }

/-- At most one row for each key that a rule compares. -/
structure OneRowPerKey (s : Store) : Prop where
  objectProperties : OnePerKey SameKey s.objectProperties
  relationProperties : OnePerKey SameKey s.relationProperties
  prefixes : OnePerKey SamePrefix s.prefixes

instance (s : Store) : Decidable (OneRowPerKey s) :=
  decidable_of_iff (OnePerKey SameKey s.objectProperties ∧
      OnePerKey SameKey s.relationProperties ∧ OnePerKey SamePrefix s.prefixes)
    ⟨fun h => ⟨h.1, h.2.1, h.2.2⟩, fun h => ⟨h.1, h.2, h.3⟩⟩

/-- No insertion starts while another one of its key, which has found no row, is under way. -/
def Alone (s : State T) : Event T → Prop
  | .start _ i => ∀ u j, s.sessions u = .started j false → ¬ j.Clashes i
  | _ => True

theorem run_duplicate {s : Store} {i : Insertion} (ho : i.HasOwner s) (hd : i.Duplicate s) :
    i.run s = some s := by
  cases i with
  | objectProperty r =>
    refine (if_pos ho).trans (congrArg some ?_)
    exact congrArg (fun rows => { s with objectProperties := rows }) (if_pos hd)
  | relationProperty r =>
    refine (if_pos ho).trans (congrArg some ?_)
    exact congrArg (fun rows => { s with relationProperties := rows }) (if_pos hd)
  | bundlePrefix r =>
    refine (if_pos ho).trans (congrArg some ?_)
    exact congrArg (fun rows => { s with prefixes := rows }) (if_pos hd)

theorem run_new {s : Store} {i : Insertion} (ho : i.HasOwner s) (hd : ¬ i.Duplicate s) :
    i.run s = some (i.append s) := by
  cases i with
  | objectProperty r =>
    refine (if_pos ho).trans (congrArg some ?_)
    exact congrArg (fun rows => { s with objectProperties := rows }) (if_neg hd)
  | relationProperty r =>
    refine (if_pos ho).trans (congrArg some ?_)
    exact congrArg (fun rows => { s with relationProperties := rows }) (if_neg hd)
  | bundlePrefix r =>
    refine (if_pos ho).trans (congrArg some ?_)
    exact congrArg (fun rows => { s with prefixes := rows }) (if_neg hd)

theorem run_ownerless {s : Store} {i : Insertion} (ho : ¬ i.HasOwner s) : i.run s = none := by
  cases i <;> exact if_neg ho

/-- A start and a finish with nothing between them run the statement; when the statement is
refused, the store stays. -/
theorem start_finish (s : State T) (t : T) (i : Insertion) :
    (next (next s (.start t i)) (.finish t)).store = (i.run s.store).getD s.store := by
  simp only [next, Function.update_self]
  by_cases hd : i.Duplicate s.store
  · by_cases ho : i.HasOwner s.store
    · simp [Session.commit, hd, run_duplicate ho hd]
    · simp [Session.commit, hd, run_ownerless ho]
  · by_cases ho : i.HasOwner s.store
    · simp [Session.commit, hd, ho, run_new ho hd]
    · simp [Session.commit, hd, ho, run_ownerless ho]

end Steps

theorem OneRowPerKey.append {s : Store} (h : OneRowPerKey s) {i : Insertion}
    (hi : ¬ i.Duplicate s) : OneRowPerKey (i.append s) := by
  cases i with
  | objectProperty r => exact { h with objectProperties := h.objectProperties.append hi }
  | relationProperty r => exact { h with relationProperties := h.relationProperties.append hi }
  | bundlePrefix r => exact { h with prefixes := h.prefixes.append hi }

/-- An append makes duplicates of the insertions of its key only. -/
theorem duplicate_append {s : Store} {i j : Insertion} (h : j.Duplicate (i.append s)) :
    j.Duplicate s ∨ i.Clashes j := by
  cases i <;> cases j <;>
    first
      | exact Or.inl h
      | exact present_append.mp h

theorem clashes_symm {i j : Insertion} (h : i.Clashes j) : j.Clashes i := by
  cases i <;> cases j <;>
    first
      | exact h.elim
      | exact ⟨h.1.symm, h.2.1.symm, h.2.2.1.symm, h.2.2.2.symm⟩
      | exact ⟨h.1.symm, h.2.symm⟩

theorem not_oneRowPerKey_append {s : Store} {i j : Insertion} (hij : i.Clashes j) :
    ¬ OneRowPerKey (j.append (i.append s)) := by
  intro h
  cases i with
  | objectProperty q =>
    cases j with
    | objectProperty r =>
      have hmem : q ∈ s.objectProperties ++ [q] := by simp
      exact not_onePerKey_append hmem (hij : SameKey q r) h.objectProperties
    | relationProperty r => exact hij
    | bundlePrefix r => exact hij
  | relationProperty q =>
    cases j with
    | objectProperty r => exact hij
    | relationProperty r =>
      have hmem : q ∈ s.relationProperties ++ [q] := by simp
      exact not_onePerKey_append hmem (hij : SameKey q r) h.relationProperties
    | bundlePrefix r => exact hij
  | bundlePrefix q =>
    cases j with
    | objectProperty r => exact hij
    | relationProperty r => exact hij
    | bundlePrefix r =>
      have hmem : q ∈ s.prefixes ++ [q] := by simp
      exact not_onePerKey_append hmem (hij : SamePrefix q r) h.prefixes

structure Invariant (s : State T) : Prop where
  unique : OneRowPerKey s.store
  absent : ∀ t i, s.sessions t = .started i false → ¬ i.Duplicate s.store
  apart : ∀ t u i j, s.sessions t = .started i false → s.sessions u = .started j false →
    t ≠ u → ¬ i.Clashes j

theorem invariant_initial : Invariant (initial : State T) where
  unique := ⟨onePerKey_nil, onePerKey_nil, onePerKey_nil⟩
  absent := fun _ _ h => by cases h
  apart := fun _ _ _ _ h => by cases h

section Steps

variable [DecidableEq T] {s : State T}

theorem invariant_start (h : Invariant s) {t : T} {i : Insertion} (ha : Alone s (.start t i)) :
    Invariant (next s (.start t i)) where
  unique := h.unique
  absent := by
    intro u j hu
    simp only [next, Function.update_apply] at hu ⊢
    split at hu
    · obtain ⟨rfl, hd⟩ := Session.started.inj hu
      exact of_decide_eq_false hd
    · exact h.absent u j hu
  apart := by
    intro u v j k hu hv huv
    simp only [next, Function.update_apply] at hu hv
    by_cases hut : u = t
    · rw [if_pos hut] at hu
      rw [if_neg fun hvt => huv (hut.trans hvt.symm)] at hv
      obtain ⟨rfl, -⟩ := Session.started.inj hu
      exact fun hc => ha v k hv (clashes_symm hc)
    · rw [if_neg hut] at hu
      by_cases hvt : v = t
      · rw [if_pos hvt] at hv
        obtain ⟨rfl, -⟩ := Session.started.inj hv
        exact ha u j hu
      · rw [if_neg hvt] at hv
        exact h.apart u v j k hu hv huv

theorem commit_cases (c : Session) (t : Store) :
    c.commit t = t ∨ ∃ i, c = .started i false ∧ c.commit t = i.append t := by
  cases c with
  | idle => exact Or.inl rfl
  | started i duplicate =>
    cases duplicate with
    | true => exact Or.inl rfl
    | false =>
      by_cases ho : i.HasOwner t
      · exact Or.inr ⟨i, rfl, if_pos ho⟩
      · exact Or.inl (if_neg ho)

theorem invariant_finish (h : Invariant s) (t : T) : Invariant (next s (.finish t)) := by
  have hother : ∀ u i, update s.sessions t .idle u = .started i false →
      u ≠ t ∧ s.sessions u = .started i false := by
    intro u i hu
    rw [Function.update_apply] at hu
    by_cases hut : u = t
    · rw [if_pos hut] at hu
      cases hu
    · rw [if_neg hut] at hu
      exact ⟨hut, hu⟩
  refine ⟨?_, ?_, ?_⟩
  · rcases commit_cases (s.sessions t) s.store with hc | ⟨i, hi, hc⟩
    · simpa only [next, hc] using h.unique
    · simpa only [next, hc] using h.unique.append (h.absent t i hi)
  · intro u j hu
    obtain ⟨hut, hu⟩ := hother u j hu
    rcases commit_cases (s.sessions t) s.store with hc | ⟨i, hi, hc⟩
    · simpa only [next, hc] using h.absent u j hu
    · intro hd
      simp only [next, hc] at hd
      rcases duplicate_append hd with hd | hd
      · exact h.absent u j hu hd
      · exact h.apart t u i j hi hu (Ne.symm hut) hd
  · intro u v i j hu hv
    exact h.apart u v i j (hother u i hu).2 (hother v j hv).2

theorem invariant_next {e : Event T} (h : Invariant s) (he : Enabled s e ∧ Alone s e) :
    Invariant (next s e) := by
  cases e with
  | start t i => exact invariant_start h he.2
  | finish t => exact invariant_finish h t
  | createObject nsPrefix name type now =>
    refine ⟨⟨h.unique.1, h.unique.2, h.unique.3⟩, fun t i ht => ?_, h.apart⟩
    have hi := h.absent t i ht
    cases i <;> exact hi
  | addRelation fromId toId type =>
    refine ⟨⟨h.unique.1, h.unique.2, h.unique.3⟩, fun t i ht => ?_, h.apart⟩
    have hi := h.absent t i ht
    cases i <;> exact hi

/-- Two insertions of one key that are both under way and find their owner add two rows. -/
theorem overlap_duplicates {t u : T} {i j : Insertion} (htu : t ≠ u)
    (ht : s.sessions t = .started i false) (hu : s.sessions u = .started j false)
    (hij : i.Clashes j) (hi : i.HasOwner s.store) (hj : j.HasOwner s.store) :
    ¬ OneRowPerKey (runTrace next s [.finish t, .finish u]).store := by
  have hstore : (runTrace next s [.finish t, .finish u]).store =
      j.append (i.append s.store) := by
    have hj' : j.HasOwner (i.append s.store) := by cases i <;> cases j <;> exact hj
    simp only [runTrace_cons, runTrace_nil, next, ht, Session.commit, if_pos hi,
      Function.update_of_ne (Ne.symm htu), hu, if_pos hj']
  rw [hstore]
  exact not_oneRowPerKey_append hij

end Steps

def overlapping : List (Event Bool) := [
  .createObject "" "e" cplEntity 0,
  .start false (.objectProperty ⟨1, "", "k", "a", stringProperty⟩),
  .start true (.objectProperty ⟨1, "", "k", "b", stringProperty⟩),
  .finish false,
  .finish true]

theorem overlapping_insertions_add_two_rows :
    EachStep next Enabled (initial : State Bool) overlapping ∧
      ¬ Throughout next (fun s => OneRowPerKey s.store) (initial : State Bool) overlapping := by
  refine ⟨by decide, fun h => ?_⟩
  have hlast := h.last
  revert hlast
  decide

/-- In every run in which no insertion starts while another one of its key is under way, each
key has at most one row in every state. -/
theorem oneRowPerKey_of_alone [DecidableEq T] {events : List (Event T)}
    (h : EachStep next (fun s e => Enabled s e ∧ Alone s e) initial events) :
    Throughout next (fun s => OneRowPerKey s.store) initial events :=
  (throughout_of_step (fun _ _ => invariant_next) invariant_initial h).imp fun _ hs => hs.unique

theorem oneRowPerKey_of_alone_two : Throughout next (fun s => OneRowPerKey s.store)
    (initial : State Bool) [.createObject "" "e" cplEntity 0,
      .start false (.objectProperty ⟨1, "", "k", "a", stringProperty⟩), .finish false,
      .start true (.objectProperty ⟨1, "", "k", "b", stringProperty⟩), .finish true] := by
  refine oneRowPerKey_of_alone ⟨⟨by decide, trivial⟩, ⟨by decide, ?_⟩, ⟨by decide, trivial⟩,
    ⟨by decide, ?_⟩, ⟨by decide, trivial⟩, trivial⟩
  · intro u j hu
    cases u <;> simp [initial, next] at hu
  · intro u j hu
    cases u <;> simp [initial, next] at hu

end ConcurrentInserts
