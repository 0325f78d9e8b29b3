import ProvCpl.EventTrace

/-! # Custody of a resource

A program takes a resource from an owner, may open and close it, and is to give it back to that
owner once, closed, and before it notifies anyone. The actions of a program are checked by an
automaton whose last phase tells whether it did. -/
namespace Custody

open EventTrace

inductive Action (κ : Type*) where
  | take (k : κ)
  | opened
  | closed
  | give (k : κ)
  | notify
  | other
  deriving DecidableEq, Repr

variable {κ : Type*}

def Action.Transfers : Action κ → Prop
  | .take _ => True
  | .give _ => True
  | _ => False

def Action.opening (isOpen : Bool) : Action κ → Bool
  | .opened => true
  | .closed => false
  | _ => isOpen

def openAfter (isOpen : Bool) (l : List (Action κ)) : Bool := runTrace Action.opening isOpen l

def Action.Quiet (a : Action κ) : Prop := ¬ a.Transfers ∧ a ≠ .notify

/-- It is given back, closed and without a notification before, and nothing else is moved. -/
def Returns (k : κ) (isOpen : Bool) (l : List (Action κ)) : Prop :=
  ∃ during after, l = during ++ .give k :: after ∧ (∀ a ∈ during, a.Quiet) ∧
    (∀ a ∈ after, ¬ a.Transfers) ∧ openAfter isOpen during = false

/-- Nothing is taken and nothing given, or one resource is taken, and it is given back to the
owner that it comes from. -/
def GivenBack (l : List (Action κ)) : Prop :=
  (∀ a ∈ l, ¬ a.Transfers) ∨ ∃ k before rest, l = before ++ .take k :: rest ∧
    (∀ a ∈ before, a.Quiet) ∧ Returns k false rest

section Shift

variable {k : κ} {o : Bool} {a : Action κ} {l : List (Action κ)}

theorem returns_cons_quiet (ha : a.Quiet) : Returns k o (a :: l) ↔ Returns k (a.opening o) l := by
  constructor
  · intro ⟨during, after, hl, hd, hafter, ho⟩
    cases during with
    | nil =>
      cases hl
      exact absurd trivial ha.1
    | cons b during =>
      cases hl
      exact ⟨during, after, rfl, fun c hc => hd c (List.mem_cons_of_mem _ hc), hafter, ho⟩
  · intro ⟨during, after, hl, hd, hafter, ho⟩
    refine ⟨a :: during, after, by rw [hl]; rfl, ?_, hafter, ho⟩
    intro c hc
    rcases List.mem_cons.mp hc with rfl | hc
    · exact ha
    · exact hd c hc

theorem not_returns_cons (ha : ¬ a.Quiet) (hk : a ≠ .give k) : ¬ Returns k o (a :: l) := by
  intro ⟨during, after, hl, hd, _, _⟩
  cases during with
  | nil => exact hk (List.cons.inj hl).1
  | cons b during =>
    cases hl
    exact ha (hd a List.mem_cons_self)

theorem returns_give : Returns k o (.give k :: l) ↔ o = false ∧ ∀ a ∈ l, ¬ a.Transfers := by
  constructor
  · intro ⟨during, after, hl, hd, hafter, ho⟩
    cases during with
    | nil =>
      cases hl
      exact ⟨ho, hafter⟩
    | cons b during =>
      cases hl
      exact absurd trivial (hd _ List.mem_cons_self).1
  · intro ⟨ho, hl⟩
    exact ⟨[], l, rfl, by simp, hl, ho⟩

theorem givenBack_cons_quiet (ha : a.Quiet) : GivenBack (a :: l) ↔ GivenBack l := by
  constructor
  · intro h
    rcases h with h | ⟨k, before, rest, hl, hb, hr⟩
    · exact Or.inl fun c hc => h c (List.mem_cons_of_mem _ hc)
    · cases before with
      | nil =>
        cases hl
        exact absurd trivial ha.1
      | cons b before =>
        cases hl
        exact Or.inr ⟨k, before, rest, rfl, fun c hc => hb c (List.mem_cons_of_mem _ hc), hr⟩
  · intro h
    rcases h with h | ⟨k, before, rest, hl, hb, hr⟩
    · left
      intro c hc
      rcases List.mem_cons.mp hc with rfl | hc
      · exact ha.1
      · exact h c hc
    · refine Or.inr ⟨k, a :: before, rest, by rw [hl]; rfl, ?_, hr⟩
      intro c hc
      rcases List.mem_cons.mp hc with rfl | hc
      · exact ha
      · exact hb c hc

theorem givenBack_take : GivenBack (.take k :: l) ↔ Returns k false l := by
  constructor
  · intro h
    rcases h with h | ⟨k', before, rest, hl, hb, hr⟩
    · exact absurd trivial (h _ List.mem_cons_self)
    · cases before with
      | nil =>
        cases hl
        exact hr
      | cons b before =>
        cases hl
        exact absurd trivial (hb _ List.mem_cons_self).1
  · intro h
    exact Or.inr ⟨k, [], l, rfl, by simp, h⟩

/-- After a notification, and with a resource given that was not taken, no other one is taken
and given back. -/
theorem givenBack_cons_iff (ha : ¬ a.Quiet) (ht : ∀ k, a ≠ .take k) :
    GivenBack (a :: l) ↔ ∀ b ∈ a :: l, ¬ b.Transfers := by
  constructor
  · intro h
    rcases h with h | ⟨k, before, rest, hl, hb, _⟩
    · exact h
    · cases before with
      | nil => exact absurd (List.cons.inj hl).1 (ht k)
      | cons b before =>
        cases hl
        exact absurd (hb a List.mem_cons_self) ha
  · exact Or.inl

end Shift

inductive Phase (κ : Type*) where
  | free
  | held (k : κ) (isOpen : Bool)
  | settled
  | broken
  deriving DecidableEq, Repr

section Automaton

variable [DecidableEq κ]

/-- With nothing taken before the first notification, nothing may be taken at all. -/
def Phase.next : Phase κ → Action κ → Phase κ
  | .free, .take k => .held k false
  | .free, .give _ => .broken
  | .free, .notify => .settled
  | .free, _ => .free
  | .held k o, .give k' => if k = k' ∧ o = false then .settled else .broken
  | .held _ _, .take _ => .broken
  | .held _ _, .notify => .broken
  | .held k o, a => .held k (a.opening o)
  | .settled, .take _ => .broken
  | .settled, .give _ => .broken
  | .settled, _ => .settled
  | .broken, _ => .broken

theorem next_held {a : Action κ} (ha : a.Quiet) (k : κ) (o : Bool) :
    (Phase.held k o).next a = .held k (a.opening o) := by
  cases a with
  | take k' => exact absurd trivial ha.1
  | give k' => exact absurd trivial ha.1
  | notify => exact absurd rfl ha.2
  | _ => rfl

def Phase.Final (φ : Phase κ) : Prop := φ = .free ∨ φ = .settled

instance (φ : Phase κ) : Decidable φ.Final := inferInstanceAs (Decidable (_ ∨ _))

def phaseAfter (l : List (Action κ)) : Phase κ := runTrace Phase.next .free l

theorem phaseAfter_append (l : List (Action κ)) (a : Action κ) :
    phaseAfter (l ++ [a]) = (phaseAfter l).next a := by
  simp [phaseAfter, runTrace]

theorem broken_final (l : List (Action κ)) : ¬ (runTrace Phase.next .broken l).Final := by
  induction l with
  | nil => simp [Phase.Final]
  | cons a l ih => exact ih

theorem settled_final_iff (l : List (Action κ)) :
    (runTrace Phase.next .settled l).Final ↔ ∀ a ∈ l, ¬ a.Transfers := by
  induction l with
  | nil => simp [Phase.Final]
  | cons a l ih =>
    cases a with
    | take k => simpa [Phase.next, Action.Transfers] using broken_final l
    | give k => simpa [Phase.next, Action.Transfers] using broken_final l
    | _ => simpa [Phase.next, Action.Transfers] using ih

/-- What is held has to be given back before anything else is taken. -/
theorem held_final_iff (k : κ) (o : Bool) (l : List (Action κ)) :
    (runTrace Phase.next (.held k o) l).Final ↔ Returns k o l := by
  induction l generalizing o with
  | nil => simp [Phase.Final, Returns]
  | cons a l ih =>
    cases a with
    | take k' =>
      apply iff_of_false (broken_final l)
      exact not_returns_cons (fun h => h.1 trivial) (by simp)
    | give k' =>
      by_cases hk : k = k'
      · subst hk
        rw [returns_give, runTrace_cons, Phase.next]
        cases o with
        | false => simpa using settled_final_iff l
        | true => simpa using broken_final l
      · rw [runTrace_cons, Phase.next, if_neg fun h => hk h.1]
        apply iff_of_false (broken_final l)
        exact not_returns_cons (fun h => h.1 trivial) (by simpa using Ne.symm hk)
    | notify =>
      apply iff_of_false (broken_final l)
      exact not_returns_cons (fun h => h.2 rfl) (by simp)
    | _ =>
      rw [returns_cons_quiet ⟨id, by simp⟩]
      exact ih _

/-- The last phase of the automaton tells whether everything is given back. -/
theorem givenBack_iff (l : List (Action κ)) : GivenBack l ↔ (phaseAfter l).Final := by
  induction l with
  | nil => simp [GivenBack, phaseAfter, Phase.Final]
  | cons a l ih =>
    cases a with
    | take k => exact givenBack_take.trans (held_final_iff k false l).symm
    | give k =>
      rw [givenBack_cons_iff (a := .give k) (fun h => h.1 trivial) (by simp)]
      apply iff_of_false
      · intro h
        exact h _ List.mem_cons_self trivial
      · exact broken_final l
    | notify =>
      rw [givenBack_cons_iff (fun h => h.2 rfl) (by simp), List.forall_mem_cons]
      exact (and_iff_right id).trans (settled_final_iff l).symm
    | _ =>
      rw [givenBack_cons_quiet ⟨id, by simp⟩]
      exact ih

end Automaton

end Custody
