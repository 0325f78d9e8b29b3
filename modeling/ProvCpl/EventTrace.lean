import Mathlib.Data.List.Basic
import Mathlib.Tactic.TypeStar

/-! # Runs of an event system

A system is a step function and a condition on the events of a state. Run lemmas follow from
step lemmas by induction on the events. -/
namespace EventTrace

variable {σ ε : Type*} (next : σ → ε → σ)

def runTrace (s : σ) (events : List ε) : σ := events.foldl next s

def EachStep (cond : σ → ε → Prop) : σ → List ε → Prop
  | _, [] => True
  | s, e :: es => cond s e ∧ EachStep cond (next s e) es

def Throughout (P : σ → Prop) : σ → List ε → Prop
  | s, [] => P s
  | s, e :: es => P s ∧ Throughout P (next s e) es

def emitted {β : Type*} (out : σ → ε → List β) : σ → List ε → List β
  | _, [] => []
  | s, e :: es => out s e ++ emitted out (next s e) es

def decEachStep (cond : σ → ε → Prop) [∀ s e, Decidable (cond s e)] :
    (s : σ) → (events : List ε) → Decidable (EachStep next cond s events)
  | _, [] => .isTrue trivial
  | s, e :: es =>
    have := decEachStep cond (next s e) es
    inferInstanceAs (Decidable (cond s e ∧ EachStep next cond (next s e) es))

instance {cond : σ → ε → Prop} [∀ s e, Decidable (cond s e)] (s : σ) (events : List ε) :
    Decidable (EachStep next cond s events) := decEachStep next cond s events

variable {next}

@[simp] theorem runTrace_nil (s : σ) : runTrace next s [] = s := rfl

@[simp] theorem runTrace_cons (s : σ) (e : ε) (es : List ε) :
    runTrace next s (e :: es) = runTrace next (next s e) es := rfl

theorem runTrace_append (s : σ) (es fs : List ε) :
    runTrace next s (es ++ fs) = runTrace next (runTrace next s es) fs :=
  List.foldl_append

theorem emitted_append {β : Type*} (out : σ → ε → List β) (s : σ) (es fs : List ε) :
    emitted next out s (es ++ fs) =
      emitted next out s es ++ emitted next out (runTrace next s es) fs := by
  induction es generalizing s with
  | nil => rfl
  | cons e es ih => rw [List.cons_append, emitted, ih, emitted, List.append_assoc, runTrace_cons]

theorem EachStep.and {C D : σ → ε → Prop} {s : σ} {events : List ε}
    (hc : EachStep next C s events) (hd : EachStep next D s events) :
    EachStep next (fun s e => C s e ∧ D s e) s events := by
  induction events generalizing s with
  | nil => trivial
  | cons e es ih => exact ⟨⟨hc.1, hd.1⟩, ih hc.2 hd.2⟩

theorem EachStep.congr {L C D : σ → ε → Prop} {s : σ} {events : List ε}
    (hl : EachStep next L s events) (h : ∀ s e, L s e → (C s e ↔ D s e)) :
    EachStep next C s events ↔ EachStep next D s events := by
  induction events generalizing s with
  | nil => exact Iff.rfl
  | cons e es ih => exact and_congr (h s e hl.1) (ih hl.2)

theorem eachStep_of_forall {D : ε → Prop} {s : σ} {events : List ε} (h : ∀ e ∈ events, D e) :
    EachStep next (fun _ e => D e) s events := by
  induction events generalizing s with
  | nil => trivial
  | cons e es ih =>
    exact ⟨h e List.mem_cons_self, ih fun x hx => h x (List.mem_cons_of_mem e hx)⟩

theorem throughout_of_step {I : σ → Prop} {C : σ → ε → Prop}
    (step : ∀ s e, I s → C s e → I (next s e)) {s : σ} {events : List ε} (hs : I s)
    (hc : EachStep next C s events) : Throughout next I s events := by
  induction events generalizing s with
  | nil => exact hs
  | cons e es ih => exact ⟨hs, ih (step s e hs hc.1) hc.2⟩

theorem Throughout.first {P : σ → Prop} {s : σ} {events : List ε}
    (h : Throughout next P s events) : P s := by
  cases events with
  | nil => exact h
  | cons e es => exact h.1

theorem Throughout.last {P : σ → Prop} {s : σ} {events : List ε}
    (h : Throughout next P s events) : P (runTrace next s events) := by
  induction events generalizing s with
  | nil => exact h
  | cons e es ih => exact ih h.2

theorem Throughout.imp {P Q : σ → Prop} {s : σ} {events : List ε} (hpq : ∀ s, P s → Q s)
    (h : Throughout next P s events) : Throughout next Q s events := by
  induction events generalizing s with
  | nil => exact hpq s h
  | cons e es ih => exact ⟨hpq s h.1, ih h.2⟩

theorem Throughout.and {P Q : σ → Prop} {s : σ} {events : List ε}
    (hp : Throughout next P s events) (hq : Throughout next Q s events) :
    Throughout next (fun s => P s ∧ Q s) s events := by
  induction events generalizing s with
  | nil => exact ⟨hp, hq⟩
  | cons e es ih => exact ⟨⟨hp.1, hq.1⟩, ih hp.2 hq.2⟩

/-- Where two conditions agree in the states that the second one keeps, they agree on runs. -/
theorem eachStep_congr {I : σ → Prop} {C D : σ → ε → Prop}
    (agree : ∀ s e, I s → (C s e ↔ D s e)) (step : ∀ s e, I s → D s e → I (next s e)) {s : σ}
    {events : List ε} (hs : I s) : EachStep next C s events ↔ EachStep next D s events := by
  induction events generalizing s with
  | nil => exact Iff.rfl
  | cons e es ih =>
    constructor
    · rintro ⟨hc, hr⟩
      have hd := (agree s e hs).mp hc
      exact ⟨hd, (ih (step s e hs hd)).mp hr⟩
    · rintro ⟨hd, hr⟩
      exact ⟨(agree s e hs).mpr hd, (ih (step s e hs hd)).mpr hr⟩

theorem eachStep_of_throughout {P : σ → Prop} {C D : σ → ε → Prop}
    (force : ∀ s e, P s → C s e → P (next s e) → D s e) {s : σ} {events : List ε}
    (h : Throughout next P s events) (hc : EachStep next C s events) :
    EachStep next D s events := by
  induction events generalizing s with
  | nil => trivial
  | cons e es ih => exact ⟨force s e h.1 hc.1 h.2.first, ih h.2 hc.2⟩

end EventTrace
