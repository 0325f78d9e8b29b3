import Mathlib.Data.Nat.Notation
import Mathlib.Tactic.TypeStar

/-! # Loops with their test at the end

A body changes the state and says whether to repeat. A loop that repeats forever ends in no
state; an invariant and a measure that every repetition lowers rule that out. -/
namespace DoWhile

variable {σ : Type*} (body : σ → Bool × σ)

/-- The state after the loop, when it takes at most so many passes. -/
def run : ℕ → σ → Option σ
  | 0, _ => none
  | n + 1, s => if (body s).1 = true then run n (body s).2 else some (body s).2

def Ends (s t : σ) : Prop := ∃ n, run body n s = some t

variable {body} {s t u : σ}

theorem ends_iff : Ends body s t ↔
    if (body s).1 = true then Ends body (body s).2 t else (body s).2 = t := by
  constructor
  · rintro ⟨n, hn⟩
    cases n with
    | zero => cases hn
    | succ n =>
      unfold run at hn
      split at hn
      · next h =>
        rw [if_pos h]
        exact ⟨n, hn⟩
      · next h =>
        rw [if_neg h]
        exact Option.some.inj hn
  · split
    · next h =>
      rintro ⟨n, hn⟩
      exact ⟨n + 1, by rw [run, if_pos h, hn]⟩
    · next h =>
      intro ht
      exact ⟨1, by rw [run, if_neg h, ht]⟩

theorem ends_of_stop (h : (body s).1 = false) : Ends body s t ↔ (body s).2 = t := by
  rw [ends_iff, h]
  exact Iff.rfl

theorem ends_of_repeat (h : (body s).1 = true) : Ends body s t ↔ Ends body (body s).2 t := by
  rw [ends_iff, if_pos h]

/-- Induction on the passes of a loop that ends. -/
theorem Ends.induct {P : σ → Prop} (stop : ∀ s, (body s).1 = false → (body s).2 = t → P s)
    (again : ∀ s, (body s).1 = true → P (body s).2 → P s) (h : Ends body s t) : P s := by
  obtain ⟨n, hn⟩ := h
  induction n generalizing s with
  | zero => cases hn
  | succ n ih =>
    cases hb : (body s).1 with
    | false =>
      rw [run, hb] at hn
      exact stop s hb (Option.some.inj hn)
    | true =>
      rw [run, if_pos hb] at hn
      exact again s hb (ih hn)

theorem Ends.unique (ht : Ends body s t) (hu : Ends body s u) : t = u := by
  refine ht.induct (P := fun s => Ends body s u → t = u) ?_ ?_ hu
  · intro s hb hs hu
    exact hs.symm.trans ((ends_of_stop hb).mp hu)
  · intro s hb ih hu
    exact ih ((ends_of_repeat hb).mp hu)

/-- What every repetition keeps holds before the pass that ends the loop. -/
theorem Ends.keeps {I Q : σ → Prop} (step : ∀ s, I s → (body s).1 = true → I (body s).2)
    (last : ∀ s, I s → (body s).1 = false → Q (body s).2) (h : Ends body s t) (hs : I s) :
    Q t := by
  refine h.induct (P := fun s => I s → Q t) ?_ ?_ hs
  · intro s hb ht hI
    exact ht ▸ last s hI hb
  · intro s hb ih hI
    exact ih (step s hI hb)

theorem exists_ends {I : σ → Prop} (μ : σ → ℕ) (step : ∀ s, I s → (body s).1 = true →
    I (body s).2 ∧ μ (body s).2 < μ s) (hs : I s) : ∃ t, Ends body s t := by
  induction hm : μ s using Nat.strongRecOn generalizing s with
  | ind m ih =>
    cases hb : (body s).1 with
    | false => exact ⟨(body s).2, (ends_of_stop hb).mpr rfl⟩
    | true =>
      obtain ⟨hkept, hless⟩ := step s hs hb
      obtain ⟨t, ht⟩ := ih _ (hm ▸ hless) hkept rfl
      exact ⟨t, (ends_of_repeat hb).mpr ht⟩

end DoWhile
