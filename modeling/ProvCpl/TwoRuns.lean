import ProvCpl.EarlyExit

/-! # Two programs side by side

Two programs run from related states. Either both return, with related values and states, or
both leave, with related exits and states. The rules follow those for one program. -/
namespace TwoRuns

open EarlyExit

universe u

variable {σ σ' ε ε' δ δ' γ : Type*} {α α' β β' : Type u}

/-- From states related by `P`, returns are related by `Q` and exits by `E`. -/
def Twin (P : σ → σ' → Prop) (m : Prog σ ε α) (m' : Prog σ' ε' α')
    (Q : α → α' → σ → σ' → Prop) (E : ε → ε' → σ → σ' → Prop) : Prop :=
  ∀ s s', P s s' → match m s, m' s' with
    | (.ok a, t), (.ok a', t') => Q a a' t t'
    | (.error e, t), (.error e', t') => E e e' t t'
    | (.ok _, _), (.error _, _) => False
    | (.error _, _), (.ok _, _) => False

variable {P P' : σ → σ' → Prop} {Q Q' : α → α' → σ → σ' → Prop} {E : ε → ε' → σ → σ' → Prop}

theorem twin_pure {a : α} {a' : α'} (h : ∀ s s', P s s' → Q a a' s s') :
    Twin P (pure a : Prog σ ε α) (pure a' : Prog σ' ε' α') Q E :=
  fun s s' hs => h s s' hs

theorem twin_leave {e : ε} {e' : ε'} (h : ∀ s s', P s s' → E e e' s s') :
    Twin P (leave e : Prog σ ε α) (leave e' : Prog σ' ε' α') Q E :=
  fun s s' hs => h s s' hs

theorem twin_call {f : Call σ α} {f' : Call σ' α'}
    (h : ∀ s s', P s s' → Q (f s).1 (f' s').1 (f s).2 (f' s').2) :
    Twin P (call f : Prog σ ε α) (call f' : Prog σ' ε' α') Q E :=
  fun s s' hs => h s s' hs

theorem Twin.cases {m : Prog σ ε α} {m' : Prog σ' ε' α'} (h : Twin P m m' Q E) (s : σ) (s' : σ')
    (hs : P s s') :
    (∃ a a' t t', m s = (.ok a, t) ∧ m' s' = (.ok a', t') ∧ Q a a' t t') ∨
      ∃ e e' t t', m s = (.error e, t) ∧ m' s' = (.error e', t') ∧ E e e' t t' := by
  have h := h s s' hs
  rcases hr : m s with ⟨r, t⟩
  rcases hr' : m' s' with ⟨r', t'⟩
  rw [hr, hr'] at h
  cases r with
  | ok a =>
    cases r' with
    | ok a' => exact Or.inl ⟨a, a', t, t', rfl, rfl, h⟩
    | error e' => exact h.elim
  | error e =>
    cases r' with
    | ok a' => exact h.elim
    | error e' => exact Or.inr ⟨e, e', t, t', rfl, rfl, h⟩

theorem twin_bind {m : Prog σ ε α} {m' : Prog σ' ε' α'} {f : α → Prog σ ε β}
    {f' : α' → Prog σ' ε' β'} {R : β → β' → σ → σ' → Prop} (hm : Twin P m m' Q E)
    (hf : ∀ a a', Twin (Q a a') (f a) (f' a') R E) : Twin P (m >>= f) (m' >>= f') R E := by
  intro s s' hs
  rcases hm.cases s s' hs with ⟨a, a', t, t', hr, hr', hQ⟩ | ⟨e, e', t, t', hr, hr', hE⟩
  · rw [bind_run, bind_run, hr, hr']
    exact hf a a' t t' hQ
  · rw [bind_run, bind_run, hr, hr']
    exact hE

theorem twin_conseq {m : Prog σ ε α} {m' : Prog σ' ε' α'} (h : Twin P' m m' Q' E)
    (hP : ∀ s s', P s s' → P' s s') (hQ : ∀ a a' s s', Q' a a' s s' → Q a a' s s') :
    Twin P m m' Q E := by
  intro s s' hs
  rcases h.cases s s' (hP s s' hs) with ⟨a, a', t, t', hr, hr', ha⟩ | ⟨e, e', t, t', hr, hr', he⟩
  · rw [hr, hr']
    exact hQ a a' t t' ha
  · rw [hr, hr']
    exact he

theorem twin_mapExit {m : Prog σ ε α} {m' : Prog σ' ε' α'} {g : ε → δ} {g' : ε' → δ'}
    {F : δ → δ' → σ → σ' → Prop} (h : Twin P m m' Q E)
    (hE : ∀ e e' s s', E e e' s s' → F (g e) (g' e') s s') :
    Twin P (mapExit g m) (mapExit g' m') Q F := by
  intro s s' hs
  rcases h.cases s s' hs with ⟨a, a', t, t', hr, hr', ha⟩ | ⟨e, e', t, t', hr, hr', he⟩
  · rw [mapExit, mapExit, hr, hr']
    exact ha
  · rw [mapExit, mapExit, hr, hr']
    exact hE e e' t t' he

theorem twin_ite {c c' : Prop} [Decidable c] [Decidable c'] {m n : Prog σ ε α}
    {m' n' : Prog σ' ε' α'} (hc : c ↔ c') (ht : c → Twin P m m' Q E)
    (hf : ¬ c → Twin P n n' Q E) :
    Twin P (if c then m else n) (if c' then m' else n') Q E := by
  by_cases h : c
  · rw [if_pos h, if_pos (hc.mp h)]
    exact ht h
  · rw [if_neg h, if_neg fun h' => h (hc.mpr h')]
    exact hf h

theorem twin_assume {c : Prop} {m : Prog σ ε α} {m' : Prog σ' ε' α'} (h : c → Twin P m m' Q E) :
    Twin (fun s s' => P s s' ∧ c) m m' Q E :=
  fun s s' hs => h hs.2 s s' hs.1

theorem twin_fold {f : β → γ → Prog σ ε β} {f' : β' → γ → Prog σ' ε' β'}
    {I : β → β' → σ → σ' → Prop} {xs : List γ}
    (step : ∀ b b' x, x ∈ xs → Twin (I b b') (f b x) (f' b' x) I E) (b : β) (b' : β') :
    Twin (I b b') (fold f b xs) (fold f' b' xs) I E := by
  induction xs generalizing b b' with
  | nil => exact twin_pure fun _ _ h => h
  | cons x xs ih =>
    apply twin_bind (step b b' x List.mem_cons_self)
    intro c c'
    exact ih (fun b b' y hy => step b b' y (List.mem_cons_of_mem x hy)) c c'

theorem twin_forEach {f : γ → Prog σ ε Unit} {f' : γ → Prog σ' ε' Unit} {xs : List γ}
    (step : ∀ x, x ∈ xs → Twin P (f x) (f' x) (fun _ _ => P) E) :
    Twin P (forEach f xs) (forEach f' xs) (fun _ _ => P) E :=
  twin_fold (I := fun _ _ => P) (fun _ _ x hx => step x hx) () ()

section Agreement

variable {number : σ → ℕ} {S : ℕ → Prop}

/-- The steps of a run are numbered. As long as the numbers of the first run are in `S`, the
second program runs as the first one does. -/
def Agree (number : σ → ℕ) (S : ℕ → Prop) (m m' : Prog σ ε α) : Prop :=
  ∀ s, number s ≤ number (m s).2 ∧
    ((∀ n, number s ≤ n → n < number (m s).2 → S n) → m' s = m s)

theorem agree_refl {m : Prog σ ε α} (h : ∀ s, number s ≤ number (m s).2) :
    Agree number S m m := fun s => ⟨h s, fun _ => rfl⟩

theorem agree_pure (a : α) : Agree number S (pure a : Prog σ ε α) (pure a) :=
  agree_refl fun _ => Nat.le_refl _

theorem agree_leave (e : ε) : Agree number S (leave e : Prog σ ε α) (leave e) :=
  agree_refl fun _ => Nat.le_refl _

theorem agree_call {f f' : Call σ α}
    (h : ∀ s, f' s = f s ∧ number s ≤ number (f s).2 ∨
      number (f s).2 = number s + 1 ∧ (S (number s) → f' s = f s)) :
    Agree number S (call f : Prog σ ε α) (call f') := by
  intro s
  change number s ≤ number (f s).2 ∧ _
  rcases h s with ⟨he, hle⟩ | ⟨hstep, hif⟩
  · refine ⟨hle, fun _ => ?_⟩
    rw [call, call, he]
  · refine ⟨by omega, fun hS => ?_⟩
    change ∀ n, number s ≤ n → n < number (f s).2 → S n at hS
    rw [call, call, hif (hS _ (Nat.le_refl _) (by omega))]

theorem agree_bind {m m' : Prog σ ε α} {f f' : α → Prog σ ε β} (hm : Agree number S m m')
    (hf : ∀ a, Agree number S (f a) (f' a)) : Agree number S (m >>= f) (m' >>= f') := by
  intro s
  obtain ⟨hle, hrun⟩ := hm s
  rw [bind_run, bind_run]
  rcases hr : m s with ⟨r, t⟩
  rw [hr] at hle hrun
  cases r with
  | error e =>
    refine ⟨hle, fun hS => ?_⟩
    rw [hrun hS]
  | ok a =>
    obtain ⟨hle', hrun'⟩ := hf a t
    refine ⟨Nat.le_trans hle hle', fun hS => ?_⟩
    rw [hrun fun n hn hlt => hS n hn (Nat.lt_of_lt_of_le hlt hle')]
    exact hrun' fun n hn hlt => hS n (Nat.le_trans hle hn) hlt

theorem agree_ite {c : Prop} [Decidable c] {m m' n n' : Prog σ ε α} (hm : Agree number S m m')
    (hn : Agree number S n n') : Agree number S (if c then m else n) (if c then m' else n') := by
  split
  · exact hm
  · exact hn

theorem agree_fold {f f' : β → γ → Prog σ ε β} (step : ∀ b x, Agree number S (f b x) (f' b x))
    (b : β) (xs : List γ) : Agree number S (fold f b xs) (fold f' b xs) := by
  induction xs generalizing b with
  | nil => exact agree_pure b
  | cons x xs ih => exact agree_bind (step b x) ih

/-- A run whose numbers are all in `S` is one of both programs. -/
theorem Agree.run {m m' : Prog σ ε α} (h : Agree number S m m') {s : σ}
    (hS : ∀ n, number s ≤ n → n < number (m s).2 → S n) : m' s = m s :=
  (h s).2 hS

end Agreement

end TwoRuns
