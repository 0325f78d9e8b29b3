import ProvCpl.EarlyExit

/-! # Programs with a log

A ghost log stands beside the state and records chosen calls with what they returned. A
program with a log is compared with the one without: whatever the log, both return the same
and reach the same state. -/
namespace ProgramLog

open EarlyExit

universe u

variable {σ τ ε ε' γ : Type*} {α β : Type u}

/-- A program over the state and the log. -/
abbrev Logging (σ τ ε α : Type*) := Prog (σ × List τ) ε α

def quiet (m : Prog σ ε α) : Logging σ τ ε α := fun s => ((m s.1).1, ((m s.1).2, s.2))

def logged (entry : σ → α → τ) (c : Call σ α) : Logging σ τ ε α := fun s =>
  (.ok (c s.1).1, ((c s.1).2, s.2 ++ [entry s.1 (c s.1).1]))

/-- Without its log, `m` is `n`. -/
def Erases (m : Logging σ τ ε α) (n : Prog σ ε α) : Prop :=
  ∀ s l, (m (s, l)).1 = (n s).1 ∧ (m (s, l)).2.1 = (n s).2

theorem erases_quiet (n : Prog σ ε α) : Erases (quiet n : Logging σ τ ε α) n :=
  fun _ _ => ⟨rfl, rfl⟩

theorem erases_logged (entry : σ → α → τ) (c : Call σ α) :
    Erases (logged entry c : Logging σ τ ε α) (call c) :=
  fun _ _ => ⟨rfl, rfl⟩

theorem erases_pure (a : α) : Erases (pure a : Logging σ τ ε α) (pure a) :=
  fun _ _ => ⟨rfl, rfl⟩

theorem erases_leave (e : ε) : Erases (leave e : Logging σ τ ε α) (leave e) :=
  fun _ _ => ⟨rfl, rfl⟩

theorem Erases.run {m : Logging σ τ ε α} {n : Prog σ ε α} (h : Erases m n) {s t : σ}
    {r : Except ε α} (hr : n s = (r, t)) (l : List τ) : ∃ l', m (s, l) = (r, (t, l')) := by
  obtain ⟨hv, ht⟩ := h s l
  refine ⟨(m (s, l)).2.2, ?_⟩
  rw [hr] at hv ht
  exact Prod.ext hv (Prod.ext ht rfl)

theorem erases_bind {m : Logging σ τ ε α} {n : Prog σ ε α} {f : α → Logging σ τ ε β}
    {g : α → Prog σ ε β} (hm : Erases m n) (hf : ∀ a, Erases (f a) (g a)) :
    Erases (m >>= f) (n >>= g) := by
  intro s l
  rcases hr : n s with ⟨r, t⟩
  obtain ⟨l', hlog⟩ := hm.run hr l
  rw [bind_run, bind_run, hr, hlog]
  cases r with
  | ok a => exact hf a t l'
  | error e => exact ⟨rfl, rfl⟩

theorem erases_mapExit {m : Logging σ τ ε α} {n : Prog σ ε α} (g : ε → ε') (h : Erases m n) :
    Erases (mapExit g m) (mapExit g n) := by
  intro s l
  rcases hr : n s with ⟨r, t⟩
  obtain ⟨l', hlog⟩ := h.run hr l
  rw [mapExit, mapExit, hr, hlog]
  cases r with
  | ok a => exact ⟨rfl, rfl⟩
  | error e => exact ⟨rfl, rfl⟩

theorem erases_ite {c : Prop} [Decidable c] {m m' : Logging σ τ ε α} {n n' : Prog σ ε α}
    (ht : Erases m n) (hf : Erases m' n') :
    Erases (if c then m else m') (if c then n else n') := by
  split
  · exact ht
  · exact hf

theorem erases_fold {f : β → γ → Logging σ τ ε β} {g : β → γ → Prog σ ε β}
    (h : ∀ b x, Erases (f b x) (g b x)) (b : β) (xs : List γ) :
    Erases (fold f b xs) (fold g b xs) := by
  induction xs generalizing b with
  | nil => exact erases_pure b
  | cons x xs ih => exact erases_bind (h b x) fun c => ih c

theorem erases_forEach {f : γ → Logging σ τ ε Unit} {g : γ → Prog σ ε Unit}
    (h : ∀ x, Erases (f x) (g x)) (xs : List γ) : Erases (forEach f xs) (forEach g xs) :=
  erases_fold (fun _ x => h x) () xs

/-- A program adds to the log and does not look at it. -/
def Appends (m : Logging σ τ ε α) : Prop :=
  ∀ s l, m (s, l) = ((m (s, [])).1, ((m (s, [])).2.1, l ++ (m (s, [])).2.2))

theorem appends_quiet (n : Prog σ ε α) : Appends (quiet n : Logging σ τ ε α) := by
  intro s l
  simp [quiet]

theorem appends_logged (entry : σ → α → τ) (c : Call σ α) :
    Appends (logged entry c : Logging σ τ ε α) := by
  intro s l
  simp [logged]

theorem appends_pure (a : α) : Appends (pure a : Logging σ τ ε α) := by
  intro s l
  simp [pure_run]

theorem appends_leave (e : ε) : Appends (leave e : Logging σ τ ε α) := by
  intro s l
  simp [leave]

theorem appends_bind {m : Logging σ τ ε α} {f : α → Logging σ τ ε β} (hm : Appends m)
    (hf : ∀ a, Appends (f a)) : Appends (m >>= f) := by
  intro s l
  rcases h0 : m (s, []) with ⟨r, s', l'⟩
  rw [bind_run, bind_run, hm s l, h0]
  cases r with
  | error e => rfl
  | ok a =>
    dsimp only
    rw [hf a s' (l ++ l'), hf a s' l', List.append_assoc]

theorem appends_ite {c : Prop} [Decidable c] {m m' : Logging σ τ ε α} (ht : Appends m)
    (hf : Appends m') : Appends (if c then m else m') := by
  split
  · exact ht
  · exact hf

theorem appends_fold {f : β → γ → Logging σ τ ε β} (h : ∀ b x, Appends (f b x)) (b : β)
    (xs : List γ) : Appends (fold f b xs) := by
  induction xs generalizing b with
  | nil => exact appends_pure b
  | cons x xs ih => exact appends_bind (h b x) fun c => ih c

theorem triple_of_erases {m : Logging σ τ ε α} {n : Prog σ ε α} (he : Erases m n) {P : σ → Prop}
    {Q : α → σ → Prop} {E : ε → σ → Prop} (h : Triple P n Q E) :
    Triple (fun s => P s.1) m (fun a s => Q a s.1) fun e s => E e s.1 := by
  rintro ⟨s, l⟩ hs
  rcases h.cases hs with ⟨a, t, hr, ha⟩ | ⟨e, t, hr, hE⟩
  · obtain ⟨l', hlog⟩ := he.run hr l
    rw [hlog]
    exact ha
  · obtain ⟨l', hlog⟩ := he.run hr l
    rw [hlog]
    exact hE

theorem triple_quiet {P : σ × List τ → Prop} {n : Prog σ ε α} {Q : α → σ × List τ → Prop}
    {E : ε → σ × List τ → Prop}
    (h : ∀ l, Triple (fun s => P (s, l)) n (fun a s => Q a (s, l)) fun e s => E e (s, l)) :
    Triple P (quiet n) Q E := by
  rintro ⟨s, l⟩ hs
  have h := h l s hs
  unfold quiet
  rcases hr : n s with ⟨r, t⟩
  rw [hr] at h
  cases r <;> exact h

theorem triple_logged {P : σ × List τ → Prop} {entry : σ → α → τ} {c : Call σ α}
    {Q : α → σ × List τ → Prop} {E : ε → σ × List τ → Prop}
    (h : ∀ s l, P (s, l) → Q (c s).1 ((c s).2, l ++ [entry s (c s).1])) :
    Triple P (logged entry c) Q E :=
  fun s hs => h s.1 s.2 hs

end ProgramLog
