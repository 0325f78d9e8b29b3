import ProvCpl.EarlyExit

/-! # Programs that follow a list of checks

A program makes its checks in the order of a list. It goes on while they pass and leaves at the
first that does not, which either refuses or lets an exception escape. If `lossy` holds it may
also leave before its time, but not by an exception. -/
namespace CheckedProgram

open EarlyExit

inductive Verdict where
  | passes
  | refuses
  | throws
  deriving DecidableEq, Repr

def firstFault (v : List Verdict) : Option Verdict := v.find? (· ≠ .passes)

@[simp] theorem firstFault_nil : firstFault [] = none := rfl

theorem firstFault_append (v u : List Verdict) :
    firstFault (v ++ u) = (firstFault v).or (firstFault u) :=
  List.find?_append

universe u

variable {σ ε ε' γ : Type*} {α β : Type u}

/-- A return has passed all checks; an exit is explained by the first that it has not. -/
def Follows (lossy : Prop) (escapes : ε → Prop) (I : σ → Prop) (m : Prog σ ε α)
    (v : List Verdict) (R : α → Prop) : Prop :=
  Maintains I m (fun a => firstFault v = none ∧ R a) fun e _ =>
    (escapes e → firstFault v = some .throws) ∧
      (¬ escapes e → lossy ∨ firstFault v = some .refuses)

variable {lossy : Prop} {escapes : ε → Prop} {I : σ → Prop} {R : α → Prop}
  {v u : List Verdict}

theorem follows_pure {a : α} (h : R a) :
    Follows lossy escapes I (pure a : Prog σ ε α) [] R :=
  maintains_pure ⟨rfl, h⟩

theorem follows_call {f : Call σ α} (h : ∀ s, I s → I (f s).2 ∧ R (f s).1) :
    Follows lossy escapes I (call f : Prog σ ε α) [] R :=
  maintains_call fun s hs => ⟨(h s hs).1, rfl, (h s hs).2⟩

theorem follows_refuse {e : ε} (he : ¬ escapes e) (hvs : firstFault v = some .refuses) :
    Follows lossy escapes I (leave e : Prog σ ε α) v R :=
  maintains_leave fun _ _ => ⟨fun h => absurd h he, fun _ => Or.inr hvs⟩

theorem follows_throw {e : ε} (he : escapes e) (hvs : firstFault v = some .throws) :
    Follows lossy escapes I (leave e : Prog σ ε α) v R :=
  maintains_leave fun _ _ => ⟨fun _ => hvs, fun h => absurd he h⟩

theorem follows_lost {e : ε} (he : ¬ escapes e) (hlossy : lossy) :
    Follows lossy escapes I (leave e : Prog σ ε α) v R :=
  maintains_leave fun _ _ => ⟨fun h => absurd h he, fun _ => Or.inl hlossy⟩

/-- Only the first fault counts. -/
theorem follows_congr {m : Prog σ ε α} (hm : Follows lossy escapes I m v R)
    (h : firstFault u = firstFault v) : Follows lossy escapes I m u R := by
  unfold Follows
  rw [h]
  exact hm

theorem follows_weaken {m : Prog σ ε α} {T : α → Prop} (hm : Follows lossy escapes I m v R)
    (h : ∀ a, R a → T a) : Follows lossy escapes I m v T :=
  maintains_weaken hm fun a ha => ⟨ha.1, h a ha.2⟩

/-- What comes after a return knows that all checks have passed. -/
theorem follows_passed {m : Prog σ ε α} (hm : Follows lossy escapes I m v R) :
    Follows lossy escapes I m v fun a => firstFault v = none ∧ R a :=
  maintains_weaken hm fun _ ha => ⟨ha.1, ha⟩

theorem follows_ite {c : Prop} [Decidable c] {m n : Prog σ ε α}
    (ht : c → Follows lossy escapes I m v R) (hf : ¬ c → Follows lossy escapes I n v R) :
    Follows lossy escapes I (if c then m else n) v R :=
  maintains_ite ht hf

theorem explained_append {e : ε} (he : (escapes e → firstFault v = some .throws) ∧
    (¬ escapes e → lossy ∨ firstFault v = some .refuses)) (u : List Verdict) :
    (escapes e → (firstFault v).or (firstFault u) = some .throws) ∧
      (¬ escapes e → lossy ∨ (firstFault v).or (firstFault u) = some .refuses) := by
  constructor
  · intro hesc
    rw [he.1 hesc]
    rfl
  · intro hesc
    rcases he.2 hesc with hl | hr
    · exact Or.inl hl
    · rw [hr]
      exact Or.inr rfl

theorem follows_bind {m : Prog σ ε α} {f : α → Prog σ ε β} {T : β → Prop}
    (hm : Follows lossy escapes I m v R)
    (hf : ∀ a, R a → Follows lossy escapes I (f a) u T) :
    Follows lossy escapes I (m >>= f) (v ++ u) T := by
  unfold Follows
  rw [firstFault_append]
  refine triple_bind (Q := fun a s => I s ∧ firstFault v = none ∧ R a)
    (triple_exit hm fun e s he => ?_) fun a s hs => ?_
  · exact explained_append he u
  · rw [hs.2.1, Option.none_or]
    exact hf a hs.2.2 s hs.1

theorem follows_fold {f : β → γ → Prog σ ε β} {checks : γ → List Verdict}
    {T : List γ → β → Prop} {xs : List γ} {b : β} (hb : T [] b)
    (step : ∀ done x b, x ∈ xs → T done b →
      Follows lossy escapes I (f b x) (checks x) (T (done ++ [x]))) :
    Follows lossy escapes I (fold f b xs) (xs.flatMap checks) (T xs) := by
  have main : ∀ rest done b, xs = done ++ rest → T done b →
      Follows lossy escapes I (fold f b rest) (rest.flatMap checks) (T xs) := by
    intro rest
    induction rest with
    | nil =>
      intro done b hxs hT
      rw [List.append_nil] at hxs
      exact follows_pure (hxs ▸ hT)
    | cons x rest ih =>
      intro done b hxs hT
      have hx : x ∈ xs := by simp [hxs]
      rw [List.flatMap_cons]
      apply follows_bind (step done x b hx hT)
      intro c hc
      exact ih (done ++ [x]) c (by simp [hxs]) hc
  exact main xs [] b rfl hb

theorem follows_forEach {f : γ → Prog σ ε Unit} {checks : γ → List Verdict} {xs : List γ}
    (step : ∀ x, x ∈ xs → Follows lossy escapes I (f x) (checks x) fun _ => True) :
    Follows lossy escapes I (forEach f xs) (xs.flatMap checks) fun _ => True :=
  follows_fold (T := fun _ _ => True) trivial fun _ x _ hx _ => step x hx

theorem follows_mapExit {m : Prog σ ε α} {g : ε → ε'} {escapes' : ε' → Prop}
    (hm : Follows lossy escapes I m v R) (hg : ∀ e, escapes' (g e) ↔ escapes e) :
    Follows lossy escapes' I (mapExit g m) v R := by
  apply maintains_mapExit hm
  intro e s he
  rw [hg]
  exact he

section Runs

variable {m : Prog σ ε α} (h : Follows lossy escapes I m v R) {s : σ}

include h

/-- An exception comes from a check that throws. -/
theorem Follows.escaped (hs : I s) {e : ε} (hrun : (m s).1 = .error e) (he : escapes e) :
    firstFault v = some .throws := by
  rcases Triple.cases h hs with ⟨a, t, hr, -⟩ | ⟨e', t, hr, hE⟩
  · rw [hr] at hrun
    cases hrun
  · rw [hr] at hrun
    cases hrun
    exact hE.1 he

theorem Follows.passed {a : α} {t : σ} (hs : I s) (hrun : m s = (.ok a, t)) :
    I t ∧ firstFault v = none ∧ R a := by
  rcases Triple.cases h hs with ⟨a', t', hr, ha⟩ | ⟨e, t', hr, -⟩
  · rw [hr] at hrun
    cases hrun
    exact ha
  · rw [hr] at hrun
    cases hrun

theorem Follows.escapes_of_throws (hlossy : ¬ lossy) (hs : I s)
    (hvs : firstFault v = some .throws) : ∃ e, (m s).1 = .error e ∧ escapes e := by
  rcases Triple.cases h hs with ⟨a, t, hr, -, hnone, -⟩ | ⟨e, t, hr, hE⟩
  · rw [hvs] at hnone
    cases hnone
  · refine ⟨e, by rw [hr], ?_⟩
    by_contra hesc
    rcases hE.2 hesc with hl | href
    · exact hlossy hl
    · rw [hvs] at href
      cases href

theorem Follows.returns_of_passes (hlossy : ¬ lossy) (hs : I s) (hvs : firstFault v = none) :
    ∃ a t, m s = (.ok a, t) ∧ I t ∧ R a := by
  rcases Triple.cases h hs with ⟨a, t, hr, hI, -, hR⟩ | ⟨e, t, hr, hE⟩
  · exact ⟨a, t, hr, hI, hR⟩
  · exfalso
    by_cases hesc : escapes e
    · have hthrows := hE.1 hesc
      rw [hvs] at hthrows
      cases hthrows
    · rcases hE.2 hesc with hl | href
      · exact hlossy hl
      · rw [hvs] at href
        cases href

end Runs

end CheckedProgram
