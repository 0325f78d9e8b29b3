import ProvCpl.EarlyExit
import ProvCpl.EventTrace
import Mathlib.Logic.Function.Basic

/-! # Programs that take turns

A program is given by its requests and by what it does with each answer. Alone with a server it
is a program with early exits. Several programs may share a server that answers one request at a
time, in any order of turns; what one of them does in such a run is compared with a run of its
own that has as many turns. -/
namespace TakingTurns

open EarlyExit EventTrace
open Function (update)

inductive Dialogue (κ ν ε α : Type) where
  | done (a : α)
  | exit (e : ε)
  | ask (q : κ) (k : ν → Dialogue κ ν ε α)

variable {κ ν ε ε' α β γ σ τ : Type}

def Dialogue.next : Dialogue κ ν ε α → (α → Dialogue κ ν ε β) → Dialogue κ ν ε β
  | .done a, f => f a
  | .exit e, _ => .exit e
  | .ask q k, f => .ask q fun x => (k x).next f

instance : Monad (Dialogue κ ν ε) where
  pure := .done
  bind := Dialogue.next

def request (q : κ) : Dialogue κ ν ε ν := .ask q .done

def renameExit (g : ε → ε') : Dialogue κ ν ε α → Dialogue κ ν ε' α
  | .done a => .done a
  | .exit e => .exit (g e)
  | .ask q k => .ask q fun x => renameExit g (k x)

def foldOver (f : β → γ → Dialogue κ ν ε β) (b : β) : List γ → Dialogue κ ν ε β
  | [] => pure b
  | x :: xs => do
    let c ← f b x
    foldOver f c xs

def eachOf (f : γ → Dialogue κ ν ε Unit) (xs : List γ) : Dialogue κ ν ε Unit :=
  foldOver (fun _ x => f x) () xs

section Alone

variable (answer : κ → Call σ ν)

def Dialogue.run : Dialogue κ ν ε α → Prog σ ε α
  | .done a => pure a
  | .exit e => leave e
  | .ask q k => fun s => (k (answer q s).1).run (answer q s).2

/-- The next request is answered; a program that has ended stays as it is. -/
def turn : Dialogue κ ν ε α × σ → Dialogue κ ν ε α × σ
  | (.ask q k, s) => (k (answer q s).1, (answer q s).2)
  | (.done a, s) => (.done a, s)
  | (.exit e, s) => (.exit e, s)

def turns : ℕ → Dialogue κ ν ε α × σ → Dialogue κ ν ε α × σ
  | 0, c => c
  | n + 1, c => turns n (turn answer c)

def ended : Except ε α → Dialogue κ ν ε α
  | .ok a => .done a
  | .error e => .exit e

variable {answer}

theorem run_bind (d : Dialogue κ ν ε α) (f : α → Dialogue κ ν ε β) :
    (d >>= f).run answer = d.run answer >>= fun a => (f a).run answer := by
  induction d with
  | done a => rfl
  | exit e => rfl
  | ask q k ih =>
    funext s
    exact congrFun (ih (answer q s).1) (answer q s).2

theorem run_request (q : κ) :
    (request q : Dialogue κ ν ε ν).run answer = call (answer q) := rfl

theorem run_renameExit (g : ε → ε') (d : Dialogue κ ν ε α) :
    (renameExit g d).run answer = mapExit g (d.run answer) := by
  induction d with
  | done a => rfl
  | exit e => rfl
  | ask q k ih =>
    funext s
    exact congrFun (ih (answer q s).1) (answer q s).2

theorem run_ite {c : Prop} [Decidable c] (d e : Dialogue κ ν ε α) :
    (if c then d else e).run answer = if c then d.run answer else e.run answer :=
  apply_ite (·.run answer) c d e

theorem run_foldOver {f : β → γ → Dialogue κ ν ε β} {g : β → γ → Prog σ ε β}
    (h : ∀ b x, (f b x).run answer = g b x) (b : β) (xs : List γ) :
    (foldOver f b xs).run answer = fold g b xs := by
  induction xs generalizing b with
  | nil => rfl
  | cons x xs ih =>
    rw [foldOver, run_bind, h]
    simp only [ih]
    rfl

theorem run_eachOf {f : γ → Dialogue κ ν ε Unit} {g : γ → Prog σ ε Unit}
    (h : ∀ x, (f x).run answer = g x) (xs : List γ) :
    (eachOf f xs).run answer = forEach g xs :=
  run_foldOver (fun _ x => h x) () xs

theorem turn_of_done {c : Dialogue κ ν ε α × σ} {a : α} (h : c.1 = .done a) :
    turn answer c = c := by
  obtain ⟨d, s⟩ := c
  cases h
  rfl

theorem turn_of_exit {c : Dialogue κ ν ε α × σ} {e : ε} (h : c.1 = .exit e) :
    turn answer c = c := by
  obtain ⟨d, s⟩ := c
  cases h
  rfl

theorem turn_of_ask {c : Dialogue κ ν ε α × σ} {q : κ} {k : ν → Dialogue κ ν ε α}
    (h : c.1 = .ask q k) : turn answer c = (k (answer q c.2).1, (answer q c.2).2) := by
  obtain ⟨d, s⟩ := c
  cases h
  rfl

theorem turns_ended (r : Except ε α) (s : σ) (n : ℕ) :
    turns answer n (ended r, s) = (ended r, s) := by
  induction n with
  | zero => rfl
  | succ n ih => cases r <;> exact ih

theorem exists_turns (d : Dialogue κ ν ε α) (s : σ) :
    ∃ n, ∀ m, n ≤ m → turns answer m (d, s) = (ended (d.run answer s).1, (d.run answer s).2) := by
  induction d generalizing s with
  | done a => exact ⟨0, fun m _ => turns_ended (.ok a) s m⟩
  | exit e => exact ⟨0, fun m _ => turns_ended (.error e) s m⟩
  | ask q k ih =>
    obtain ⟨n, hn⟩ := ih (answer q s).1 (answer q s).2
    refine ⟨n + 1, fun m hm => ?_⟩
    obtain ⟨m, rfl⟩ := Nat.exists_eq_add_of_le' hm
    exact hn (m + n) (Nat.le_add_left n m)

end Alone

section Together

variable {ι : Type} [DecidableEq ι]

structure Shared (ι κ ν ε α σ : Type) where
  programs : ι → Dialogue κ ν ε α
  state : σ

def takeTurn (answer : κ → Call σ ν) (c : Shared ι κ ν ε α σ) (i : ι) : Shared ι κ ν ε α σ :=
  let out := turn answer (c.programs i, c.state)
  ⟨update c.programs i out.1, out.2⟩

theorem takeTurn_of_turn {answer : κ → Call σ ν} {c : Shared ι κ ν ε α σ} {i : ι}
    (h : turn answer (c.programs i, c.state) = (c.programs i, c.state)) :
    takeTurn answer c i = c := by
  rw [takeTurn, h]
  exact congrArg (Shared.mk · c.state) (Function.update_eq_self i c.programs)

/-- Against runs of their own, in each of which the program has as many turns. -/
theorem runTrace_alone {answer : κ → Call σ ν} {answer' : κ → Call τ ν}
    {I : (ι → Dialogue κ ν ε α × τ) → Shared ι κ ν ε α σ → Prop}
    (step : ∀ alone c i, I alone c →
      I (update alone i (turn answer' (alone i))) (takeTurn answer c i))
    {alone : ι → Dialogue κ ν ε α × τ} {c : Shared ι κ ν ε α σ} (h : I alone c)
    (schedule : List ι) : I (fun i => turns answer' (schedule.count i) (alone i))
      (runTrace (takeTurn answer) c schedule) := by
  induction schedule generalizing alone c with
  | nil => exact h
  | cons i schedule ih =>
    have hcount : (fun j => turns answer' ((i :: schedule).count j) (alone j)) =
        fun j => turns answer' (schedule.count j) (update alone i (turn answer' (alone i)) j) := by
      funext j
      by_cases hj : j = i
      · subst hj
        rw [List.count_cons_self, Function.update_self]
        rfl
      · rw [List.count_cons_of_ne (Ne.symm hj), Function.update_of_ne hj]
    rw [hcount]
    exact ih (step alone c i h)

end Together

/-- Two programs that make related requests, go on alike after related answers, and end alike. -/
inductive Related (Q : κ → κ → Prop) (A : κ → ν → ν → Prop) (V : α → α → Prop) :
    Dialogue κ ν ε α → Dialogue κ ν ε α → Prop where
  | done {a a' : α} : V a a' → Related Q A V (.done a) (.done a')
  | exit (e : ε) : Related Q A V (.exit e) (.exit e)
  | ask {q q' : κ} {k k' : ν → Dialogue κ ν ε α} : Q q q' →
      (∀ x x', A q x x' → Related Q A V (k x) (k' x')) → Related Q A V (.ask q k) (.ask q' k')

section Rules

variable {Q : κ → κ → Prop} {A : κ → ν → ν → Prop} {V : α → α → Prop} {W : β → β → Prop}
  {d d' : Dialogue κ ν ε α}

theorem Related.cases (h : Related Q A V d d') :
    (∃ a a', d = .done a ∧ d' = .done a' ∧ V a a') ∨ (∃ e, d = .exit e ∧ d' = .exit e) ∨
      ∃ q q' k k', d = .ask q k ∧ d' = .ask q' k' ∧ Q q q' ∧
        ∀ x x', A q x x' → Related Q A V (k x) (k' x') := by
  cases h with
  | done ha => exact Or.inl ⟨_, _, rfl, rfl, ha⟩
  | exit e => exact Or.inr (Or.inl ⟨e, rfl, rfl⟩)
  | ask hq hk => exact Or.inr (Or.inr ⟨_, _, _, _, rfl, rfl, hq, hk⟩)

theorem related_request {q q' : κ} (h : Q q q') :
    Related Q A (A q) (request q : Dialogue κ ν ε ν) (request q') :=
  .ask h fun _ _ hx => .done hx

theorem related_bind {f f' : α → Dialogue κ ν ε β} (h : Related Q A V d d')
    (hf : ∀ a a', V a a' → Related Q A W (f a) (f' a')) : Related Q A W (d >>= f) (d' >>= f') := by
  induction h with
  | done ha => exact hf _ _ ha
  | exit e => exact .exit e
  | ask hq _ ih => exact .ask hq ih

theorem related_renameExit (g : ε → ε') (h : Related Q A V d d') :
    Related Q A V (renameExit g d) (renameExit g d') := by
  induction h with
  | done ha => exact .done ha
  | exit e => exact .exit (g e)
  | ask hq _ ih => exact .ask hq ih

theorem related_ite {c : Prop} [Decidable c] {e e' : Dialogue κ ν ε α}
    (hd : c → Related Q A V d d') (he : ¬ c → Related Q A V e e') :
    Related Q A V (if c then d else e) (if c then d' else e') := by
  by_cases h : c
  · rw [if_pos h, if_pos h]
    exact hd h
  · rw [if_neg h, if_neg h]
    exact he h

theorem related_foldOver {f f' : β → γ → Dialogue κ ν ε β} {xs : List γ}
    (step : ∀ b b' x, x ∈ xs → W b b' → Related Q A W (f b x) (f' b' x)) {b b' : β}
    (hb : W b b') : Related Q A W (foldOver f b xs) (foldOver f' b' xs) := by
  induction xs generalizing b b' with
  | nil => exact .done hb
  | cons x xs ih =>
    refine related_bind (step b b' x List.mem_cons_self hb) fun c c' hc => ?_
    exact ih (fun b b' y hy => step b b' y (List.mem_cons_of_mem x hy)) hc

theorem related_eachOf {f f' : γ → Dialogue κ ν ε Unit} {xs : List γ}
    (step : ∀ x ∈ xs, Related Q A Eq (f x) (f' x)) :
    Related Q A Eq (eachOf f xs) (eachOf f' xs) :=
  related_foldOver (fun _ _ x hx _ => step x hx) rfl

end Rules

end TakingTurns
