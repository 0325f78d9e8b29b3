import Mathlib.Data.List.Basic
import Mathlib.Tactic.TypeStar

/-! # Programs that may leave early

A program runs on a state and either returns a value or leaves with an exit. The state
reached is kept in both cases, as it is by a function that returns from inside a loop.
The rules below reason about such programs by pre- and postconditions, with one
postcondition for a normal return and one for an exit. -/
namespace EarlyExit

/-- A step that always returns, such as a call whose return code is a value. -/
abbrev Call (σ α : Type*) := σ → α × σ

def Prog (σ ε α : Type*) := σ → Except ε α × σ

universe u

variable {σ ε ε' γ : Type*} {α β : Type u}

def Prog.ret (a : α) : Prog σ ε α := fun s => (.ok a, s)

def Prog.next (m : Prog σ ε α) (f : α → Prog σ ε β) : Prog σ ε β := fun s =>
  match m s with
  | (.ok a, t) => f a t
  | (.error e, t) => (.error e, t)

instance : Monad (Prog σ ε) where
  pure := Prog.ret
  bind := Prog.next

def leave (e : ε) : Prog σ ε α := fun s => (.error e, s)

def call (f : Call σ α) : Prog σ ε α := fun s => (.ok (f s).1, (f s).2)

/-- Rename the exit, as a caller does that maps every failure of a helper to its own. -/
def mapExit (g : ε → ε') (m : Prog σ ε α) : Prog σ ε' α := fun s =>
  match m s with
  | (.ok a, t) => (.ok a, t)
  | (.error e, t) => (.error (g e), t)

/-- Go on at the label that a program leaves for. -/
def rescue (m : Prog σ ε α) (h : ε → Prog σ ε' α) : Prog σ ε' α := fun s =>
  match m s with
  | (.ok a, t) => (.ok a, t)
  | (.error e, t) => h e t

def fold (f : β → γ → Prog σ ε β) (b : β) : List γ → Prog σ ε β
  | [] => pure b
  | x :: xs => do
    let c ← f b x
    fold f c xs

def forEach (f : γ → Prog σ ε Unit) (xs : List γ) : Prog σ ε Unit :=
  fold (fun _ x => f x) () xs

theorem pure_run (a : α) (s : σ) : (pure a : Prog σ ε α) s = (.ok a, s) := rfl

theorem bind_run (m : Prog σ ε α) (f : α → Prog σ ε β) (s : σ) :
    (m >>= f) s = match m s with
      | (.ok a, t) => f a t
      | (.error e, t) => (.error e, t) := rfl

theorem bind_bind {δ : Type u} (m : Prog σ ε α) (f : α → Prog σ ε β) (g : β → Prog σ ε δ) :
    m >>= f >>= g = m >>= fun a => f a >>= g := by
  funext s
  rw [bind_run, bind_run, bind_run]
  rcases m s with ⟨r, t⟩
  cases r with
  | ok a => rfl
  | error e => rfl

theorem fold_append (f : β → γ → Prog σ ε β) (b : β) (xs ys : List γ) :
    fold f b (xs ++ ys) = fold f b xs >>= fun c => fold f c ys := by
  induction xs generalizing b with
  | nil => rfl
  | cons x xs ih =>
    rw [List.cons_append, fold, fold, bind_bind]
    simp only [ih]

theorem forEach_append (f : γ → Prog σ ε Unit) (xs ys : List γ) :
    forEach f (xs ++ ys) = forEach f xs >>= fun _ => forEach f ys :=
  fold_append _ () xs ys

theorem forEach_cons (f : γ → Prog σ ε Unit) (x : γ) (xs : List γ) :
    forEach f (x :: xs) = f x >>= fun _ => forEach f xs := rfl

theorem forEach_congr {f g : γ → Prog σ ε Unit} {xs : List γ} (h : ∀ x ∈ xs, f x = g x) :
    forEach f xs = forEach g xs := by
  induction xs with
  | nil => rfl
  | cons x xs ih =>
    rw [forEach_cons, forEach_cons, h x List.mem_cons_self,
      ih fun y hy => h y (List.mem_cons_of_mem x hy)]

theorem forEach_map {δ : Type*} (f : γ → Prog σ ε Unit) (g : δ → γ) (xs : List δ) :
    forEach f (xs.map g) = forEach (fun x => f (g x)) xs := by
  induction xs with
  | nil => rfl
  | cons x xs ih => rw [List.map_cons, forEach_cons, ih, forEach_cons]

theorem forEach_flatMap {δ : Type*} (f : γ → Prog σ ε Unit) (g : δ → List γ) (xs : List δ) :
    forEach f (xs.flatMap g) = forEach (fun x => forEach f (g x)) xs := by
  induction xs with
  | nil => rfl
  | cons x xs ih => rw [List.flatMap_cons, forEach_append, ih, forEach_cons]

/-- From `P`, a return satisfies `Q` and an exit satisfies `E`. -/
def Triple (P : σ → Prop) (m : Prog σ ε α) (Q : α → σ → Prop) (E : ε → σ → Prop) : Prop :=
  ∀ s, P s → match m s with
    | (.ok a, t) => Q a t
    | (.error e, t) => E e t

variable {P P' : σ → Prop} {Q Q' : α → σ → Prop} {E E' : ε → σ → Prop}

theorem triple_pure {a : α} (h : ∀ s, P s → Q a s) : Triple P (pure a : Prog σ ε α) Q E :=
  fun s hs => h s hs

theorem triple_leave {e : ε} (h : ∀ s, P s → E e s) : Triple P (leave e : Prog σ ε α) Q E :=
  fun s hs => h s hs

theorem triple_call {f : Call σ α} (h : ∀ s, P s → Q (f s).1 (f s).2) :
    Triple P (call f : Prog σ ε α) Q E :=
  fun s hs => h s hs

theorem Triple.cases {m : Prog σ ε α} (h : Triple P m Q E) {s : σ} (hs : P s) :
    (∃ a t, m s = (.ok a, t) ∧ Q a t) ∨ ∃ e t, m s = (.error e, t) ∧ E e t := by
  have h := h s hs
  rcases hr : m s with ⟨r, t⟩
  rw [hr] at h
  cases r with
  | ok a => exact Or.inl ⟨a, t, rfl, h⟩
  | error e => exact Or.inr ⟨e, t, rfl, h⟩

theorem triple_bind {m : Prog σ ε α} {f : α → Prog σ ε β} {R : β → σ → Prop}
    (hm : Triple P m Q E) (hf : ∀ a, Triple (Q a) (f a) R E) : Triple P (m >>= f) R E := by
  intro s hs
  rcases hm.cases hs with ⟨a, t, hr, hQ⟩ | ⟨e, t, hr, hE⟩
  · rw [bind_run, hr]
    exact hf a t hQ
  · rw [bind_run, hr]
    exact hE

theorem triple_conseq {m : Prog σ ε α} (h : Triple P' m Q' E') (hP : ∀ s, P s → P' s)
    (hQ : ∀ a s, Q' a s → Q a s) (hE : ∀ e s, E' e s → E e s) : Triple P m Q E := by
  intro s hs
  rcases h.cases (hP s hs) with ⟨a, t, hr, ha⟩ | ⟨e, t, hr, he⟩
  · rw [hr]
    exact hQ a t ha
  · rw [hr]
    exact hE e t he

theorem triple_exit {m : Prog σ ε α} (h : Triple P m Q E') (hE : ∀ e s, E' e s → E e s) :
    Triple P m Q E :=
  triple_conseq h (fun _ hs => hs) (fun _ _ hs => hs) hE

theorem triple_conj {m : Prog σ ε α} (h : Triple P m Q E) (h' : Triple P' m Q' E') :
    Triple (fun s => P s ∧ P' s) m (fun a s => Q a s ∧ Q' a s) fun e s => E e s ∧ E' e s := by
  intro s hs
  have h' := h' s hs.2
  rcases h.cases hs.1 with ⟨a, t, hr, ha⟩ | ⟨e, t, hr, he⟩
  · rw [hr] at h' ⊢
    exact ⟨ha, h'⟩
  · rw [hr] at h' ⊢
    exact ⟨he, h'⟩

theorem triple_frame {m : Prog σ ε α} {c : Prop} (h : Triple P m Q E) :
    Triple (fun s => P s ∧ c) m (fun a s => Q a s ∧ c) fun e s => E e s ∧ c := by
  intro s hs
  rcases h.cases hs.1 with ⟨a, t, hr, ha⟩ | ⟨e, t, hr, he⟩
  · rw [hr]
    exact ⟨ha, hs.2⟩
  · rw [hr]
    exact ⟨he, hs.2⟩

theorem triple_mapExit {m : Prog σ ε α} {g : ε → ε'} {F : ε' → σ → Prop}
    (h : Triple P m Q E) (hE : ∀ e s, E e s → F (g e) s) : Triple P (mapExit g m) Q F := by
  intro s hs
  rcases h.cases hs with ⟨a, t, hr, ha⟩ | ⟨e, t, hr, he⟩
  · rw [mapExit, hr]
    exact ha
  · rw [mapExit, hr]
    exact hE e t he

theorem triple_rescue {m : Prog σ ε α} {h : ε → Prog σ ε' α} {F : ε' → σ → Prop}
    (hm : Triple P m Q E) (hh : ∀ e, Triple (E e) (h e) Q F) : Triple P (rescue m h) Q F := by
  intro s hs
  rcases hm.cases hs with ⟨a, t, hr, ha⟩ | ⟨e, t, hr, he⟩
  · rw [rescue, hr]
    exact ha
  · rw [rescue, hr]
    exact hh e t he

theorem triple_ite {c : Prop} [Decidable c] {m n : Prog σ ε α}
    (ht : c → Triple P m Q E) (hf : ¬ c → Triple P n Q E) :
    Triple P (if c then m else n) Q E := by
  split
  · exact ht ‹_›
  · exact hf ‹_›

/-- The invariant of a loop is indexed by the list already processed; a step knows that this
list and its element begin the list of the loop. -/
theorem triple_fold_along {f : β → γ → Prog σ ε β} {I : List γ → β → σ → Prop} {xs : List γ}
    {b : β} (step : ∀ done x rest b, xs = done ++ x :: rest →
      Triple (I done b) (f b x) (fun c => I (done ++ [x]) c) E) :
    Triple (I [] b) (fold f b xs) (fun c => I xs c) E := by
  have main : ∀ rest done b, xs = done ++ rest →
      Triple (I done b) (fold f b rest) (fun c => I xs c) E := by
    intro rest
    induction rest with
    | nil =>
      intro done b hxs
      exact triple_pure (by simp [hxs])
    | cons x rest ih =>
      intro done b hxs
      refine triple_bind (step done x rest b hxs) ?_
      exact fun c => ih (done ++ [x]) c (by simp [hxs])
  exact main xs [] b rfl

theorem triple_fold {f : β → γ → Prog σ ε β} {I : List γ → β → σ → Prop} {xs : List γ} {b : β}
    (step : ∀ done x b, x ∈ xs → Triple (I done b) (f b x) (fun c => I (done ++ [x]) c) E) :
    Triple (I [] b) (fold f b xs) (fun c => I xs c) E :=
  triple_fold_along fun done x rest b hxs => step done x b (by simp [hxs])

theorem triple_forEach {f : γ → Prog σ ε Unit} {I : List γ → σ → Prop} {xs : List γ}
    (step : ∀ done x, x ∈ xs → Triple (I done) (f x) (fun _ => I (done ++ [x])) E) :
    Triple (I []) (forEach f xs) (fun _ => I xs) E :=
  triple_fold (I := fun done _ => I done) (fun done x _ hx => step done x hx)

theorem triple_returns {m : Prog σ ε α} (h : Triple P m Q (fun _ _ => False)) {s : σ}
    (hs : P s) : ∃ a t, m s = (.ok a, t) ∧ Q a t := by
  rcases h.cases hs with hok | ⟨e, t, hr, he⟩
  · exact hok
  · exact he.elim

/-- A returned value satisfies `R` and the invariant is kept; an exit satisfies `E`. -/
def Maintains (I : σ → Prop) (m : Prog σ ε α) (R : α → Prop) (E : ε → σ → Prop) : Prop :=
  Triple I m (fun a s => I s ∧ R a) E

section Maintains

variable {I : σ → Prop} {R : α → Prop}

theorem maintains_pure {a : α} (h : R a) : Maintains I (pure a : Prog σ ε α) R E :=
  triple_pure fun _ hs => ⟨hs, h⟩

theorem maintains_leave {e : ε} (h : ∀ s, I s → E e s) :
    Maintains I (leave e : Prog σ ε α) R E :=
  triple_leave h

theorem maintains_call {f : Call σ α} (h : ∀ s, I s → I (f s).2 ∧ R (f s).1) :
    Maintains I (call f : Prog σ ε α) R E :=
  triple_call h

theorem maintains_bind {m : Prog σ ε α} {f : α → Prog σ ε β} {T : β → Prop}
    (hm : Maintains I m R E) (hf : ∀ a, R a → Maintains I (f a) T E) :
    Maintains I (m >>= f) T E :=
  triple_bind hm fun a s hs => hf a hs.2 s hs.1

theorem maintains_weaken {m : Prog σ ε α} {T : α → Prop} (hm : Maintains I m R E)
    (h : ∀ a, R a → T a) : Maintains I m T E :=
  triple_conseq hm (fun _ hs => hs) (fun a _ hs => ⟨hs.1, h a hs.2⟩) fun _ _ hs => hs

theorem maintains_conj {m : Prog σ ε α} {T : α → Prop} (h : Maintains I m R E)
    (h' : Maintains I m T E') : Maintains I m (fun a => R a ∧ T a) E :=
  triple_conseq (triple_conj h h') (fun _ hs => ⟨hs, hs⟩)
    (fun _ _ hs => ⟨hs.1.1, hs.1.2, hs.2.2⟩) fun _ _ hs => hs.1

theorem maintains_mapExit {m : Prog σ ε α} {g : ε → ε'} {F : ε' → σ → Prop}
    (hm : Maintains I m R E) (hE : ∀ e s, E e s → F (g e) s) :
    Maintains I (mapExit g m) R F :=
  triple_mapExit hm hE

theorem maintains_ite {c : Prop} [Decidable c] {m n : Prog σ ε α}
    (ht : c → Maintains I m R E) (hf : ¬ c → Maintains I n R E) :
    Maintains I (if c then m else n) R E :=
  triple_ite ht hf

/-- The invariant of the loop's value is indexed by the list already processed. -/
theorem maintains_fold_along {f : β → γ → Prog σ ε β} {T : List γ → β → Prop} {xs : List γ}
    {b : β} (hb : T [] b) (step : ∀ done x rest b, xs = done ++ x :: rest → T done b →
      Maintains I (f b x) (T (done ++ [x])) E) :
    Maintains I (fold f b xs) (T xs) E := by
  have h : Triple (fun s => I s ∧ T [] b) (fold f b xs) (fun c s => I s ∧ T xs c) E :=
    triple_fold_along (I := fun done b s => I s ∧ T done b) fun done x rest b hxs s hs =>
      step done x rest b hxs hs.2 s hs.1
  exact fun s hs => h s ⟨hs, hb⟩

theorem maintains_fold {f : β → γ → Prog σ ε β} {T : List γ → β → Prop} {xs : List γ} {b : β}
    (hb : T [] b)
    (step : ∀ done x b, x ∈ xs → T done b → Maintains I (f b x) (T (done ++ [x])) E) :
    Maintains I (fold f b xs) (T xs) E :=
  maintains_fold_along hb fun done x rest b hxs => step done x b (by simp [hxs])

theorem maintains_forEach {f : γ → Prog σ ε Unit} {xs : List γ}
    (step : ∀ x, x ∈ xs → Maintains I (f x) (fun _ => True) E) :
    Maintains I (forEach f xs) (fun _ => True) E :=
  maintains_fold (T := fun _ _ => True) trivial fun _ x _ hx _ => step x hx

end Maintains

end EarlyExit
