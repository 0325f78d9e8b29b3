import ProvCpl.EventTrace
import Mathlib.Data.List.Nodup
import Mathlib.Data.Set.Insert

/-! # Lifetimes of resources

Resources are opened, used and closed. One that lives within another is gone when that one is
closed. A run is proper when every resource is opened while it is closed, and used and closed
while it is alive. -/
namespace Lifetimes

open EventTrace

inductive Step (ρ : Type*) where
  | opened (r : ρ)
  | used (r : ρ)
  | closed (r : ρ)
  deriving DecidableEq, Repr

variable {ρ α : Type*}

def Step.next (s : Set ρ) : Step ρ → Set ρ
  | .opened r => insert r s
  | .used _ => s
  | .closed r => s \ {r}

def Housed (within : ρ → Option ρ) (s : Set ρ) (r : ρ) : Prop := ∀ o, within r = some o → o ∈ s

def Alive (within : ρ → Option ρ) (s : Set ρ) (r : ρ) : Prop := r ∈ s ∧ Housed within s r

def Step.Allowed (within : ρ → Option ρ) (s : Set ρ) : Step ρ → Prop
  | .opened r => r ∉ s ∧ Housed within s r
  | .used r => Alive within s r
  | .closed r => Alive within s r

def Proper (within : ρ → Option ρ) (s : Set ρ) (l : List (Step ρ)) : Prop :=
  EachStep Step.next (Step.Allowed within) s l

def after (s : Set ρ) (l : List (Step ρ)) : Set ρ := runTrace Step.next s l

def Gone (within : ρ → Option ρ) (s : Set ρ) : Prop := ∀ r, ¬ Alive within s r

def closes (l : List (Step ρ)) : List ρ := l.filterMap fun
  | .closed r => some r
  | _ => none

def opens (l : List (Step ρ)) : List ρ := l.filterMap fun
  | .opened r => some r
  | _ => none

section Runs

variable {within : ρ → Option ρ} {s : Set ρ} {l m : List (Step ρ)} {r : ρ}

@[simp] theorem proper_nil : Proper within s [] := trivial

@[simp] theorem proper_cons {x : Step ρ} :
    Proper within s (x :: l) ↔ x.Allowed within s ∧ Proper within (x.next s) l := Iff.rfl

@[simp] theorem after_nil : after s [] = s := rfl

@[simp] theorem after_cons {x : Step ρ} : after s (x :: l) = after (x.next s) l := rfl

@[simp] theorem after_append : after s (l ++ m) = after (after s l) m :=
  List.foldl_append

@[simp] theorem proper_append :
    Proper within s (l ++ m) ↔ Proper within s l ∧ Proper within (after s l) m := by
  induction l generalizing s with
  | nil => simp
  | cons x l ih => simp [ih, and_assoc]

@[simp] theorem mem_closes : r ∈ closes l ↔ .closed r ∈ l := by
  simp only [closes, List.mem_filterMap]
  constructor
  · rintro ⟨x, hx, hr⟩
    cases x with
    | closed r' => exact Option.some.inj hr ▸ hx
    | opened | used => cases hr
  · exact fun h => ⟨_, h, rfl⟩

@[simp] theorem mem_opens : r ∈ opens l ↔ .opened r ∈ l := by
  simp only [opens, List.mem_filterMap]
  constructor
  · rintro ⟨x, hx, hr⟩
    cases x with
    | opened r' => exact Option.some.inj hr ▸ hx
    | closed | used => cases hr
  · exact fun h => ⟨_, h, rfl⟩

@[simp] theorem closes_used : closes (.used r :: l) = closes l := rfl

@[simp] theorem closes_closed : closes (.closed r :: l) = r :: closes l := rfl

@[simp] theorem opens_used : opens (.used r :: l) = opens l := rfl

@[simp] theorem opens_opened : opens (.opened r :: l) = r :: opens l := rfl

theorem uses_proper (h : ∀ x ∈ l, ∃ r, x = .used r ∧ Alive within s r) :
    Proper within s l ∧ after s l = s := by
  induction l with
  | nil => exact ⟨trivial, rfl⟩
  | cons x l ih =>
    obtain ⟨r, rfl, hr⟩ := h x List.mem_cons_self
    obtain ⟨hl, ha⟩ := ih fun y hy => h y (List.mem_cons_of_mem _ hy)
    exact ⟨⟨hr, hl⟩, ha⟩

theorem after_closing (h : ∀ r, .opened r ∉ l) : after s l = s \ {r | .closed r ∈ l} := by
  induction l generalizing s with
  | nil =>
    ext r
    simp
  | cons x l ih =>
    rw [after_cons, ih fun r hr => h r (List.mem_cons_of_mem x hr)]
    ext r
    cases x with
    | opened r' => exact absurd List.mem_cons_self (h r')
    | used r' => simp [Step.next]
    | closed r' => simp [Step.next, and_assoc]

theorem after_opening (h : ∀ r, .closed r ∉ l) : after s l = s ∪ {r | .opened r ∈ l} := by
  induction l generalizing s with
  | nil => simp
  | cons x l ih =>
    rw [after_cons, ih fun r hr => h r (List.mem_cons_of_mem x hr)]
    ext r
    cases x with
    | closed r' => exact absurd List.mem_cons_self (h r')
    | used r' => simp [Step.next]
    | opened r' => simp [Step.next, or_assoc, or_left_comm]

theorem mem_after (h : r ∈ after s l) : r ∈ s ∨ .opened r ∈ l := by
  induction l generalizing s with
  | nil => exact Or.inl h
  | cons x l ih =>
    rcases ih h with h | h
    · cases x with
      | opened r' =>
        rcases h with rfl | h
        · exact Or.inr List.mem_cons_self
        · exact Or.inl h
      | used r' => exact Or.inl h
      | closed r' => exact Or.inl h.1
    · exact Or.inr (List.mem_cons_of_mem x h)

/-- Where nothing is used that is closed on the way, and every house stays open, the resources
are closed properly exactly when they are open and each is closed once. -/
theorem closing_proper_iff (hopen : ∀ r, .opened r ∉ l)
    (huse : ∀ r, .used r ∈ l → Alive within s r ∧ .closed r ∉ l ∧
      ∀ o, within r = some o → .closed o ∉ l)
    (hhouse : ∀ r, .closed r ∈ l → ∀ o, within r = some o → o ∈ s ∧ .closed o ∉ l) :
    Proper within s l ↔ (closes l).Nodup ∧ ∀ r, .closed r ∈ l → r ∈ s := by
  induction l generalizing s with
  | nil => simp [closes]
  | cons x l ih =>
    have hopen' : ∀ r, .opened r ∉ l := fun r hr => hopen r (List.mem_cons_of_mem x hr)
    cases x with
    | opened r => exact absurd List.mem_cons_self (hopen r)
    | used r =>
      have hr := (huse r List.mem_cons_self).1
      simp only [List.mem_cons, reduceCtorEq, false_or] at huse hhouse ⊢
      rw [proper_cons, Step.next, ih hopen' (fun q hq => huse q (Or.inr hq)) hhouse, closes_used]
      exact and_iff_right hr
    | closed r =>
      have hr : Housed within s r := fun o ho => (hhouse r List.mem_cons_self o ho).1
      rw [proper_cons, ih hopen']
      · simp only [Step.Allowed, Step.next, Alive, hr, and_true, closes_closed, List.nodup_cons,
          mem_closes, Set.mem_sdiff, Set.mem_singleton_iff, List.mem_cons, Step.closed.injEq]
        constructor
        · rintro ⟨hrs, hn, hl⟩
          refine ⟨⟨fun hm => (hl r hm).2 rfl, hn⟩, fun q hq => ?_⟩
          rcases hq with rfl | hq
          · exact hrs
          · exact (hl q hq).1
        · rintro ⟨⟨hm, hn⟩, hl⟩
          exact ⟨hl r (Or.inl rfl), hn, fun q hq => ⟨hl q (Or.inr hq), fun hqr => hm (hqr ▸ hq)⟩⟩
      · intro q hq
        obtain ⟨⟨hqs, hqo⟩, hqc, hqh⟩ := huse q (List.mem_cons_of_mem _ hq)
        simp only [List.mem_cons, Step.closed.injEq, not_or] at hqc hqh
        exact ⟨⟨⟨hqs, hqc.1⟩, fun o ho => ⟨hqo o ho, (hqh o ho).1⟩⟩, hqc.2,
          fun o ho => (hqh o ho).2⟩
      · intro q hq o ho
        obtain ⟨hos, hoc⟩ := hhouse q (List.mem_cons_of_mem _ hq) o ho
        simp only [List.mem_cons, Step.closed.injEq, not_or] at hoc
        exact ⟨⟨hos, hoc.1⟩, hoc.2⟩

theorem opening_proper (hclosed : ∀ r, .closed r ∉ l) (huse : ∀ r, .used r ∈ l → Alive within s r)
    (hopen : ∀ r, .opened r ∈ l → r ∉ s ∧ Housed within s r) (hn : (opens l).Nodup) :
    Proper within s l := by
  induction l generalizing s with
  | nil => trivial
  | cons x l ih =>
    have hclosed' : ∀ r, .closed r ∉ l := fun r hr => hclosed r (List.mem_cons_of_mem x hr)
    cases x with
    | closed r => exact absurd List.mem_cons_self (hclosed r)
    | used r =>
      refine ⟨huse r List.mem_cons_self, ih hclosed' (fun q hq => ?_) (fun q hq => ?_) hn⟩
      · exact huse q (List.mem_cons_of_mem _ hq)
      · exact hopen q (List.mem_cons_of_mem _ hq)
    | opened r =>
      obtain ⟨hr, hn⟩ := List.nodup_cons.mp hn
      refine ⟨hopen r List.mem_cons_self, ih hclosed' (fun q hq => ?_) (fun q hq => ?_) hn⟩
      · obtain ⟨hqs, hqo⟩ := huse q (List.mem_cons_of_mem _ hq)
        exact ⟨Or.inr hqs, fun o ho => Or.inr (hqo o ho)⟩
      · obtain ⟨hqs, hqo⟩ := hopen q (List.mem_cons_of_mem _ hq)
        refine ⟨?_, fun o ho => Or.inr (hqo o ho)⟩
        rintro (rfl | hq')
        · exact hr (mem_opens.mpr hq)
        · exact hqs hq'

/-- A loop is proper when each of its passages is where it starts. -/
theorem loop_proper_iff {f : α → List (Step ρ)} {xs : List α} {C : α → Prop}
    (h : ∀ done x rest, xs = done ++ x :: rest →
      (Proper within (after s (done.flatMap f)) (f x) ↔ C x)) :
    Proper within s (xs.flatMap f) ↔ ∀ x ∈ xs, C x := by
  have main : ∀ rest done, xs = done ++ rest →
      (Proper within (after s (done.flatMap f)) (rest.flatMap f) ↔ ∀ x ∈ rest, C x) := by
    intro rest
    induction rest with
    | nil => simp
    | cons x rest ih =>
      intro done hxs
      have hrest := ih (done ++ [x]) (by simp [hxs])
      rw [List.flatMap_append, after_append, List.flatMap_singleton] at hrest
      rw [List.flatMap_cons, proper_append, h done x rest hxs, hrest, List.forall_mem_cons]
  exact main xs [] rfl

end Runs

end Lifetimes
