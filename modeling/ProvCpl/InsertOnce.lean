import Mathlib.Data.List.Basic
import Mathlib.Data.List.Forall2
import Mathlib.Tactic.TypeStar

/-! # Tables whose insertions skip a key that is present

Rows are compared by a relation that says when two of them have the same key. An insertion is
taken apart into the check for the key and the append, since other clients may come between. -/
namespace InsertOnce

variable {α : Type*} {same : α → α → Prop}

def Present (same : α → α → Prop) (rows : List α) (r : α) : Prop := ∃ q ∈ rows, same q r

instance [DecidableRel same] (rows : List α) (r : α) : Decidable (Present same rows r) :=
  inferInstanceAs (Decidable (∃ q ∈ rows, same q r))

def insertOnce (same : α → α → Prop) [DecidableRel same] (rows : List α) (r : α) : List α :=
  if Present same rows r then rows else rows ++ [r]

def OnePerKey (same : α → α → Prop) (rows : List α) : Prop :=
  rows.Pairwise fun q r => ¬ same q r

instance [DecidableRel same] (rows : List α) : Decidable (OnePerKey same rows) :=
  inferInstanceAs (Decidable (rows.Pairwise _))

theorem onePerKey_nil : OnePerKey same [] := List.Pairwise.nil

theorem OnePerKey.append {rows : List α} (h : OnePerKey same rows) {r : α}
    (hr : ¬ Present same rows r) : OnePerKey same (rows ++ [r]) := by
  refine List.pairwise_append.mpr ⟨h, List.pairwise_singleton _ _, ?_⟩
  intro q hq x hx hsame
  rw [List.mem_singleton.mp hx] at hsame
  exact hr ⟨q, hq, hsame⟩

theorem not_onePerKey_append {rows : List α} {q r : α} (hq : q ∈ rows) (h : same q r) :
    ¬ OnePerKey same (rows ++ [r]) := fun hone =>
  (List.pairwise_append.mp hone).2.2 q hq r (List.mem_singleton_self r) h

theorem present_append {rows : List α} {q r : α} :
    Present same (rows ++ [q]) r ↔ Present same rows r ∨ same q r := by
  simp only [Present, List.mem_append, List.mem_singleton, or_and_right, exists_or,
    exists_eq_left]

section Decidable

variable [DecidableRel same] {rows : List α} {r : α}

theorem insertOnce_of_present (h : Present same rows r) : insertOnce same rows r = rows :=
  if_pos h

theorem insertOnce_of_absent (h : ¬ Present same rows r) :
    insertOnce same rows r = rows ++ [r] :=
  if_neg h

theorem insertOnce_cases (same : α → α → Prop) [DecidableRel same] (rows : List α) (r : α) :
    insertOnce same rows r = rows ∨ insertOnce same rows r = rows ++ [r] := by
  by_cases h : Present same rows r
  · exact Or.inl (insertOnce_of_present h)
  · exact Or.inr (insertOnce_of_absent h)

theorem mem_insertOnce {q : α} (h : q ∈ insertOnce same rows r) : q ∈ rows ∨ q = r := by
  rcases insertOnce_cases same rows r with he | he <;> rw [he] at h
  · exact Or.inl h
  · simpa using h

theorem prefix_insertOnce (same : α → α → Prop) [DecidableRel same] (rows : List α) (r : α) :
    rows <+: insertOnce same rows r := by
  rcases insertOnce_cases same rows r with h | h
  · exact ⟨[], by rw [h, List.append_nil]⟩
  · exact ⟨[r], h.symm⟩

theorem present_insertOnce (hrefl : same r r) : Present same (insertOnce same rows r) r := by
  by_cases h : Present same rows r
  · rwa [insertOnce_of_present h]
  · rw [insertOnce_of_absent h]
    exact present_append.mpr (Or.inr hrefl)

theorem insertOnce_again (hrefl : same r r) :
    insertOnce same (insertOnce same rows r) r = insertOnce same rows r :=
  insertOnce_of_present (present_insertOnce hrefl)

theorem insertOnce_eq_append : insertOnce same rows r = rows ++ [r] ↔ ¬ Present same rows r := by
  constructor
  · intro h hp
    rw [insertOnce_of_present hp] at h
    simpa using congrArg List.length h
  · exact insertOnce_of_absent

/-- After an insertion, a row of its key with a given feature is stored exactly when one was
stored before, or when the key was absent and the new row has the feature. -/
theorem exists_mem_insertOnce (hrefl : same r r) {P : α → Prop} (hr : P r) :
    (∃ q ∈ insertOnce same rows r, same q r ∧ P q) ↔
      (Present same rows r → ∃ q ∈ rows, same q r ∧ P q) := by
  by_cases h : Present same rows r
  · rw [insertOnce_of_present h]
    simp [h]
  · rw [insertOnce_of_absent h]
    exact ⟨fun _ hp => absurd hp h, fun _ => ⟨r, by simp, hrefl, hr⟩⟩

theorem only_insertOnce (h : ∀ q ∈ rows, same q r → q = r) :
    r ∈ insertOnce same rows r ∧ ∀ q ∈ insertOnce same rows r, same q r → q = r := by
  by_cases hp : Present same rows r
  · rw [insertOnce_of_present hp]
    obtain ⟨q, hq, hs⟩ := hp
    exact ⟨h q hq hs ▸ hq, h⟩
  · rw [insertOnce_of_absent hp]
    refine ⟨by simp, ?_⟩
    intro q hq hs
    rcases List.mem_append.mp hq with hq | hq
    · exact h q hq hs
    · exact List.mem_singleton.mp hq

end Decidable

/-! Two tables that have grown alike: row for row, what was added to the one is related to what
was added to the other. -/

section Mirrored

variable {Same : α → α → Prop} {New New' : α → Prop} {base rows base' rows' : List α}

def Mirrored (Same : α → α → Prop) (New : α → Prop) (base rows base' rows' : List α) : Prop :=
  ∃ l l', rows = base ++ l ∧ rows' = base' ++ l' ∧ List.Forall₂ Same l l' ∧ ∀ r ∈ l, New r

theorem exists_related {l l' : List α} (h : List.Forall₂ Same l l') {r : α} (hr : r ∈ l) :
    ∃ r' ∈ l', Same r r' := by
  induction h with
  | nil => cases hr
  | cons hrel _ ih =>
    rcases List.mem_cons.mp hr with rfl | hr
    · exact ⟨_, List.mem_cons_self, hrel⟩
    · obtain ⟨r', hr', hsame⟩ := ih hr
      exact ⟨r', List.mem_cons_of_mem _ hr', hsame⟩

theorem mirrored_refl : Mirrored Same New base base base' base' :=
  ⟨[], [], by simp, by simp, .nil, by simp⟩

theorem Mirrored.mono (h : Mirrored Same New base rows base' rows')
    (himp : ∀ r, New r → New' r) : Mirrored Same New' base rows base' rows' := by
  obtain ⟨l, l', he, he', hsame, hnew⟩ := h
  exact ⟨l, l', he, he', hsame, fun r hr => himp r (hnew r hr)⟩

theorem Mirrored.append (h : Mirrored Same New base rows base' rows') {r r' : α}
    (hr : Same r r') (hn : New r) : Mirrored Same New base (rows ++ [r]) base' (rows' ++ [r']) := by
  obtain ⟨l, l', rfl, rfl, hsame, hnew⟩ := h
  refine ⟨l ++ [r], l' ++ [r'], by simp, by simp, ?_, ?_⟩
  · exact List.rel_append hsame (.cons hr .nil)
  · intro q hq
    rcases List.mem_append.mp hq with hq | hq
    · exact hnew q hq
    · rwa [List.mem_singleton.mp hq]

/-- A feature that the rows there before lack, and that related rows share. -/
theorem Mirrored.exists_iff (h : Mirrored Same New base rows base' rows') {P P' : α → Prop}
    (hbase : ∀ q ∈ base, ¬ P q) (hbase' : ∀ q ∈ base', ¬ P' q)
    (hshare : ∀ q q', New q → Same q q' → (P q ↔ P' q')) :
    (∃ q ∈ rows, P q) ↔ ∃ q ∈ rows', P' q := by
  obtain ⟨l, l', rfl, rfl, hsame, hnew⟩ := h
  constructor
  · rintro ⟨q, hq, hp⟩
    rcases List.mem_append.mp hq with hq | hq
    · exact absurd hp (hbase q hq)
    · obtain ⟨q', hq', hrel⟩ := exists_related hsame hq
      exact ⟨q', List.mem_append_right _ hq', (hshare q q' (hnew q hq) hrel).mp hp⟩
  · rintro ⟨q', hq', hp⟩
    have hback : List.Forall₂ (flip Same) l' l := List.Forall₂.flip hsame
    rcases List.mem_append.mp hq' with hq' | hq'
    · exact absurd hp (hbase' q' hq')
    · obtain ⟨q, hq, hrel⟩ := exists_related hback hq'
      exact ⟨q, List.mem_append_right _ hq, (hshare q q' (hnew q hq) hrel).mpr hp⟩

/-- A row whose key the tables did not have before is dropped by both or added to both. -/
theorem Mirrored.insertOnce [DecidableRel same] (h : Mirrored Same New base rows base' rows')
    {r r' : α} (hr : Same r r') (hn : New r) (hbase : ∀ q ∈ base, ¬ same q r)
    (hbase' : ∀ q ∈ base', ¬ same q r')
    (hkey : ∀ q q', New q → Same q q' → (same q r ↔ same q' r')) :
    Mirrored Same New base (insertOnce same rows r) base' (insertOnce same rows' r') := by
  have hiff : Present same rows r ↔ Present same rows' r' := h.exists_iff hbase hbase' hkey
  by_cases hp : Present same rows r
  · rwa [insertOnce_of_present hp, insertOnce_of_present (hiff.mp hp)]
  · rw [insertOnce_of_absent hp, insertOnce_of_absent fun hp' => hp (hiff.mpr hp')]
    exact h.append hr hn

end Mirrored

/-! A table that several clients fill: the rows with the ids of one of them, in their order, are
related to what it adds to a table of its own. -/

section Portion

variable {Same Same' : α → α → Prop} {own : List ℕ} {id : α → ℕ} {base alone shared : List α}

def Portion (Same : α → α → Prop) (own : List ℕ) (id : α → ℕ) (base alone shared : List α) :
    Prop :=
  ∃ l, alone = base ++ l ∧ List.Forall₂ Same l (shared.filter fun r => id r ∈ own)

theorem portion_nil : Portion Same [] id base base shared :=
  ⟨[], by simp, by simp⟩

theorem Portion.mono (h : Portion Same own id base alone shared)
    (hsame : ∀ r r', Same r r' → Same' r r') : Portion Same' own id base alone shared := by
  obtain ⟨l, rfl, hl⟩ := h
  exact ⟨l, rfl, hl.imp hsame⟩

theorem Portion.append (h : Portion Same own id base alone shared) {r r' : α} (hr : Same r r')
    (hown : id r' ∈ own) : Portion Same own id base (alone ++ [r]) (shared ++ [r']) := by
  obtain ⟨l, rfl, hl⟩ := h
  refine ⟨l ++ [r], List.append_assoc .., ?_⟩
  rw [List.filter_append, List.filter_cons_of_pos (by simpa using hown), List.filter_nil]
  exact List.rel_append hl (.cons hr .nil)

theorem Portion.others (h : Portion Same own id base alone shared) {r : α} (hr : id r ∉ own) :
    Portion Same own id base alone (shared ++ [r]) := by
  obtain ⟨l, rfl, hl⟩ := h
  refine ⟨l, rfl, ?_⟩
  rwa [List.filter_append, List.filter_cons_of_neg (by simpa using hr), List.filter_nil,
    List.append_nil]

theorem Portion.widen (h : Portion Same own id base alone shared) {x : ℕ}
    (hx : ∀ r ∈ shared, id r ≠ x) (hsame : ∀ r r', Same r r' → Same' r r') :
    Portion Same' (own ++ [x]) id base alone shared := by
  obtain ⟨l, rfl, hl⟩ := h
  refine ⟨l, rfl, ?_⟩
  have hfilter : shared.filter (fun r => id r ∈ own ++ [x]) =
      shared.filter fun r => id r ∈ own := by
    refine List.filter_congr fun r hr => decide_eq_decide.mpr ?_
    rw [List.mem_append, List.mem_singleton, or_iff_left (hx r hr)]
  rw [hfilter]
  exact hl.imp hsame

theorem Portion.exists_of_mem (h : Portion Same own id base alone shared) {r' : α}
    (hr : r' ∈ shared) (hown : id r' ∈ own) : ∃ r ∈ alone, Same r r' := by
  obtain ⟨l, rfl, hl⟩ := h
  have hback : List.Forall₂ (flip Same) (shared.filter fun r => id r ∈ own) l := hl.flip
  obtain ⟨r, hr, hrel⟩ :=
    exists_related hback (List.mem_filter.mpr ⟨hr, decide_eq_true hown⟩)
  exact ⟨r, List.mem_append_right base hr, hrel⟩

theorem Portion.filter (h : Portion Same own id base alone shared) {p q : α → Prop}
    [DecidablePred p] [DecidablePred q] (hbase : ∀ r ∈ base, ¬ p r)
    (hown : ∀ r ∈ shared, q r → id r ∈ own) (hpq : ∀ r r', Same r r' → (p r ↔ q r')) :
    List.Forall₂ Same (alone.filter fun r => p r) (shared.filter fun r => q r) := by
  obtain ⟨l, rfl, hl⟩ := h
  have hnone : (base.filter fun r => p r) = [] := by
    rw [List.filter_eq_nil_iff]
    exact fun r hr hp => hbase r hr (of_decide_eq_true hp)
  have hall : (shared.filter fun r => q r) =
      (shared.filter fun r => id r ∈ own).filter fun r => q r := by
    rw [List.filter_filter]
    refine List.filter_congr fun r hr => ?_
    by_cases hq : q r
    · simp [hq, hown r hr hq]
    · simp [hq]
  rw [List.filter_append, hnone, List.nil_append, hall]
  refine List.rel_filter (fun r r' hr => ?_) hl
  simpa using hpq r r' hr

variable [DecidableRel same]

theorem Portion.insertOnce (h : Portion Same own id base alone shared) {r r' : α}
    (hr : Same r r') (hown : id r' ∈ own) (hid : ∀ q, same q r' → id q = id r')
    (hbase : ∀ q ∈ base, ¬ same q r) (hkey : ∀ q q', Same q q' → (same q r ↔ same q' r')) :
    Portion Same own id base (insertOnce same alone r) (insertOnce same shared r') := by
  have hiff : Present same alone r ↔ Present same shared r' := by
    constructor
    · rintro ⟨q, hq, hs⟩
      obtain ⟨l, rfl, hl⟩ := h
      rcases List.mem_append.mp hq with hq | hq
      · exact absurd hs (hbase q hq)
      · obtain ⟨q', hq', hrel⟩ := exists_related hl hq
        exact ⟨q', (List.mem_filter.mp hq').1, (hkey q q' hrel).mp hs⟩
    · rintro ⟨q', hq', hs⟩
      obtain ⟨q, hq, hrel⟩ := h.exists_of_mem hq' (hid q' hs ▸ hown)
      exact ⟨q, hq, (hkey q q' hrel).mpr hs⟩
  by_cases hp : Present same alone r
  · rwa [insertOnce_of_present hp, insertOnce_of_present (hiff.mp hp)]
  · rw [insertOnce_of_absent hp, insertOnce_of_absent fun hp' => hp (hiff.mpr hp')]
    exact h.append hr hown

theorem Portion.insertOnce_others (h : Portion Same own id base alone shared) {r : α}
    (hr : id r ∉ own) : Portion Same own id base alone (InsertOnce.insertOnce same shared r) := by
  by_cases hp : Present same shared r
  · rwa [insertOnce_of_present hp]
  · rw [insertOnce_of_absent hp]
    exact h.others hr

end Portion

end InsertOnce
