import Mathlib.Data.List.Nodup
import Mathlib.Data.List.Perm.Basic
import Mathlib.Order.Lattice

/-! # Ordered maps as association lists

Entries are kept in increasing key order, which is the iteration order of a map that
is a search tree. Lookup facts need no order; only uniqueness of keys does. -/
namespace OrderedMap

variable {κ α : Type*} [LinearOrder κ]

def find (k : κ) : List (κ × α) → Option α
  | [] => none
  | (a, v) :: m => if k = a then some v else find k m

def set (k : κ) (v : α) : List (κ × α) → List (κ × α)
  | [] => [(k, v)]
  | (a, w) :: m =>
    if k = a then (k, v) :: m
    else if k < a then (k, v) :: (a, w) :: m
    else (a, w) :: set k v m

def emplace (k : κ) (v : α) (m : List (κ × α)) : List (κ × α) :=
  if (find k m).isSome then m else set k v m

def keys (m : List (κ × α)) : List κ := m.map Prod.fst

def Sorted (m : List (κ × α)) : Prop := m.Pairwise (fun a b => a.1 < b.1)

@[simp] theorem find_nil (k : κ) : find k ([] : List (κ × α)) = none := rfl

theorem find_set (j k : κ) (v : α) (m : List (κ × α)) :
    find j (set k v m) = if j = k then some v else find j m := by
  induction m with
  | nil => simp [set, find]
  | cons e m ih =>
    obtain ⟨a, w⟩ := e
    by_cases hk : k = a
    · subst a
      by_cases hj : j = k <;> simp [set, find, hj]
    · by_cases hlt : k < a
      · by_cases hj : j = k <;> simp [set, find, hk, hlt, hj]
      · by_cases hj : j = k
        · subst j
          simp [set, find, hk, hlt, ih]
        · simp [set, find, hk, hlt, ih, hj]

theorem find_emplace (j k : κ) (v : α) (m : List (κ × α)) :
    find j (emplace k v m) = if j = k then some ((find k m).getD v) else find j m := by
  unfold emplace
  cases h : find k m with
  | none => simp [find_set]
  | some w =>
    by_cases hj : j = k
    · subst j; simp [h]
    · simp [hj]

theorem mem_of_find {k : κ} {v : α} {m : List (κ × α)} (h : find k m = some v) :
    (k, v) ∈ m := by
  induction m with
  | nil => cases h
  | cons e m ih =>
    obtain ⟨a, w⟩ := e
    by_cases hk : k = a
    · subst a; simp only [find, if_true, Option.some.injEq] at h; simp [h]
    · simp only [find, if_neg hk] at h; exact List.mem_cons_of_mem _ (ih h)

theorem find_eq_none_iff {k : κ} {m : List (κ × α)} : find k m = none ↔ k ∉ keys m := by
  induction m with
  | nil => simp [keys]
  | cons e m ih =>
    obtain ⟨a, w⟩ := e
    by_cases hk : k = a
    · subst a; simp [find, keys]
    · simpa [find, keys, hk] using ih

theorem find_of_mem {k : κ} {v : α} {m : List (κ × α)} (hn : (keys m).Nodup)
    (h : (k, v) ∈ m) : find k m = some v := by
  induction m with
  | nil => cases h
  | cons e m ih =>
    obtain ⟨a, w⟩ := e
    rw [keys, List.map_cons, List.nodup_cons] at hn
    rcases List.mem_cons.mp h with he | hm
    · cases he; simp [find]
    · have hk : k ≠ a := fun hk => hn.1 (List.mem_map.mpr ⟨(k, v), hm, hk⟩)
      rw [find, if_neg hk]
      exact ih hn.2 hm

theorem mem_set {k : κ} {v : α} {m : List (κ × α)} {e : κ × α} (h : e ∈ set k v m) :
    e = (k, v) ∨ e ∈ m := by
  induction m with
  | nil => exact Or.inl (by simpa [set] using h)
  | cons d m ih =>
    obtain ⟨a, w⟩ := d
    simp only [set] at h
    split_ifs at h with hk hlt
    · rcases List.mem_cons.mp h with h | h
      · exact Or.inl h
      · exact Or.inr (List.mem_cons_of_mem _ h)
    · exact List.mem_cons.mp h
    · rcases List.mem_cons.mp h with h | h
      · exact Or.inr (h ▸ List.mem_cons_self)
      · exact (ih h).imp_right (List.mem_cons_of_mem _)

theorem sorted_set (k : κ) (v : α) {m : List (κ × α)} (h : Sorted m) : Sorted (set k v m) := by
  induction m with
  | nil => simp [set, Sorted]
  | cons e m ih =>
    obtain ⟨a, w⟩ := e
    obtain ⟨ha, hm⟩ := List.pairwise_cons.mp h
    simp only [set]
    split_ifs with hk hlt
    · exact List.pairwise_cons.mpr ⟨fun e he => hk ▸ ha e he, hm⟩
    · refine List.pairwise_cons.mpr ⟨?_, h⟩
      intro e he
      rcases List.mem_cons.mp he with rfl | he
      · exact hlt
      · exact hlt.trans (ha e he)
    · refine List.pairwise_cons.mpr ⟨?_, ih hm⟩
      intro e he
      rcases mem_set he with rfl | he
      · exact lt_of_le_of_ne (le_of_not_gt hlt) (Ne.symm hk)
      · exact ha e he

theorem Sorted.nodup_keys {m : List (κ × α)} (h : Sorted m) : (keys m).Nodup := by
  unfold keys
  rw [List.nodup_iff_pairwise_ne, List.pairwise_map]
  exact h.imp fun hlt => ne_of_lt hlt

theorem Sorted.ext {m m' : List (κ × α)} (h : Sorted m) (h' : Sorted m')
    (hfind : ∀ k, find k m = find k m') : m = m' := by
  have hmem : ∀ {l : List (κ × α)}, Sorted l → ∀ e : κ × α, e ∈ l ↔ find e.1 l = some e.2 :=
    fun hl e => ⟨fun he => find_of_mem hl.nodup_keys he, fun he => mem_of_find he⟩
  have hperm : m.Perm m' := by
    rw [List.perm_ext_iff_of_nodup (List.Nodup.of_map _ h.nodup_keys)
      (List.Nodup.of_map _ h'.nodup_keys)]
    intro e
    rw [hmem h, hmem h', hfind]
  exact hperm.eq_of_pairwise (fun a b _ _ hab hba => absurd (hab.trans hba) (lt_irrefl _)) h h'

theorem set_ne_nil (k : κ) (v : α) (m : List (κ × α)) : set k v m ≠ [] := by
  intro h
  have hfind := find_set k k v m
  rw [h, if_pos rfl] at hfind
  cases hfind

theorem set_perm {k : κ} (v : α) {m : List (κ × α)} (h : find k m = none) :
    (set k v m).Perm ((k, v) :: m) := by
  induction m with
  | nil => exact List.Perm.refl _
  | cons e m ih =>
    obtain ⟨a, w⟩ := e
    by_cases hk : k = a
    · subst a; simp [find] at h
    · simp only [find, if_neg hk] at h
      by_cases hlt : k < a
      · simp only [set, if_neg hk, if_pos hlt]; exact List.Perm.refl _
      · simp only [set, if_neg hk, if_neg hlt]
        exact ((ih h).cons _).trans (List.Perm.swap _ _ _)

theorem mem_keys_set {j k : κ} (v : α) (m : List (κ × α)) :
    j ∈ keys (set k v m) ↔ j = k ∨ j ∈ keys m := by
  have h := find_set j k v m
  have hs := find_eq_none_iff (k := j) (m := set k v m)
  have hm := find_eq_none_iff (k := j) (m := m)
  by_cases hj : j = k
  · simp only [hj, if_true] at h hs ⊢
    simp only [h, reduceCtorEq, false_iff, not_not] at hs
    simp [hs]
  · rw [if_neg hj] at h
    rw [h, hm] at hs
    simpa [hj] using (not_iff_not.mp hs).symm

end OrderedMap
