import Mathlib.Data.List.Dedup
import Mathlib.Data.List.Perm.Basic

/-! # Tables in which the first value stays

A table gives a value to some keys. Writing to a key that has a value changes nothing, so tables
only grow, and what a table says is never taken back. -/
namespace WriteOnce

variable {κ ν : Type*}

def Extends (f g : κ → Option ν) : Prop := ∀ k v, f k = some v → g k = some v

theorem Extends.refl (f : κ → Option ν) : Extends f f := fun _ _ h => h

theorem Extends.trans {f g h : κ → Option ν} (hfg : Extends f g) (hgh : Extends g h) :
    Extends f h :=
  fun k v hv => hgh k v (hfg k v hv)

variable [DecidableEq κ]

def putIfAbsent (f : κ → Option ν) (k : κ) (v : ν) : κ → Option ν := fun i =>
  (f i).or (if i = k then some v else none)

theorem extends_putIfAbsent (f : κ → Option ν) (k : κ) (v : ν) :
    Extends f (putIfAbsent f k v) := by
  intro i u hu
  rw [putIfAbsent, hu, Option.some_or]

theorem putIfAbsent_known {f : κ → Option ν} {k : κ} (h : (f k).isSome) (v : ν) :
    putIfAbsent f k v = f := by
  funext i
  by_cases hi : i = k
  · obtain ⟨u, hu⟩ := Option.isSome_iff_exists.mp h
    rw [putIfAbsent, hi, hu, Option.some_or]
  · simp [putIfAbsent, hi]

def putAll (f : κ → Option ν) (writes : List (κ × ν)) : κ → Option ν :=
  writes.foldl (fun f e => putIfAbsent f e.1 e.2) f

@[simp] theorem putAll_nil (f : κ → Option ν) : putAll f [] = f := rfl

@[simp] theorem putAll_append (f : κ → Option ν) (writes writes' : List (κ × ν)) :
    putAll f (writes ++ writes') = putAll (putAll f writes) writes' :=
  List.foldl_append

theorem extends_putAll (f : κ → Option ν) (writes : List (κ × ν)) :
    Extends f (putAll f writes) := by
  induction writes generalizing f with
  | nil => exact Extends.refl f
  | cons e writes ih => exact (extends_putIfAbsent f e.1 e.2).trans (ih _)

theorem putAll_of_known {f : κ → Option ν} {writes : List (κ × ν)}
    (h : ∀ e ∈ writes, (f e.1).isSome) : putAll f writes = f := by
  induction writes with
  | nil => rfl
  | cons e writes ih =>
    rw [putAll, List.foldl_cons, putIfAbsent_known (h e List.mem_cons_self)]
    exact ih fun x hx => h x (List.mem_cons_of_mem e hx)

theorem putAll_apply (f : κ → Option ν) (writes : List (κ × ν)) (k : κ) :
    putAll f writes k = (f k).or ((writes.find? fun e => e.1 = k).map Prod.snd) := by
  induction writes generalizing f with
  | nil => simp [putAll]
  | cons e writes ih =>
    rw [putAll, List.foldl_cons, ← putAll, ih, putIfAbsent, Option.or_assoc]
    by_cases hk : e.1 = k
    · simp [hk]
    · have hne : k ≠ e.1 := fun he => hk he.symm
      simp [hk, hne]

def Agree (writes : List (κ × ν)) : Prop :=
  ∀ e ∈ writes, ∀ e' ∈ writes, e.1 = e'.1 → e.2 = e'.2

instance [DecidableEq ν] (writes : List (κ × ν)) : Decidable (Agree writes) :=
  inferInstanceAs (Decidable (∀ e ∈ writes, ∀ e' ∈ writes, e.1 = e'.1 → e.2 = e'.2))

theorem find_of_agree {writes : List (κ × ν)} (h : Agree writes) {k : κ} {v : ν}
    (hm : (k, v) ∈ writes) : (writes.find? fun e => e.1 = k).map Prod.snd = some v := by
  cases hf : writes.find? fun e => e.1 = k with
  | none => simpa using List.find?_eq_none.mp hf (k, v) hm
  | some e =>
    have hk : e.1 = k := by simpa using List.find?_some hf
    rw [Option.map_some, h e (List.mem_of_find?_eq_some hf) (k, v) hm hk]

/-- Writes that agree may come in any order. -/
theorem putAll_perm (f : κ → Option ν) {writes writes' : List (κ × ν)}
    (hp : writes.Perm writes') (h : Agree writes) : putAll f writes = putAll f writes' := by
  have h' : Agree writes' := fun e he e' he' =>
    h e (hp.mem_iff.mpr he) e' (hp.mem_iff.mpr he')
  funext k
  rw [putAll_apply, putAll_apply]
  congr 1
  cases hf : writes.find? fun e => e.1 = k with
  | none =>
    have hnone : writes'.find? (fun e => e.1 = k) = none := by
      rw [List.find?_eq_none] at hf ⊢
      exact fun e he => hf e (hp.mem_iff.mpr he)
    rw [hnone]
  | some e =>
    have hk : e.1 = k := by simpa using List.find?_some hf
    have hm : (k, e.2) ∈ writes' := hp.mem_iff.mp (hk ▸ List.mem_of_find?_eq_some hf)
    rw [find_of_agree h' hm, Option.map_some]

/-! A list in which every key stands once is a table. -/

section Table

def table (rows : List (κ × ν)) : κ → Option ν := putAll (fun _ => none) rows

variable {rows rows' : List (κ × ν)}

omit [DecidableEq κ] in
theorem agree_of_nodup (h : (rows.map Prod.fst).Nodup) : Agree rows := by
  intro e he e' he' hk
  exact congrArg Prod.snd (List.inj_on_of_nodup_map h he he' hk)

theorem table_eq_some (h : (rows.map Prod.fst).Nodup) {k : κ} {v : ν} :
    table rows k = some v ↔ (k, v) ∈ rows := by
  rw [table, putAll_apply, Option.none_or]
  constructor
  · intro hf
    obtain ⟨e, he, rfl⟩ := Option.map_eq_some_iff.mp hf
    have hk : e.1 = k := by simpa using List.find?_some he
    exact hk ▸ List.mem_of_find?_eq_some he
  · exact find_of_agree (agree_of_nodup h)

theorem isSome_table (h : (rows.map Prod.fst).Nodup) {k : κ} :
    (table rows k).isSome ↔ k ∈ rows.map Prod.fst := by
  rw [Option.isSome_iff_exists]
  simp only [table_eq_some h, List.mem_map, Prod.exists, exists_and_right, exists_eq_right]

theorem perm_of_table_eq (h : (rows.map Prod.fst).Nodup) (h' : (rows'.map Prod.fst).Nodup)
    (he : table rows = table rows') : rows.Perm rows' := by
  refine (List.perm_ext_iff_of_nodup h.of_map h'.of_map).mpr fun e => ?_
  rw [← table_eq_some h, ← table_eq_some h', he]

end Table

end WriteOnce
