import Mathlib.Data.Int.Notation
import Mathlib.Data.List.Perm.Basic

/-! # Selections from one table

A statement names the columns it reads, its table, and the columns that its parameters are
compared with. A server refuses it when a name does not exist; otherwise it answers with the
matching rows in any order, cut off at the limit. -/
namespace SqlSelect

inductive Value where
  | null
  | integer (n : ℤ)
  | text (s : String)
  deriving DecidableEq, Repr

abbrev Row := String → Value

structure Table where
  columns : List String
  rows : List Row

abbrev Database := String → Option Table

/-- `SELECT columns FROM table WHERE c = ? AND …`, with `LIMIT` when it is given. -/
structure Select where
  columns : List String
  table : String
  conditions : List String
  limit : Option ℕ
  deriving DecidableEq, Repr

/-- The parameters are compared in order; NULL is equal to nothing. -/
def matchesAll : List String → List Value → Row → Bool
  | [], [], _ => true
  | c :: cs, v :: vs, r => decide (v ≠ .null ∧ r c = v) && matchesAll cs vs r
  | _, _, _ => false

def Select.Fits (q : Select) (columns : List String) : Prop :=
  ∀ c ∈ q.columns ++ q.conditions, c ∈ columns

instance (q : Select) (columns : List String) : Decidable (q.Fits columns) :=
  inferInstanceAs (Decidable (∀ c ∈ q.columns ++ q.conditions, c ∈ columns))

/-- The matching rows as they are stored; none when the statement is refused. -/
def Select.matching (q : Select) (db : Database) (params : List Value) : Option (List Row) :=
  match db q.table with
  | none => none
  | some t =>
    if q.Fits t.columns ∧ params.length = q.conditions.length then
      some (t.rows.filter (matchesAll q.conditions params))
    else none

def Select.project (q : Select) (r : Row) : List Value := q.columns.map r

def Select.cut (q : Select) (rows : List Row) : List Row :=
  match q.limit with
  | none => rows
  | some n => rows.take n

def Select.Answers (q : Select) (db : Database) (params : List Value) (rows : List Row) : Prop :=
  ∃ all order, q.matching db params = some all ∧ order.Perm all ∧ rows = q.cut order

variable {q : Select} {db : Database} {params : List Value} {rows all : List Row}

@[simp] theorem matchesAll_nil (r : Row) : matchesAll [] [] r = true := rfl

@[simp] theorem matchesAll_cons (c : String) (cs : List String) (v : Value) (vs : List Value)
    (r : Row) : matchesAll (c :: cs) (v :: vs) r = true ↔
      (v ≠ .null ∧ r c = v) ∧ matchesAll cs vs r = true := by
  simp [matchesAll]

theorem matching_of_missing (h : db q.table = none) : q.matching db params = none := by
  rw [Select.matching, h]

theorem matching_of_cells {ρ : Type*} {cells : ρ → Row} {l : List ρ} {P : ρ → Prop}
    [DecidablePred P] (columns : List String)
    (h : db q.table = some ⟨columns, l.map cells⟩) (hf : q.Fits columns)
    (hl : params.length = q.conditions.length)
    (hP : ∀ r, matchesAll q.conditions params (cells r) = true ↔ P r) :
    q.matching db params = some ((l.filter fun r => P r).map cells) := by
  rw [Select.matching, h]
  dsimp only
  rw [if_pos ⟨hf, hl⟩, List.filter_map]
  congr 2
  apply List.filter_congr
  intro r _
  rw [Bool.eq_iff_iff, decide_eq_true_iff]
  exact hP r

theorem answers_first (h : q.limit = some 1) (hm : q.matching db params = some all) :
    q.Answers db params rows ↔ (all = [] ∧ rows = []) ∨ ∃ r ∈ all, rows = [r] := by
  constructor
  · intro ⟨all', order, hm', hp, he⟩
    obtain rfl := Option.some.inj (hm.symm.trans hm')
    rw [Select.cut, h] at he
    cases order with
    | nil => exact Or.inl ⟨hp.nil_eq.symm, he⟩
    | cons r order => exact Or.inr ⟨r, hp.mem_iff.mp List.mem_cons_self, he⟩
  · intro hr
    rcases hr with ⟨rfl, rfl⟩ | ⟨r, hr, rfl⟩
    · exact ⟨[], [], hm, List.Perm.refl _, by rw [Select.cut, h]; rfl⟩
    · obtain ⟨l₁, l₂, rfl⟩ := List.append_of_mem hr
      exact ⟨_, r :: (l₁ ++ l₂), hm, List.perm_middle.symm, by rw [Select.cut, h]; rfl⟩

end SqlSelect
