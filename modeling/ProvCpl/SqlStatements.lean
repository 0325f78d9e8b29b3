import ProvCpl.LikePattern
import ProvCpl.SqlSelect
import Mathlib.Data.List.Dedup
import Mathlib.Data.List.MinMax
import Mathlib.Data.List.Perm.Subperm
import Mathlib.Data.List.Sections

/-! # Selections over several tables

A statement joins the tables that it names, keeps the combinations of rows for which its
condition is true, and answers with the columns that it selects. Comparisons with NULL are not
true. The answer is ordered only as far as the statement says. -/
namespace SqlStatements

open SqlSelect

structure ColumnRef where
  source : ℕ
  column : String
  deriving DecidableEq, Repr

inductive Operand where
  | column (c : ColumnRef)
  | param (i : ℕ)
  | number (n : ℤ)
  deriving DecidableEq, Repr

inductive Condition where
  | always
  | equals (a b : Operand)
  | exceeds (a b : Operand)
  | like (text pattern : Operand)
  | both (p q : Condition)
  | either (p q : Condition)
  deriving DecidableEq, Repr

/-- `newest` is an `ORDER BY … DESC`, `params` the number of question marks. -/
structure Query where
  distinct : Bool
  columns : List ColumnRef
  sources : List String
  condition : Condition
  newest : Option ColumnRef
  limit : Option ℕ
  params : ℕ
  deriving DecidableEq, Repr

abbrev Combination := List Row

def cell (rows : Combination) (c : ColumnRef) : Value :=
  (rows.getD c.source fun _ => .null) c.column

def Operand.eval (rows : Combination) (params : List Value) : Operand → Value
  | .column c => cell rows c
  | .param i => params.getD i .null
  | .number n => .integer n

/-- Whether the condition is true; `none` when a comparison is refused. -/
def Condition.eval (rows : Combination) (params : List Value) : Condition → Option Bool
  | .always => some true
  | .equals a b =>
    some (decide (b.eval rows params ≠ .null ∧ a.eval rows params = b.eval rows params))
  | .exceeds a b =>
    match a.eval rows params, b.eval rows params with
    | .integer m, .integer n => some (decide (n < m))
    | _, _ => some false
  | .like a b =>
    match a.eval rows params, b.eval rows params with
    | .text t, .text p => LikePattern.like p t
    | _, _ => some false
  | .both p q =>
    match p.eval rows params, q.eval rows params with
    | some a, some b => some (a && b)
    | _, _ => none
  | .either p q =>
    match p.eval rows params, q.eval rows params with
    | some a, some b => some (a || b)
    | _, _ => none

def ColumnRef.Fits (tables : List (List String)) (c : ColumnRef) : Prop :=
  c.column ∈ tables.getD c.source []

instance (tables : List (List String)) (c : ColumnRef) : Decidable (c.Fits tables) :=
  inferInstanceAs (Decidable (_ ∈ _))

def Operand.Fits (tables : List (List String)) (params : ℕ) : Operand → Prop
  | .column c => c.Fits tables
  | .param i => i < params
  | .number _ => True

instance (tables : List (List String)) (params : ℕ) :
    (a : Operand) → Decidable (a.Fits tables params)
  | .column c => inferInstanceAs (Decidable (c.Fits tables))
  | .param i => inferInstanceAs (Decidable (i < params))
  | .number _ => inferInstanceAs (Decidable True)

def Condition.Fits (tables : List (List String)) (params : ℕ) : Condition → Prop
  | .always => True
  | .equals a b | .exceeds a b | .like a b => a.Fits tables params ∧ b.Fits tables params
  | .both p q | .either p q => p.Fits tables params ∧ q.Fits tables params

def Condition.decideFits (tables : List (List String)) (params : ℕ) :
    (p : Condition) → Decidable (p.Fits tables params)
  | .always => inferInstanceAs (Decidable True)
  | .equals _ _ | .exceeds _ _ | .like _ _ => inferInstanceAs (Decidable (_ ∧ _))
  | .both p q | .either p q =>
    have := p.decideFits tables params
    have := q.decideFits tables params
    inferInstanceAs (Decidable (_ ∧ _))

instance (tables : List (List String)) (params : ℕ) (p : Condition) :
    Decidable (p.Fits tables params) := p.decideFits tables params

def Query.Fits (q : Query) (tables : List (List String)) : Prop :=
  (∀ c ∈ q.columns, c.Fits tables) ∧ q.condition.Fits tables q.params ∧
    ∀ c ∈ q.newest, c.Fits tables

instance (q : Query) (tables : List (List String)) : Decidable (q.Fits tables) :=
  inferInstanceAs (Decidable (_ ∧ _ ∧ _))

def Query.matching (q : Query) (db : Database) (params : List Value) :
    Option (List Combination) :=
  match q.sources.mapM db with
  | none => none
  | some tables =>
    if q.Fits (tables.map Table.columns) ∧ params.length = q.params ∧
        ∀ rows ∈ (tables.map Table.rows).sections, (q.condition.eval rows params).isSome then
      some ((tables.map Table.rows).sections.filter fun rows =>
        q.condition.eval rows params = some true)
    else none

def Query.project (q : Query) (rows : Combination) : List Value := q.columns.map (cell rows)

def Query.unique (q : Query) (rows : List (List Value)) : List (List Value) :=
  if q.distinct then rows.dedup else rows

def Query.cut (q : Query) (rows : List (List Value)) : List (List Value) :=
  match q.limit with
  | none => rows
  | some n => rows.take n

/-- Numbers and times are ordered. -/
def older : Value → Value → Prop
  | .integer m, .integer n => m < n
  | _, _ => False

def Query.Ordered (q : Query) (order : List Combination) : Prop :=
  ∀ c ∈ q.newest, order.Pairwise fun a b => ¬ older (cell a c) (cell b c)

def Query.Answers (q : Query) (db : Database) (params : List Value) (answer : List (List Value)) :
    Prop :=
  ∃ all order, q.matching db params = some all ∧ order.Perm all ∧ q.Ordered order ∧
    answer = q.cut (q.unique (order.map q.project))

/-- The answer, or `none` for a statement that is refused. -/
def Query.Responds (q : Query) (db : Database) (params : List Value) :
    Option (List (List Value)) → Prop
  | none => q.matching db params = none
  | some answer => q.Answers db params answer

section Operands

variable {rows : Combination} {params : List Value} {a b : Operand} {p q : Condition}

@[simp] theorem eval_column (c : ColumnRef) : (Operand.column c).eval rows params = cell rows c :=
  rfl

@[simp] theorem eval_param (i : ℕ) : (Operand.param i).eval rows params = params.getD i .null := rfl

@[simp] theorem eval_number (n : ℤ) : (Operand.number n).eval rows params = .integer n := rfl

@[simp] theorem cell_zero (r : Row) (rows : Combination) (c : String) :
    cell (r :: rows) ⟨0, c⟩ = r c := rfl

@[simp] theorem cell_succ (r : Row) (rows : Combination) (i : ℕ) (c : String) :
    cell (r :: rows) ⟨i + 1, c⟩ = cell rows ⟨i, c⟩ := rfl

@[simp] theorem eval_equals :
    (Condition.equals a b).eval rows params = some true ↔
      b.eval rows params ≠ .null ∧ a.eval rows params = b.eval rows params := by
  simp [Condition.eval]

@[simp] theorem eval_both : (Condition.both p q).eval rows params = some true ↔
    p.eval rows params = some true ∧ q.eval rows params = some true := by
  rw [Condition.eval]
  cases p.eval rows params <;> cases q.eval rows params <;> simp

def Condition.Plain : Condition → Prop
  | .like _ _ => False
  | .both p q | .either p q => p.Plain ∧ q.Plain
  | _ => True

def Condition.decidePlain : (p : Condition) → Decidable p.Plain
  | .like _ _ => inferInstanceAs (Decidable False)
  | .both p q | .either p q =>
    have := p.decidePlain
    have := q.decidePlain
    inferInstanceAs (Decidable (_ ∧ _))
  | .always | .equals _ _ | .exceeds _ _ => inferInstanceAs (Decidable True)

instance (p : Condition) : Decidable p.Plain := p.decidePlain

theorem Condition.Plain.isSome {p : Condition} (h : p.Plain) (rows : Combination)
    (params : List Value) : (p.eval rows params).isSome := by
  induction p with
  | always => rfl
  | equals a b => rfl
  | exceeds a b =>
    rw [Condition.eval]
    cases a.eval rows params <;> cases b.eval rows params <;> rfl
  | like a b => exact absurd h id
  | both p q ihp ihq =>
    obtain ⟨x, hx⟩ := Option.isSome_iff_exists.mp (ihp h.1)
    obtain ⟨y, hy⟩ := Option.isSome_iff_exists.mp (ihq h.2)
    rw [Condition.eval, hx, hy]
    rfl
  | either p q ihp ihq =>
    obtain ⟨x, hx⟩ := Option.isSome_iff_exists.mp (ihp h.1)
    obtain ⟨y, hy⟩ := Option.isSome_iff_exists.mp (ihq h.2)
    rw [Condition.eval, hx, hy]
    rfl

theorem eval_either (hp : p.Plain) (hq : q.Plain) :
    (Condition.either p q).eval rows params = some true ↔
      p.eval rows params = some true ∨ q.eval rows params = some true := by
  obtain ⟨x, hx⟩ := Option.isSome_iff_exists.mp (hp.isSome rows params)
  obtain ⟨y, hy⟩ := Option.isSome_iff_exists.mp (hq.isSome rows params)
  rw [Condition.eval, hx, hy]
  simp

end Operands

/-! How the answers of a statement follow from the rows of a table that it is true of. -/

theorem perm_map_iff {ρ α : Type*} {f : ρ → α} {l : List ρ} {m : List α} :
    m.Perm (l.map f) ↔ ∃ order : List ρ, order.Perm l ∧ m = order.map f := by
  have h := iff_of_eq (congrFun (congrFun (List.eq_map_comp_perm f) m) l)
  exact h.symm.trans (exists_congr fun order => and_comm)

section Answers

variable {q : Query} {db : Database} {params : List Value} {answer : List (List Value)}

theorem matching_of_tables {tables : List Table} (ht : q.sources.mapM db = some tables)
    (hf : q.Fits (tables.map Table.columns)) (hl : params.length = q.params)
    (hp : q.condition.Plain) : q.matching db params =
      some ((tables.map Table.rows).sections.filter fun rows =>
        q.condition.eval rows params = some true) := by
  rw [Query.matching, ht]
  exact if_pos ⟨hf, hl, fun rows _ => hp.isSome rows params⟩

variable {ρ : Type*} {rows : List ρ} {cols : ρ → List Value}

theorem matching_of_table {cells : ρ → Row} {columns : List String} {table : String}
    (hs : q.sources = [table]) (ht : db table = some ⟨columns, rows.map cells⟩)
    (hf : q.Fits [columns]) (hl : params.length = q.params) :
    q.matching db params =
      if ∀ r ∈ rows, (q.condition.eval [cells r] params).isSome then
        some ((rows.filter fun r => q.condition.eval [cells r] params = some true).map
          fun r => [cells r])
      else none := by
  have hm : q.sources.mapM db = some [⟨columns, rows.map cells⟩] := by
    rw [hs]
    simp [ht]
  have hsec : ([⟨columns, rows.map cells⟩].map Table.rows).sections =
      rows.map fun r => [cells r] := by
    simp [List.sections]
  rw [Query.matching, hm]
  dsimp only
  rw [hsec, List.filter_map]
  by_cases hall : ∀ r ∈ rows, (q.condition.eval [cells r] params).isSome
  · rw [if_pos hall, if_pos ⟨hf, hl, by simpa using hall⟩]
    rfl
  · rw [if_neg hall, if_neg]
    exact fun h => hall (by simpa using h.2.2)

theorem matching_of_rows {cells : ρ → Row} {columns : List String} {table : String}
    {P : ρ → Prop} [DecidablePred P] (hs : q.sources = [table])
    (ht : db table = some ⟨columns, rows.map cells⟩) (hf : q.Fits [columns])
    (hl : params.length = q.params) (hp : q.condition.Plain)
    (hP : ∀ r ∈ rows, q.condition.eval [cells r] params = some true ↔ P r) :
    q.matching db params = some ((rows.filter fun r => P r).map fun r => [cells r]) := by
  rw [matching_of_table hs ht hf hl, if_pos fun r _ => hp.isSome [cells r] params]
  congr 2
  apply List.filter_congr
  intro r hr
  simpa using hP r hr

theorem answers_rows {all : List Combination} (hd : q.distinct = false) (hn : q.newest = none)
    (hm : q.matching db params = some all) (hc : all.map q.project = rows.map cols) :
    q.Answers db params answer ↔
      ∃ order : List ρ, order.Perm rows ∧ answer = q.cut (order.map cols) := by
  have hunique : ∀ l, q.unique l = l := by
    intro l
    rw [Query.unique, hd]
    rfl
  constructor
  · rintro ⟨all', order, hall, hp, -, rfl⟩
    obtain rfl := Option.some.inj (hm.symm.trans hall)
    obtain ⟨order', hr, he⟩ := perm_map_iff.mp (hc ▸ hp.map q.project)
    exact ⟨order', hr, by rw [hunique, he]⟩
  · rintro ⟨order, hr, rfl⟩
    obtain ⟨order', hp, he⟩ := perm_map_iff.mp (hc.symm ▸ hr.map cols)
    exact ⟨all, order', hm, hp, by simp [Query.Ordered, hn], by rw [hunique, he]⟩

theorem answers_distinct {all : List Combination} (hd : q.distinct = true)
    (hn : q.newest = none) (hlim : q.limit = none) (hm : q.matching db params = some all)
    (hrows : (rows.map cols).Nodup)
    (hmem : ∀ v, v ∈ all.map q.project ↔ v ∈ rows.map cols) :
    q.Answers db params answer ↔ ∃ order : List ρ, order.Perm rows ∧ answer = order.map cols := by
  have hcut : ∀ l, q.cut (q.unique l) = l.dedup := by
    intro l
    rw [Query.cut, hlim, Query.unique, hd]
    rfl
  rw [← perm_map_iff]
  constructor
  · rintro ⟨all', order, hall, hp, -, rfl⟩
    obtain rfl := Option.some.inj (hm.symm.trans hall)
    rw [hcut, List.perm_ext_iff_of_nodup (List.nodup_dedup _) hrows]
    intro v
    rw [List.mem_dedup, (hp.map q.project).mem_iff, hmem]
  · intro hp
    have hnodup : answer.Nodup := hp.nodup_iff.mpr hrows
    have hsub : answer ⊆ all.map q.project := fun v hv =>
      (hmem v).mpr (hp.mem_iff.mp hv)
    -- The repeated rows come first, so that the last of each is the one in the answer.
    have hsplit : ((all.map q.project).diff answer ++ answer).Perm (all.map q.project) := by
      have hs := List.subperm_of_subset hnodup hsub
      exact List.perm_append_comm.trans
        (List.subperm_append_diff_self_of_count_le (List.subperm_ext_iff.mp hs))
    obtain ⟨order, ho, he⟩ := perm_map_iff.mp hsplit
    refine ⟨all, order, hm, ho, by simp [Query.Ordered, hn], ?_⟩
    have hleft : (all.map q.project).diff answer ⊆ answer := by
      intro v hv
      exact hp.mem_iff.mpr ((hmem v).mp (List.diff_subset _ _ hv))
    rw [hcut, ← he, hleft.dedup_append_right, hnodup.dedup]

/-- The newest row comes, any of them when several are equally new. -/
theorem answers_newest {env : ρ → Combination} {c : ColumnRef} {time : ρ → ℕ}
    (hd : q.distinct = false) (hn : q.newest = some c) (hlim : q.limit = some 1)
    (hm : q.matching db params = some (rows.map env)) (hc : ∀ r, q.project (env r) = cols r)
    (htime : ∀ r, cell (env r) c = .integer (time r)) :
    q.Answers db params answer ↔
      ∃ order : List ρ, order.Perm rows ∧ answer = (order.argmax time).toList.map cols := by
  have hanswer : ∀ order : List ρ, q.cut (q.unique ((order.map env).map q.project)) =
      (order.map cols).take 1 := by
    intro order
    rw [Query.cut, hlim, Query.unique, hd, List.map_map]
    exact congrArg (List.take 1) (List.map_congr_left fun r _ => hc r)
  have hordered : ∀ order : List ρ, q.Ordered (order.map env) ↔
      order.Pairwise fun a b => time b ≤ time a := by
    intro order
    simp [Query.Ordered, hn, List.pairwise_map, htime, older]
  constructor
  · rintro ⟨all, order, hall, hp, ho, rfl⟩
    obtain rfl := Option.some.inj (hm.symm.trans hall)
    obtain ⟨order, hr, rfl⟩ := perm_map_iff.mp hp
    refine ⟨order, hr, ?_⟩
    rw [hanswer]
    cases order with
    | nil => rfl
    | cons r order =>
      have hfirst : ∀ b ∈ order, time b ≤ time r := fun b hb =>
        List.rel_of_pairwise_cons ((hordered _).mp ho) hb
      have hmax : (r :: order).argmax time = some r := by
        rw [List.argmax_cons]
        cases hb : order.argmax time with
        | none => rfl
        | some b =>
          have hle := hfirst b (List.argmax_mem hb)
          exact if_neg (by omega)
      rw [hmax]
      rfl
  · rintro ⟨order, hr, rfl⟩
    cases hmax : order.argmax time with
    | none =>
      obtain rfl := List.argmax_eq_none.mp hmax
      refine ⟨_, [], hm, ?_, by simp [Query.Ordered], ?_⟩
      · rw [hr.nil_eq.symm]
        exact List.Perm.refl _
      · exact (hanswer []).symm
    | some r =>
      have hmem : r ∈ order := List.argmax_mem hmax
      obtain ⟨before, after, rfl⟩ := List.append_of_mem hmem
      -- The other rows follow, sorted by age.
      let rest := (before ++ after).mergeSort fun a b => decide (time b ≤ time a)
      have hrest : rest.Perm (before ++ after) := List.mergeSort_perm _ _
      refine ⟨_, (r :: rest).map env, hm, ?_, ?_, ?_⟩
      · exact (((hrest.cons r).trans List.perm_middle.symm).trans hr).map env
      · rw [hordered, List.pairwise_cons]
        constructor
        · intro b hb
          have hb' : b ∈ before ++ r :: after := by
            have := hrest.mem_iff.mp hb
            simp only [List.mem_append, List.mem_cons] at this ⊢
            tauto
          exact List.le_of_mem_argmax hb' hmax
        · have hs : rest.Pairwise fun a b => decide (time b ≤ time a) = true :=
            List.pairwise_mergeSort (by simp; omega) (by simp; omega) _
          simpa using hs
      · rw [hanswer]
        rfl

end Answers

/-! A selection from one table is such a statement. -/

/-- `WHERE c = ? AND …`, with the parameters from the `i`-th on. -/
def allEqual : List String → ℕ → Condition
  | [], _ => .always
  | c :: cs, i => .both (.equals (.column ⟨0, c⟩) (.param i)) (allEqual cs (i + 1))

def ofSelect (q : Select) : Query where
  distinct := false
  columns := q.columns.map fun c => ⟨0, c⟩
  sources := [q.table]
  condition := allEqual q.conditions 0
  newest := none
  limit := q.limit
  params := q.conditions.length

theorem allEqual_plain (conditions : List String) (i : ℕ) : (allEqual conditions i).Plain := by
  induction conditions generalizing i with
  | nil => trivial
  | cons c cs ih => exact ⟨trivial, ih (i + 1)⟩

theorem eval_allEqual {conditions : List String} {i : ℕ} {params : List Value} {r : Row}
    (h : (params.drop i).length = conditions.length) :
    (allEqual conditions i).eval [r] params = some true ↔
      matchesAll conditions (params.drop i) r = true := by
  induction conditions generalizing i with
  | nil =>
    rw [List.eq_nil_of_length_eq_zero h]
    simp [allEqual, Condition.eval]
  | cons c cs ih =>
    cases hd : params.drop i with
    | nil => simp [hd] at h
    | cons v vs =>
      have hi : i < params.length := by
        by_contra hlt
        rw [List.drop_eq_nil_of_le (by omega)] at hd
        cases hd
      rw [List.drop_eq_getElem_cons hi] at hd
      have hv := (List.cons.inj hd).1
      have hvs := (List.cons.inj hd).2
      rw [allEqual, eval_both, ih, matchesAll_cons, ← hv, ← hvs, eval_equals]
      · simp [List.getElem?_eq_getElem hi]
      · simp only [List.length_drop, List.length_cons] at h ⊢
        omega

theorem allEqual_fits {conditions columns : List String} {i n : ℕ}
    (h : i + conditions.length ≤ n) :
    (allEqual conditions i).Fits [columns] n ↔ ∀ c ∈ conditions, c ∈ columns := by
  induction conditions generalizing i with
  | nil => simp [allEqual, Condition.Fits]
  | cons c cs ih =>
    rw [List.length_cons] at h
    rw [allEqual, Condition.Fits, ih (by omega), List.forall_mem_cons]
    have hi : i < n := by omega
    simp [Condition.Fits, Operand.Fits, ColumnRef.Fits, hi]

theorem ofSelect_fits {q : Select} {columns : List String} :
    (ofSelect q).Fits [columns] ↔ q.Fits columns := by
  have hc : (allEqual q.conditions 0).Fits [columns] q.conditions.length ↔
      ∀ c ∈ q.conditions, c ∈ columns := allEqual_fits (by omega)
  simp only [Query.Fits, ofSelect, hc, Select.Fits, List.mem_append, or_imp, forall_and]
  simp [ColumnRef.Fits]

theorem ofSelect_matching (q : Select) (db : Database) (params : List Value) :
    (ofSelect q).matching db params = (q.matching db params).map (·.map fun r => [r]) := by
  rw [Query.matching, Select.matching]
  cases ht : db q.table with
  | none => simp [ofSelect, ht]
  | some t =>
    have hm : (ofSelect q).sources.mapM db = some [t] := by simp [ofSelect, ht]
    rw [hm]
    dsimp only
    by_cases hf : q.Fits t.columns ∧ params.length = q.conditions.length
    · have hplain := allEqual_plain q.conditions 0
      rw [if_pos ⟨ofSelect_fits.mpr hf.1, hf.2, fun rows _ => hplain.isSome rows params⟩,
        if_pos hf, Option.map_some]
      have hsec : ([t].map Table.rows).sections = t.rows.map fun r => [r] := by
        simp [List.sections]
      rw [hsec, List.filter_map]
      congr 2
      apply List.filter_congr
      intro r _
      have hall : (allEqual q.conditions 0).eval [r] params = some true ↔
          matchesAll q.conditions params r = true := eval_allEqual hf.2
      exact Bool.eq_iff_iff.mpr (decide_eq_true_iff.trans hall)
    · rw [if_neg hf, if_neg]
      · rfl
      · rintro ⟨hfit, hlen, -⟩
        exact hf ⟨ofSelect_fits.mp hfit, hlen⟩

theorem ofSelect_answers {q : Select} {db : Database} {params : List Value}
    {all : List Row} {answer : List (List Value)} (h : q.matching db params = some all) :
    (ofSelect q).Answers db params answer ↔
      ∃ order : List Row, order.Perm all ∧ answer = (q.cut order).map q.project := by
  have hm : (ofSelect q).matching db params = some (all.map fun r => [r]) := by
    rw [ofSelect_matching, h]
    rfl
  have hproject : (all.map fun r => [r]).map (ofSelect q).project = all.map q.project := by
    rw [List.map_map]
    refine List.map_congr_left fun r _ => ?_
    simp [Query.project, ofSelect, Select.project]
  rw [answers_rows rfl rfl hm hproject]
  have hcut : ∀ order : List Row,
      (ofSelect q).cut (order.map q.project) = (q.cut order).map q.project := by
    intro order
    rw [Query.cut, Select.cut, ofSelect]
    cases q.limit with
    | none => rfl
    | some n => exact List.map_take.symm
  simp only [hcut]

end SqlStatements
