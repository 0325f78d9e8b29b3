import ProvCpl.SqlSelect
import Mathlib.Data.List.Nodup

/-! # Insertions under a schema

An insertion fills the columns that it does not name with their defaults, is passed over when a
rule of the table says so, and is refused when it breaks a constraint. A sequence moves on even
when the insertion is refused. -/
namespace SqlInserts

open SqlSelect

inductive Default where
  | null
  | sequence
  | clock
  deriving DecidableEq, Repr

/-- `width` is the length of a `VARCHAR`. -/
structure ColumnDef where
  name : String
  default : Default
  width : Option ℕ
  notNull : Bool
  deriving DecidableEq, Repr

structure ForeignKey where
  column : String
  table : String
  references : String
  deriving DecidableEq, Repr

/-- `passedOver` holds the columns that an `ON INSERT … DO INSTEAD NOTHING` rule compares. -/
structure TableDef where
  columns : List ColumnDef
  primaryKey : Option String
  foreignKeys : List ForeignKey
  passedOver : Option (List String)
  deriving DecidableEq, Repr

abbrev Schema := String → Option TableDef

structure State where
  rows : String → List Row
  next : String → ℕ

inductive Source where
  | default
  | param (i : ℕ)
  | literal (v : Value)
  deriving DecidableEq, Repr

/-- `INSERT INTO table (columns) VALUES (values) RETURNING …`. -/
structure Insert where
  table : String
  columns : List String
  values : List Source
  returning : Option String
  deriving DecidableEq, Repr

/-- A text that is too long fits if only blanks are lost. -/
def fitText (width : ℕ) (s : String) : Option String :=
  if s.length ≤ width then some s
  else if (s.toList.drop width).all (· = ' ') then some (String.ofList (s.toList.take width))
  else none

/-- The value as the column keeps it; none when it does not fit. -/
def ColumnDef.keep (c : ColumnDef) (v : Value) : Option Value :=
  match v, c.width with
  | .null, _ => if c.notNull then none else some .null
  | .text s, some n => (fitText n s).map .text
  | v, _ => some v

def ColumnDef.fallback (c : ColumnDef) (next now : ℕ) : Value :=
  match c.default with
  | .null => .null
  | .sequence => .integer next
  | .clock => .integer now

/-- The source of a column: the one that stands where it is named, else its default. -/
def Insert.source (ins : Insert) (c : String) : Source :=
  ((ins.columns.zip ins.values).find? fun e => e.1 = c).elim .default Prod.snd

def Insert.value (ins : Insert) (params : List Value) (next now : ℕ) (c : ColumnDef) : Value :=
  match ins.source c.name with
  | .default => c.fallback next now
  | .param i => params.getD i .null
  | .literal v => v

def Insert.row (ins : Insert) (params : List Value) (next now : ℕ) :
    List ColumnDef → Option Row
  | [] => some fun _ => .null
  | c :: cs =>
    match c.keep (ins.value params next now c), ins.row params next now cs with
    | some v, some r => some fun name => if name = c.name then v else r name
    | _, _ => none

def Insert.Draws (ins : Insert) (columns : List ColumnDef) : Prop :=
  ∃ c ∈ columns, c.default = .sequence ∧ ins.source c.name = .default

instance (ins : Insert) (columns : List ColumnDef) : Decidable (ins.Draws columns) :=
  inferInstanceAs (Decidable (∃ c ∈ columns, _ ∧ _))

/-- The rows agree in the columns, none of which is NULL. -/
def SameIn (columns : List String) (r q : Row) : Prop :=
  ∀ c ∈ columns, r c ≠ .null ∧ q c = r c

instance (columns : List String) (r q : Row) : Decidable (SameIn columns r q) :=
  inferInstanceAs (Decidable (∀ c ∈ columns, _ ∧ _))

def TableDef.PassesOver (d : TableDef) (rows : List Row) (r : Row) : Prop :=
  ∃ columns ∈ d.passedOver, ∃ q ∈ rows, SameIn columns r q

instance (d : TableDef) (rows : List Row) (r : Row) : Decidable (d.PassesOver rows r) :=
  inferInstanceAs (Decidable (∃ columns ∈ d.passedOver, _))

/-- The keys of the table; a NULL refers to nothing. -/
def TableDef.Accepts (d : TableDef) (st : State) (rows : List Row) (r : Row) : Prop :=
  (∀ c ∈ d.primaryKey, r c ≠ .null ∧ ∀ q ∈ rows, q c ≠ r c) ∧
    ∀ k ∈ d.foreignKeys, r k.column = .null ∨ ∃ q ∈ st.rows k.table, q k.references = r k.column

instance (d : TableDef) (st : State) (rows : List Row) (r : Row) :
    Decidable (d.Accepts st rows r) :=
  inferInstanceAs (Decidable (_ ∧ _))

def State.draw (st : State) (table : String) : State :=
  { st with next := fun t => if t = table then st.next t + 1 else st.next t }

def State.append (st : State) (table : String) (r : Row) : State :=
  { st with rows := fun t => if t = table then st.rows t ++ [r] else st.rows t }

/-- The state afterwards and the returned values; `none` for a statement that is refused. -/
def Insert.run (schema : Schema) (now : ℕ) (ins : Insert) (params : List Value) (st : State) :
    State × Option (List Value) :=
  match schema ins.table with
  | none => (st, none)
  | some d =>
    let drawn := if ins.Draws d.columns then st.draw ins.table else st
    match ins.row params (st.next ins.table) now d.columns with
    | none => (drawn, none)
    | some r =>
      if d.PassesOver (st.rows ins.table) r then (drawn, some [])
      else if d.Accepts st (st.rows ins.table) r then
        (drawn.append ins.table r, some (ins.returning.toList.map r))
      else (drawn, none)

def State.database (schema : Schema) (st : State) : Database := fun name =>
  (schema name).map fun d => ⟨d.columns.map ColumnDef.name, st.rows name⟩

section Effects

variable {schema : Schema} {now : ℕ} {ins : Insert} {params : List Value} {st : State}
  {d : TableDef} {r : Row}

def drawnBy (ins : Insert) (d : TableDef) (st : State) : State :=
  if ins.Draws d.columns then st.draw ins.table else st

theorem run_passedOver (hs : schema ins.table = some d)
    (hr : ins.row params (st.next ins.table) now d.columns = some r)
    (hp : d.PassesOver (st.rows ins.table) r) :
    ins.run schema now params st = (drawnBy ins d st, some []) := by
  simp only [Insert.run, hs, hr]
  exact if_pos hp

theorem run_accepted (hs : schema ins.table = some d)
    (hr : ins.row params (st.next ins.table) now d.columns = some r)
    (hp : ¬ d.PassesOver (st.rows ins.table) r) (ha : d.Accepts st (st.rows ins.table) r) :
    ins.run schema now params st =
      ((drawnBy ins d st).append ins.table r, some (ins.returning.toList.map r)) := by
  simp only [Insert.run, hs, hr]
  rw [if_neg hp, if_pos ha]
  rfl

theorem run_refused (hs : schema ins.table = some d)
    (hr : ins.row params (st.next ins.table) now d.columns = some r)
    (hp : ¬ d.PassesOver (st.rows ins.table) r) (ha : ¬ d.Accepts st (st.rows ins.table) r) :
    ins.run schema now params st = (drawnBy ins d st, none) := by
  simp only [Insert.run, hs, hr]
  rw [if_neg hp, if_neg ha]
  rfl

theorem fitText_of_le {width : ℕ} {s : String} (h : s.length ≤ width) :
    fitText width s = some s := if_pos h

end Effects

end SqlInserts
