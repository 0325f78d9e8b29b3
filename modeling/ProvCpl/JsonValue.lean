import ProvCpl.CplTypes
import ProvCpl.EarlyExit
import ProvCpl.FloatText
import ProvCpl.OrderedMap
import Mathlib.Data.String.Basic

/-! # JSON values

The members of an object are kept in key order, as in the map that holds them. Operations
that throw on a value of another type give `none`. -/
namespace JsonValue

open FloatText (BinaryFloat float)
open EarlyExit (Prog leave)

/-- How a function over documents stops: with a return code, with an exception of the JSON
library, or with the use of a value that was never written. -/
inductive Stop where
  | ret (code : CplTypes.ReturnCode)
  | thrown
  | undefined
  deriving DecidableEq, Repr

def orThrow {σ α : Type} : Option α → Prog σ Stop α
  | some a => pure a
  | none => leave .thrown

inductive Json where
  | null
  | boolean (b : Bool)
  | integer (n : ℤ)
  | unsigned (n : ℕ)
  | float (x : BinaryFloat)
  | string (s : String)
  | array (elements : List Json)
  | object (members : List (String × Json))

def Json.isObject : Json → Bool
  | .object _ => true
  | _ => false

def Json.isString : Json → Bool
  | .string _ => true
  | _ => false

/-- `empty()`: null and containers without elements. -/
def Json.isEmpty : Json → Bool
  | .null => true
  | .array l => l.isEmpty
  | .object m => m.isEmpty
  | _ => false

/-- Comparison with `NULL`, which is a null pointer or the number zero. -/
def Json.equalsNull : Json → Bool
  | .null => true
  | .integer n => n = 0
  | .unsigned n => n = 0
  | .float (.finite _ m _) => m = 0
  | _ => false

/-- `find`; on anything but an object it gives `end()`. -/
def Json.find (j : Json) (key : String) : Option Json :=
  match j with
  | .object m => OrderedMap.find key m
  | _ => none

/-- The values visited by an iterator; a primitive value is visited once. -/
def Json.values : Json → List Json
  | .null => []
  | .array l => l
  | .object m => m.map Prod.snd
  | j => [j]

/-- The members visited by an iterator whose `key()` is read; `key()` throws on the first
element of anything but an object. -/
def Json.items : Json → Option (List (String × Json))
  | .null => some []
  | .array [] => some []
  | .object m => some m
  | _ => none

/-- The members of an object, none for any other value. -/
def Json.members : Json → List (String × Json)
  | .object m => m
  | _ => []

def Json.membersAt (j : Json) (key : String) : List (String × Json) :=
  ((j.find key).map Json.members).getD []

def Json.entryAt (j : Json) (sectionKey key : String) : Option Json :=
  OrderedMap.find key (j.membersAt sectionKey)

def Json.getString : Json → Option String
  | .string s => some s
  | _ => none

theorem getString_eq_some {j : Json} {a : String} (h : j.getString = some a) : j = .string a := by
  cases j <;> simp_all [Json.getString]

/-- `json[key] = value`, which first turns null into an object. -/
def Json.assign (j : Json) (key : String) (value : Json) : Json :=
  .object (OrderedMap.set key value j.members)

/-- `json[section][key] = value`. -/
def Json.assignIn (j : Json) (sectionKey key : String) (value : Json) : Json :=
  j.assign sectionKey (((j.find sectionKey).getD .null).assign key value)

def Json.IsScalar : Json → Prop
  | .string _ | .boolean _ | .integer _ | .unsigned _ | .float _ => True
  | _ => False

instance (j : Json) : Decidable j.IsScalar :=
  match j with
  | .string _ | .boolean _ | .integer _ | .unsigned _ | .float _ => .isTrue trivial
  | .null | .array _ | .object _ => .isFalse fun h => h

/-- The keys of every object are distinct and in order. -/
inductive Json.WellFormed : Json → Prop where
  | null : Json.WellFormed .null
  | scalar {j} : j.IsScalar → Json.WellFormed j
  | array {l} : (∀ j ∈ l, Json.WellFormed j) → Json.WellFormed (.array l)
  | object {m} : OrderedMap.Sorted m → (∀ e ∈ m, Json.WellFormed e.2) →
      Json.WellFormed (.object m)

@[simp] theorem find_object (m : List (String × Json)) (k : String) :
    (Json.object m).find k = OrderedMap.find k m := rfl

@[simp] theorem members_object (m : List (String × Json)) : (Json.object m).members = m := rfl

@[simp] theorem items_object (m : List (String × Json)) : (Json.object m).items = some m := rfl

theorem find_eq_members (j : Json) (k : String) : j.find k = OrderedMap.find k j.members := by
  cases j <;> rfl

theorem isObject_of_find {j : Json} {k : String} {v : Json} (h : j.find k = some v) :
    j = .object j.members := by
  cases j <;> simp_all [Json.find, Json.members]

theorem isObject_iff {j : Json} : j.isObject = true ↔ ∃ m, j = .object m := by
  cases j <;> simp [Json.isObject]

theorem isString_iff {j : Json} : j.isString = true ↔ ∃ s, j = .string s := by
  cases j <;> simp [Json.isString]

theorem Json.WellFormed.members {j : Json} (h : j.WellFormed) :
    OrderedMap.Sorted j.members ∧ ∀ e ∈ j.members, e.2.WellFormed := by
  cases h with
  | object hs hm => exact ⟨hs, hm⟩
  | null => exact ⟨List.Pairwise.nil, by simp [Json.members]⟩
  | array _ => exact ⟨List.Pairwise.nil, by simp [Json.members]⟩
  | scalar hs =>
    have hm : j.members = [] := by cases j <;> simp_all [Json.IsScalar, Json.members]
    rw [hm]
    exact ⟨List.Pairwise.nil, by simp⟩

theorem Json.WellFormed.membersAt {j : Json} (h : j.WellFormed) (key : String) :
    ∀ e ∈ j.membersAt key, e.2.WellFormed := by
  unfold Json.membersAt
  cases hv : j.find key with
  | none => simp
  | some v =>
    rw [find_eq_members] at hv
    exact (h.members.2 _ (OrderedMap.mem_of_find hv)).members.2

theorem find_assign (j : Json) (i k : String) (v : Json) :
    (j.assign k v).find i = if i = k then some v else j.find i := by
  rw [find_eq_members j]
  exact OrderedMap.find_set i k v j.members

theorem find_assignIn_ne {i s : String} (h : i ≠ s) (j : Json) (k : String) (v : Json) :
    (j.assignIn s k v).find i = j.find i := by
  rw [Json.assignIn, find_assign, if_neg h]

theorem find_assignIn_self (j : Json) (s k : String) (v : Json) :
    (j.assignIn s k v).find s = some (((j.find s).getD .null).assign k v) := by
  rw [Json.assignIn, find_assign, if_pos rfl]

theorem membersAt_assignIn (i s k : String) (v j : Json) :
    (j.assignIn s k v).membersAt i =
      if i = s then OrderedMap.set k v (j.membersAt s) else j.membersAt i := by
  split
  · next h =>
    subst h
    rw [Json.membersAt, find_assignIn_self, Json.membersAt]
    cases j.find i <;> rfl
  · next h => rw [Json.membersAt, find_assignIn_ne h, Json.membersAt]

theorem entryAt_assignIn (j : Json) (i s k n : String) (v : Json) :
    (j.assignIn s k v).entryAt i n = if i = s ∧ n = k then some v else j.entryAt i n := by
  rw [Json.entryAt, membersAt_assignIn]
  by_cases hi : i = s
  · subst hi
    simp only [if_true, true_and, OrderedMap.find_set, Json.entryAt]
  · simp only [hi, false_and, if_false, Json.entryAt]

end JsonValue
