import ProvCpl.EventTrace
import ProvCpl.ProvStore

/-! # What further calls do to a store

Whatever clients call, a statement that the server rejects changes nothing and one that it
accepts only adds rows. -/
namespace StoreHistory

open ProvStore InsertOnce EventTrace

inductive Effect where
  | createObject (nsPrefix name : String) (type : ℤ) (now : ℕ)
  | addRelation (fromId toId : ℕ) (type : ℤ)
  | addObjectProperty (r : PropertyRow)
  | addRelationProperty (r : PropertyRow)
  | addPrefix (r : PrefixRow)
  deriving DecidableEq, Repr

def applyEffect (s : Store) : Effect → Store
  | .createObject p n t now => s.insertObject p n t now
  | .addRelation f o t => s.insertRelation f o t
  | .addObjectProperty r => (s.insertObjectProperty r).getD s
  | .addRelationProperty r => (s.insertRelationProperty r).getD s
  | .addPrefix r => (s.insertPrefix r).getD s

/-- Every row of `s` is still there, in its place. -/
structure Grows (s t : Store) : Prop where
  objects : s.objects <+: t.objects
  relations : s.relations <+: t.relations
  objectProperties : s.objectProperties <+: t.objectProperties
  relationProperties : s.relationProperties <+: t.relationProperties
  prefixes : s.prefixes <+: t.prefixes

theorem Grows.refl (s : Store) : Grows s s := by
  constructor <;> exact List.prefix_refl _

theorem Grows.trans {s t u : Store} (h : Grows s t) (h' : Grows t u) : Grows s u where
  objects := h.objects.trans h'.objects
  relations := h.relations.trans h'.relations
  objectProperties := h.objectProperties.trans h'.objectProperties
  relationProperties := h.relationProperties.trans h'.relationProperties
  prefixes := h.prefixes.trans h'.prefixes

theorem applyEffect_grows (s : Store) (e : Effect) : Grows s (applyEffect s e) := by
  cases e with
  | createObject p n t now =>
    exact { Grows.refl s with objects := List.prefix_append _ _ }
  | addRelation f o t =>
    exact { Grows.refl s with relations := List.prefix_append _ _ }
  | addObjectProperty r =>
    simp only [applyEffect]
    cases h : s.insertObjectProperty r with
    | none => exact Grows.refl s
    | some t =>
      obtain ⟨-, rfl⟩ := insertObjectProperty_eq h
      exact { Grows.refl s with objectProperties := prefix_insertOnce _ _ _ }
  | addRelationProperty r =>
    simp only [applyEffect]
    cases h : s.insertRelationProperty r with
    | none => exact Grows.refl s
    | some t =>
      obtain ⟨-, rfl⟩ := insertRelationProperty_eq h
      exact { Grows.refl s with relationProperties := prefix_insertOnce _ _ _ }
  | addPrefix r =>
    simp only [applyEffect]
    cases h : s.insertPrefix r with
    | none => exact Grows.refl s
    | some t =>
      obtain ⟨-, rfl⟩ := insertPrefix_eq h
      exact { Grows.refl s with prefixes := prefix_insertOnce _ _ _ }

theorem run_grows (s : Store) (effects : List Effect) :
    Grows s (runTrace applyEffect s effects) := by
  induction effects generalizing s with
  | nil => exact Grows.refl s
  | cons e effects ih => exact (applyEffect_grows s e).trans (ih (applyEffect s e))

end StoreHistory
