import ProvCpl.StoreKnowledge

/-! # The order of annotations

Properties and prefixes are added to objects and relations that exist. Each such call performs
its insertion or does not, whatever is in the tables, and a repeated insertion changes nothing.
So calls that do not contradict each other may come in any order. -/
namespace AnnotationOrder

open CplTypes ProvStore ProvServer EarlyExit EventTrace StoreHistory ApiEffects StoreKnowledge
open WriteOnce InsertOnce ConcurrentInserts

/-- NULL arguments and the id 0 are refused. -/
def propertyRow (id : ℕ) (type : ℤ) :
    Option String → Option String → Option String → Option PropertyRow
  | some p, some k, some v => if id = cplNone then none else some ⟨id, p, k, v, type⟩
  | _, _, _ => none

def prefixRow (id : ℕ) : Option String → Option String → Option PrefixRow
  | some p, some i => if id = cplNone then none else some ⟨id, p, i⟩
  | _, _ => none

def insertion : ApiCall → Option Insertion
  | .add (.addObjectStringProperty id p k v) =>
    (propertyRow id stringProperty p k v).map .objectProperty
  | .add (.addObjectNumericalProperty id p k x) =>
    (propertyRow id numericalProperty p k (some (FloatText.toText x))).map .objectProperty
  | .add (.addObjectBooleanProperty id p k b) =>
    (propertyRow id booleanProperty p k (some (FloatText.boolText b))).map .objectProperty
  | .add (.addRelationStringProperty id p k v) =>
    (propertyRow id stringProperty p k v).map .relationProperty
  | .add (.addRelationNumericalProperty id p k x) =>
    (propertyRow id numericalProperty p k (some (FloatText.toText x))).map .relationProperty
  | .add (.addRelationBooleanProperty id p k b) =>
    (propertyRow id booleanProperty p k (some (FloatText.boolText b))).map .relationProperty
  | .add (.addPrefix id p i) => (prefixRow id p i).map .bundlePrefix
  | _ => none

def Annotates : ApiCall → Prop
  | .add (.createObject _ _ _) => False
  | .add (.addRelation _ _ _) => False
  | .lookupOrCreateObject _ _ _ => False
  | .importDocumentJson _ _ _ _ _ => False
  | _ => True

/-- The database executes the statement of a call, be it that nobody learns of it. -/
def Executes (srv : Server) (n : ℕ) : Prop :=
  srv.attached = true ∧ ((srv.outcome n).failure = none ∨ 0 < (srv.outcome n).lost)

instance (srv : Server) (n : ℕ) : Decidable (Executes srv n) :=
  inferInstanceAs (Decidable (_ ∧ (_ ∨ _)))

def performed (x : Client × ℕ × ApiCall) : Option Insertion :=
  if Executes x.1.server x.2.1 then insertion x.2.2 else none

section Insertions

variable {s t : Store} {i j : Insertion}

theorem hasOwner_append : j.HasOwner (i.append s) ↔ j.HasOwner s := by
  cases i <;> cases j <;> rfl

theorem duplicate_self : i.Duplicate (i.append s) := by
  cases i with
  | objectProperty r => exact present_append.mpr (Or.inr ⟨rfl, rfl, rfl, rfl⟩)
  | relationProperty r => exact present_append.mpr (Or.inr ⟨rfl, rfl, rfl, rfl⟩)
  | bundlePrefix r => exact present_append.mpr (Or.inr ⟨rfl, rfl⟩)

theorem run_cases (h : i.run s = some t) :
    i.HasOwner s ∧ (t = s ∧ i.Duplicate s ∨ t = i.append s) := by
  by_cases ho : i.HasOwner s
  · by_cases hd : i.Duplicate s
    · rw [run_duplicate ho hd] at h
      exact ⟨ho, Or.inl ⟨(Option.some.inj h).symm, hd⟩⟩
    · rw [run_new ho hd] at h
      exact ⟨ho, Or.inr (Option.some.inj h).symm⟩
  · rw [run_ownerless ho] at h
    cases h

theorem run_again (h : i.run s = some t) : i.run t = some t := by
  obtain ⟨ho, ⟨rfl, hd⟩ | rfl⟩ := run_cases h
  · exact run_duplicate ho hd
  · exact run_duplicate (hasOwner_append.mpr ho) duplicate_self

theorem hasOwner_run (s : Store) (i j : Insertion) :
    j.HasOwner ((i.run s).getD s) ↔ j.HasOwner s := by
  cases h : i.run s with
  | none => rfl
  | some t =>
    obtain ⟨-, ⟨rfl, -⟩ | rfl⟩ := run_cases h
    · rfl
    · exact hasOwner_append

end Insertions

section Calls

variable {srv : Server}

theorem replay_once {insert : Store → Option Store}
    (hagain : ∀ s t, insert s = some t → insert t = some t) (n : ℕ) (s : Store) :
    replay (fun s => (insert s).map fun t => ((), t)) n s =
      if n = 0 then s else (insert s).getD s := by
  induction n generalizing s with
  | zero => rfl
  | succ n ih =>
    rw [replay, ih, if_neg (Nat.succ_ne_zero n)]
    cases h : insert s with
    | none => simp [h]
    | some t => simp [hagain s t h]

/-- A statement that changes nothing when repeated is executed or not. -/
theorem execute_once {insert : Store → Option Store}
    (hagain : ∀ s t, insert s = some t → insert t = some t) (ha : srv.attached = true)
    (w : World) :
    (codeOnly (srv.execute fun _ s => (insert s).map fun t => ((), t)) w).2.store =
      if Executes srv w.calls then (insert w.store).getD w.store else w.store := by
  have hreplay := replay_once hagain (srv.outcome w.calls).lost w.store
  simp only [codeOnly, Server.execute, hreplay, Executes, ha, true_and]
  cases hf : (srv.outcome w.calls).failure with
  | some f =>
    by_cases hl : (srv.outcome w.calls).lost = 0
    · simp [hl]
    · simp [hl, Nat.pos_of_ne_zero hl]
  | none =>
    by_cases hl : (srv.outcome w.calls).lost = 0
    · cases h : insert w.store <;> simp [hl, h]
    · cases h : insert w.store with
      | none => simp [hl, h]
      | some t => simp [hl, hagain _ _ h]

def perform (s : Store) (o : Option Insertion) : Store :=
  (o.map fun i => (i.run s).getD s).getD s

theorem addProperty_perform (make : PropertyRow → Insertion)
    {db : ℕ → String → String → String → ℤ → Call World ReturnCode}
    (hdb : ∀ id p k v type, db id p k v type = codeOnly (srv.execute fun _ s =>
      ((make ⟨id, p, k, v, type⟩).run s).map fun t => ((), t)))
    (id : ℕ) (p k v : Option String) (type : ℤ) (w : World) :
    (srv.addProperty db id p k v type w).2.store = perform w.store
      (if Executes srv w.calls then (propertyRow id type p k v).map make else none) := by
  unfold Server.addProperty Server.ensureInitialized
  by_cases ha : srv.attached = true
  · rw [if_pos ha]
    rcases p with _ | p <;> rcases k with _ | k <;> rcases v with _ | v <;>
      try (simp [propertyRow, perform]; done)
    by_cases h0 : id = cplNone
    · simp [propertyRow, perform, h0]
    · simp only [if_neg h0, propertyRow, hdb, Option.map_some]
      rw [execute_once (fun _ _ => run_again) ha]
      by_cases he : Executes srv w.calls <;> simp [he, perform]
  · have hne : ¬ Executes srv w.calls := fun h => ha h.1
    simp [ha, hne, perform]

theorem addPrefix_perform (id : ℕ) (p i : Option String) (w : World) :
    (srv.addPrefix id p i w).2.store = perform w.store
      (if Executes srv w.calls then (prefixRow id p i).map .bundlePrefix else none) := by
  unfold Server.addPrefix Server.ensureInitialized
  by_cases ha : srv.attached = true
  · rw [if_pos ha]
    rcases p with _ | p <;> rcases i with _ | i <;> try (simp [prefixRow, perform]; done)
    by_cases h0 : id = cplNone
    · simp [prefixRow, perform, h0]
    · simp only [if_neg h0, prefixRow, Option.map_some]
      refine (execute_once (fun _ _ => run_again (i := .bundlePrefix ⟨id, p, i⟩)) ha w).trans ?_
      by_cases he : Executes srv w.calls <;> simp [he, perform]
  · have hne : ¬ Executes srv w.calls := fun h => ha h.1
    simp [ha, hne, perform]

theorem annotates_run {c : Client} {n : ℕ} {call : ApiCall} (h : Annotates call) (s : Store) :
    (call.run c ⟨s, n⟩).store = perform s (performed (c, n, call)) := by
  have hnothing : ∀ q, (ApiCall.run c (.ask q) ⟨s, n⟩).store =
      perform s (performed (c, n, .ask q)) := by
    intro q
    rw [ApiCall.run, question_store]
    simp [performed, insertion, perform]
  cases call with
  | ask q => exact hnothing q
  | lookupOrCreateObject p n type => exact h.elim
  | importDocumentJson text name anchors flags outId => exact h.elim
  | add a =>
    cases a with
    | createObject p n type => exact h.elim
    | addRelation f o type => exact h.elim
    | addObjectStringProperty id p k v =>
      exact addProperty_perform .objectProperty (fun _ _ _ _ _ => rfl) id p k v _ _
    | addObjectNumericalProperty id p k x =>
      exact addProperty_perform .objectProperty (fun _ _ _ _ _ => rfl) id p k _ _ _
    | addObjectBooleanProperty id p k b =>
      exact addProperty_perform .objectProperty (fun _ _ _ _ _ => rfl) id p k _ _ _
    | addRelationStringProperty id p k v =>
      exact addProperty_perform .relationProperty (fun _ _ _ _ _ => rfl) id p k v _ _
    | addRelationNumericalProperty id p k x =>
      exact addProperty_perform .relationProperty (fun _ _ _ _ _ => rfl) id p k _ _ _
    | addRelationBooleanProperty id p k b =>
      exact addProperty_perform .relationProperty (fun _ _ _ _ _ => rfl) id p k _ _ _
    | addPrefix id p i => exact addPrefix_perform id p i _

end Calls

/-- What the calls say of subjects whose owner exists. -/
def said (s : Store) (calls : List (Client × ℕ × ApiCall)) : List (Subject × Statement) :=
  ((calls.filterMap performed).filter (·.HasOwner s)).map insertionFact

theorem runCalls_annotations {s : Store} (hs : s.Reachable) {calls : List (Client × ℕ × ApiCall)}
    (h : ∀ x ∈ calls, Annotates x.2.2) :
    knowledge (runCalls s calls) = putAll (knowledge s) (said s calls) := by
  induction calls generalizing s with
  | nil => rfl
  | cons x calls ih => 
    obtain ⟨c, n, call⟩ := x
    have hx : Annotates call := h (c, n, call) List.mem_cons_self
    have hnext : (call.run c ⟨s, n⟩).store.Reachable := (apiCall_leads c call ⟨s, n⟩).reachable hs
    have hrest := ih hnext fun y hy => h y (List.mem_cons_of_mem _ hy)
    have hrun := annotates_run hx (c := c) (n := n) s
    rw [runCalls, hrest]
    cases hp : performed (c, n, call) with
    | none =>
      rw [hp] at hrun
      rw [hrun, said, said, List.filterMap_cons_none hp]
      rfl
    | some i =>
      have hi : (call.run c ⟨s, n⟩).store = applyEffect s (insertionEffect i) := by
        rw [hrun, hp, applyEffect_insertion]
        rfl
      have howner : said (call.run c ⟨s, n⟩).store calls = said s calls := by
        simp only [said, hi, applyEffect_insertion, hasOwner_run]
      rw [howner, hi, knowledge_applyEffect hs.valid (keyed_of_reachable hs), ← putAll_append,
        stated_insertion, said, said, List.filterMap_cons_some hp]
      by_cases ho : i.HasOwner s <;> simp [ho]

/-- Additions of properties and prefixes that do not contradict each other may come in any
order, with any questions between them and whatever fails: the rows are the same. -/
theorem annotations_commute {s : Store} (hs : s.Reachable)
    {calls calls' : List (Client × ℕ × ApiCall)} (hp : calls.Perm calls')
    (h : ∀ x ∈ calls, Annotates x.2.2) (hagree : Agree (said s calls)) :
    (contents (runCalls s calls)).Perm (contents (runCalls s calls')) := by
  have h' : ∀ x ∈ calls', Annotates x.2.2 := fun x hx => h x (hp.mem_iff.mpr hx)
  have hsaid : (said s calls).Perm (said s calls') :=
    ((hp.filterMap performed).filter _).map insertionFact
  have hkeyed := fun calls => keyed_of_reachable ((runCalls_leads s calls).reachable hs)
  refine perm_of_table_eq (hkeyed calls) (hkeyed calls') ?_
  calc knowledge (runCalls s calls) = putAll (knowledge s) (said s calls) :=
        runCalls_annotations hs h
    _ = putAll (knowledge s) (said s calls') := putAll_perm _ hsaid hagree
    _ = knowledge (runCalls s calls') := (runCalls_annotations hs h').symm

def losingServer : Server :=
  { Server.ideal with outcome := fun _ => ⟨1, some ⟨.statementError, not_isOk_statementError⟩⟩ }

def twoAnnotations : List (Client × ℕ × ApiCall) := [
  (⟨fun _ => none, fun _ => "", .ideal, ⟨0, false⟩⟩, 0,
    .add (.addObjectStringProperty 1 (some "ex") (some "k") (some "v"))),
  (⟨fun _ => none, fun _ => "", losingServer, ⟨0, false⟩⟩, 7,
    .add (.addPrefix 1 (some "ex") (some "e:")))]

theorem annotations_commute_two :
    (contents (runCalls (.oneEntity "e" 0) twoAnnotations)).Perm
      (contents (runCalls (.oneEntity "e" 0) twoAnnotations.reverse)) :=
  annotations_commute (Store.oneEntity_reachable "e" 0)
    (List.reverse_perm _).symm (by simp [twoAnnotations, Annotates]) (by decide)

end AnnotationOrder
