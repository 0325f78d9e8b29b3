import ProvCpl.ApiEffects
import ProvCpl.ConcurrentInserts
import ProvCpl.WriteOnce

/-! # What a store says

Read as facts, the rows of a store say at most one thing of each subject. A call states facts;
what was said of a subject before stays, so that a history of calls is a run of writes to a
table in which the first value stays. -/
namespace StoreKnowledge

open CplTypes ProvStore EventTrace StoreHistory ApiEffects ConcurrentInserts WriteOnce

/-- What a row is about: the columns that identify it. -/
inductive Subject where
  | object (id : ℕ)
  | relation (id : ℕ)
  | objectProperty (id : ℕ) (nsPrefix name : String) (type : ℤ)
  | relationProperty (id : ℕ) (nsPrefix name : String) (type : ℤ)
  | bundlePrefix (id : ℕ) (nsPrefix : String)
  deriving DecidableEq

/-- What is said of it: the other columns. -/
inductive Statement where
  | object (nsPrefix name : Option String) (type : Option ℤ) (creationTime : ℕ)
  | relation (fromId toId : Option ℕ) (type : Option ℤ)
  | text (value : String)
  deriving DecidableEq

def objectFact (r : ObjectRow) : Subject × Statement :=
  (.object r.id, .object r.nsPrefix r.name r.type r.creationTime)

def relationFact (r : RelationRow) : Subject × Statement :=
  (.relation r.id, .relation r.fromId r.toId r.type)

def objectPropertyFact (r : PropertyRow) : Subject × Statement :=
  (.objectProperty r.id r.nsPrefix r.name r.type, .text r.value)

def relationPropertyFact (r : PropertyRow) : Subject × Statement :=
  (.relationProperty r.id r.nsPrefix r.name r.type, .text r.value)

def prefixFact (r : PrefixRow) : Subject × Statement := (.bundlePrefix r.id r.nsPrefix, .text r.iri)

def insertionFact : Insertion → Subject × Statement
  | .objectProperty r => objectPropertyFact r
  | .relationProperty r => relationPropertyFact r
  | .bundlePrefix r => prefixFact r

def contents (s : Store) : List (Subject × Statement) :=
  s.objects.map objectFact ++ s.relations.map relationFact ++
    s.objectProperties.map objectPropertyFact ++
    s.relationProperties.map relationPropertyFact ++ s.prefixes.map prefixFact

def knowledge (s : Store) : Subject → Option Statement := table (contents s)

/-- An insertion whose foreign key fails states nothing. -/
def stated (s : Store) : Effect → List (Subject × Statement)
  | .createObject p n t now => [objectFact ⟨s.nextObject, some p, some n, some t, now⟩]
  | .addRelation f o t => [relationFact ⟨s.nextRelation, some f, some o, some t⟩]
  | .addObjectProperty r => if r.id ∈ s.objects.map (·.id) then [objectPropertyFact r] else []
  | .addRelationProperty r =>
    if r.id ∈ s.relations.map (·.id) then [relationPropertyFact r] else []
  | .addPrefix r => if r.id ∈ s.objects.map (·.id) then [prefixFact r] else []

def statedBy (s : Store) : List Effect → List (Subject × Statement)
  | [] => []
  | e :: effects => stated s e ++ statedBy (applyEffect s e) effects

def Keyed (s : Store) : Prop := ((contents s).map Prod.fst).Nodup

theorem keyed_fresh : Keyed Store.fresh := by
  simp [Keyed, contents, Store.fresh, objectFact, relationFact]

def insertionEffect : Insertion → Effect
  | .objectProperty r => .addObjectProperty r
  | .relationProperty r => .addRelationProperty r
  | .bundlePrefix r => .addPrefix r

section Tables

variable {s t : Store} {i : Insertion}

theorem applyEffect_insertion (s : Store) (i : Insertion) :
    applyEffect s (insertionEffect i) = (i.run s).getD s := by
  cases i <;> rfl

theorem stated_insertion (s : Store) (i : Insertion) :
    stated s (insertionEffect i) = if i.HasOwner s then [insertionFact i] else [] := by
  cases i <;> rfl

theorem mem_contents_objectProperty {r : PropertyRow} (h : r ∈ s.objectProperties) :
    objectPropertyFact r ∈ contents s := by
  simp only [contents, List.mem_append]
  exact Or.inl (Or.inl (Or.inr (List.mem_map_of_mem h)))

theorem mem_contents_relationProperty {r : PropertyRow} (h : r ∈ s.relationProperties) :
    relationPropertyFact r ∈ contents s := by
  simp only [contents, List.mem_append]
  exact Or.inl (Or.inr (List.mem_map_of_mem h))

theorem contents_concat {ρ : Type} {fact : ρ → Subject × Statement} (rows : List ρ) {r : ρ}
    {a b : List (Subject × Statement)} (hs : contents s = a ++ rows.map fact ++ b)
    (ht : contents t = a ++ (rows ++ [r]).map fact ++ b) :
    (contents t).Perm (contents s ++ [fact r]) := by
  rw [hs, ht, List.map_append, List.map_singleton]
  simp only [List.append_assoc]
  have hcomm : ([fact r] ++ b).Perm (b ++ [fact r]) := List.perm_append_comm
  exact (hcomm.append_left _).append_left a

theorem contents_insertObject (s : Store) (p n : String) (t : ℤ) (now : ℕ) :
    (contents (s.insertObject p n t now)).Perm
      (contents s ++ [objectFact ⟨s.nextObject, some p, some n, some t, now⟩]) := by
  refine contents_concat s.objects (a := []) (b := s.relations.map relationFact ++
    s.objectProperties.map objectPropertyFact ++
    s.relationProperties.map relationPropertyFact ++ s.prefixes.map prefixFact) ?_ ?_
  · simp [contents]
  · simp [contents, Store.insertObject]

theorem contents_insertRelation (s : Store) (f o : ℕ) (t : ℤ) :
    (contents (s.insertRelation f o t)).Perm
      (contents s ++ [relationFact ⟨s.nextRelation, some f, some o, some t⟩]) := by
  refine contents_concat s.relations (a := s.objects.map objectFact)
    (b := s.objectProperties.map objectPropertyFact ++
      s.relationProperties.map relationPropertyFact ++ s.prefixes.map prefixFact) ?_ ?_
  · simp [contents]
  · simp [contents, Store.insertRelation]

theorem contents_append (s : Store) (i : Insertion) :
    (contents (i.append s)).Perm (contents s ++ [insertionFact i]) := by
  cases i with
  | objectProperty r =>
    rw [insertionFact]
    refine contents_concat s.objectProperties
      (a := s.objects.map objectFact ++ s.relations.map relationFact)
      (b := s.relationProperties.map relationPropertyFact ++ s.prefixes.map prefixFact) ?_ ?_
    · simp [contents]
    · simp [contents, Insertion.append]
  | relationProperty r =>
    rw [insertionFact]
    refine contents_concat s.relationProperties
      (a := s.objects.map objectFact ++ s.relations.map relationFact ++
        s.objectProperties.map objectPropertyFact) (b := s.prefixes.map prefixFact) ?_ ?_
    · simp [contents]
    · simp [contents, Insertion.append]
  | bundlePrefix r =>
    rw [insertionFact]
    refine contents_concat s.prefixes
      (a := s.objects.map objectFact ++ s.relations.map relationFact ++
        s.objectProperties.map objectPropertyFact ++
        s.relationProperties.map relationPropertyFact) (b := []) ?_ ?_
    · simp [contents]
    · simp [contents, Insertion.append]

theorem unknown_nextObject (h : s.Valid) :
    Subject.object s.nextObject ∉ (contents s).map Prod.fst := by
  simp [contents, objectFact, relationFact, objectPropertyFact, relationPropertyFact, prefixFact]
  exact fun r hr he => absurd he (Nat.ne_of_lt (h.object_bound r hr))

theorem unknown_nextRelation (h : s.Valid) :
    Subject.relation s.nextRelation ∉ (contents s).map Prod.fst := by
  simp [contents, objectFact, relationFact, objectPropertyFact, relationPropertyFact, prefixFact]
  exact fun r hr he => absurd he (Nat.ne_of_lt (h.relation_bound r hr))

/-- The rule of a table asks whether the subject is known. -/
theorem known_iff_duplicate :
    (insertionFact i).1 ∈ (contents s).map Prod.fst ↔ i.Duplicate s := by
  cases i <;>
    simp [contents, insertionFact, objectFact, relationFact, objectPropertyFact,
      relationPropertyFact, prefixFact, Insertion.Duplicate, InsertOnce.Present, SameKey,
      SamePrefix]

end Tables

theorem contents_insertion (s : Store) (i : Insertion) :
    (contents (applyEffect s (insertionEffect i)) = contents s ∧
      ∀ w ∈ stated s (insertionEffect i), w.1 ∈ (contents s).map Prod.fst) ∨
    (stated s (insertionEffect i) = [insertionFact i] ∧
      (insertionFact i).1 ∉ (contents s).map Prod.fst ∧
      (contents (applyEffect s (insertionEffect i))).Perm (contents s ++ [insertionFact i])) := by
  rw [applyEffect_insertion, stated_insertion]
  by_cases ho : i.HasOwner s
  · rw [if_pos ho]
    by_cases hd : i.Duplicate s
    · left
      rw [run_duplicate ho hd]
      refine ⟨rfl, fun w hw => ?_⟩
      rw [List.mem_singleton.mp hw]
      exact known_iff_duplicate.mpr hd
    · right
      rw [run_new ho hd]
      exact ⟨rfl, fun hk => hd (known_iff_duplicate.mp hk), contents_append s i⟩
  · left
    rw [run_ownerless ho, if_neg ho]
    exact ⟨rfl, by simp⟩

theorem contents_applyEffect {s : Store} (h : s.Valid) (e : Effect) :
    (contents (applyEffect s e) = contents s ∧
      ∀ w ∈ stated s e, w.1 ∈ (contents s).map Prod.fst) ∨
    ∃ w, stated s e = [w] ∧ w.1 ∉ (contents s).map Prod.fst ∧
      (contents (applyEffect s e)).Perm (contents s ++ [w]) := by
  cases e with
  | createObject p n t now =>
    exact Or.inr ⟨_, rfl, unknown_nextObject h, contents_insertObject s p n t now⟩
  | addRelation f o t =>
    exact Or.inr ⟨_, rfl, unknown_nextRelation h, contents_insertRelation s f o t⟩
  | addObjectProperty r =>
    exact (contents_insertion s (.objectProperty r)).imp_right fun h => ⟨_, h⟩
  | addRelationProperty r =>
    exact (contents_insertion s (.relationProperty r)).imp_right fun h => ⟨_, h⟩
  | addPrefix r =>
    exact (contents_insertion s (.bundlePrefix r)).imp_right fun h => ⟨_, h⟩

section Runs

variable {s t : Store}

theorem Keyed.applyEffect (h : Keyed s) (hv : s.Valid) (e : Effect) :
    Keyed (applyEffect s e) := by
  rcases contents_applyEffect hv e with ⟨hsame, -⟩ | ⟨w, -, hnew, hp⟩
  · rw [Keyed, hsame]
    exact h
  · rw [Keyed, (hp.map Prod.fst).nodup_iff, List.map_append, List.map_singleton]
    refine List.nodup_append.mpr ⟨h, List.nodup_singleton _, fun k hk k' hk' he => ?_⟩
    exact hnew (List.mem_singleton.mp hk' ▸ he ▸ hk)

theorem keyed_of_reachable (h : s.Reachable) : Keyed s := by
  have hboth := (reachable_iff_leads.mp h).keeps (I := fun s => s.Reachable ∧ Keyed s)
    (fun s e hs he => ⟨applyEffect_reachable hs.1 he, hs.2.applyEffect hs.1.valid e⟩)
    ⟨.fresh, keyed_fresh⟩
  exact hboth.2

theorem knowledge_applyEffect (hv : s.Valid) (h : Keyed s) (e : Effect) :
    knowledge (applyEffect s e) = putAll (knowledge s) (stated s e) := by
  rcases contents_applyEffect hv e with ⟨hsame, hknown⟩ | ⟨w, hw, hnew, hp⟩
  · rw [knowledge, hsame, ← knowledge, putAll_of_known]
    exact fun w hw => (isSome_table h).mpr (hknown w hw)
  · have hk : Keyed (applyEffect s e) := h.applyEffect hv e
    rw [hw, knowledge, table, putAll_perm _ hp (agree_of_nodup hk), putAll_append]
    rfl

theorem knowledge_run (hs : s.Reachable) {effects : List Effect}
    (h : ∀ e ∈ effects, Licensed e) : knowledge (runTrace applyEffect s effects) =
      putAll (knowledge s) (statedBy s effects) := by
  induction effects generalizing s with
  | nil => rfl
  | cons e effects ih =>
    have hnext := applyEffect_reachable hs (h e List.mem_cons_self)
    have hrest := ih hnext fun x hx => h x (List.mem_cons_of_mem e hx)
    rw [statedBy, putAll_append, ← knowledge_applyEffect hs.valid (keyed_of_reachable hs)]
    exact hrest

theorem Leads.extends (hs : s.Reachable) (h : Leads Licensed s t) :
    Extends (knowledge s) (knowledge t) := by
  obtain ⟨effects, hall, rfl⟩ := h
  rw [knowledge_run hs hall]
  exact extends_putAll _ _

/-- Stores that say the same have the same rows, but for their order. -/
theorem contents_perm (hs : s.Reachable) (ht : t.Reachable) (h : knowledge s = knowledge t) :
    (contents s).Perm (contents t) :=
  perm_of_table_eq (keyed_of_reachable hs) (keyed_of_reachable ht) h

/-- Whatever fails in the calls of any clients, they write facts to a table in which the first
fact of a subject stays, and calls that say nothing new leave the rows as they are. -/
theorem runCalls_writes (hs : s.Reachable) (calls : List (Client × ℕ × ApiCall)) :
    (∃ effects, (∀ e ∈ effects, Licensed e) ∧
      knowledge (runCalls s calls) = putAll (knowledge s) (statedBy s effects)) ∧
    Extends (knowledge s) (knowledge (runCalls s calls)) ∧
    (knowledge (runCalls s calls) = knowledge s →
      (contents (runCalls s calls)).Perm (contents s)) := by
  have hleads := runCalls_leads s calls
  refine ⟨?_, Leads.extends hs hleads, contents_perm (hleads.reachable hs) hs⟩
  obtain ⟨effects, hall, he⟩ := hleads
  exact ⟨effects, hall, he ▸ knowledge_run hs hall⟩

theorem runCalls_writes_fresh :
    Extends (knowledge Store.fresh) (knowledge (runCalls Store.fresh
      [(⟨fun _ => none, fun _ => "", .ideal, ⟨0, false⟩⟩, 0,
        .add (.createObject (some "") (some "e") 1)),
        (⟨fun _ => none, fun _ => "", .ideal, ⟨0, false⟩⟩, 1,
          .add (.addObjectBooleanProperty 1 (some "ex") (some "k") true))])) :=
  (runCalls_writes .fresh _).2.1

end Runs

end StoreKnowledge
