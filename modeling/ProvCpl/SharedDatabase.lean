import ProvCpl.ApiEffects
import ProvCpl.ClientPrograms
import ProvCpl.ImportSimulation

/-! # A database that clients share

What a statement adds belongs to the client whose statement it was: new rows to the client that
is told their id, properties and prefixes to the client that was handed their owner. The part of
one client changes with its own statements as a database of its own does, and with no others. -/
namespace SharedDatabase

open CplTypes ProvStore ProvServer ServerSpecs ImportDocument StoreHistory ApiEffects InsertOnce
open PropertyWrites ClientPrograms TakingTurns EarlyExit EventTrace
open Function (update)

/-! ## What a request does -/

def propertyText : PropertyValue → Option String
  | .string v => v
  | .numerical x => some (FloatText.toText x)
  | .boolean b => some (FloatText.boolText b)

def propertyType : PropertyValue → ℤ
  | .string _ => stringProperty
  | .numerical _ => numericalProperty
  | .boolean _ => booleanProperty

def propertyEffect : Owner → PropertyRow → Effect
  | .object, r => .addObjectProperty r
  | .relation, r => .addRelationProperty r

/-- The statement of a request that the front end lets through. -/
def effectOf (now : ℕ) : Request → Option Effect
  | .createObject (some p) (some n) type =>
    if EnsureOType type then some (.createObject p n type now) else none
  | .addRelation f o type =>
    if f = 0 ∨ o = 0 ∨ ¬ EnsureRType type then none else some (.addRelation f o type)
  | .addProperty owner id (some p) (some k) v =>
    if id = 0 then none
    else (propertyText v).map fun t => propertyEffect owner ⟨id, p, k, t, propertyType v⟩
  | .addPrefix id (some p) (some i) => if id = 0 then none else some (.addPrefix ⟨id, p, i⟩)
  | _ => none

def replyTo (s : Store) : Effect → Answer
  | .createObject _ _ _ _ => (.objectCreated, some s.nextObject)
  | .addRelation _ _ _ => (.ok, some s.nextRelation)
  | .addObjectProperty r | .addPrefix r =>
    (if r.id ∈ s.objects.map (·.id) then .ok else .statementError, none)
  | .addRelationProperty r =>
    (if r.id ∈ s.relations.map (·.id) then .ok else .statementError, none)

def addProperty (srv : Server) (owner : Owner) (id : ℕ) (p k v : Option String) (type : ℤ) :
    Call World ReturnCode :=
  match owner with
  | .object => srv.addProperty srv.cplOdbcAddObjectProperty id p k v type
  | .relation => srv.addProperty srv.cplOdbcAddRelationProperty id p k v type

def Adds (srv : Server) (q : Request) (w : World) (e : Option Effect) : Prop :=
  (answer srv q w).1 = e.elim (.invalidArgument, none) (replyTo w.store) ∧
    (answer srv q w).2.store = (e.map (applyEffect w.store)).getD w.store

section Requests

variable {srv : Server} (hsrv : Reliable srv)

theorem adds_refused {q : Request} {w : World}
    (h : answer srv q w = ((.invalidArgument, none), w)) :
    Adds srv q w none := by
  simp [Adds, h]

include hsrv

theorem adds_createObject (p n : Option String) (type : ℤ) (w : World) :
    Adds srv (.createObject p n type) w
      (effectOf (srv.clock w.calls) (.createObject p n type)) := by
  have hrun : answer srv (.createObject p n type) w =
      cplCreateObject srv.cplOdbcCreateObject p n type w := by
    simp [answer, Server.createObject, Server.ensureInitialized, hsrv.attached]
  cases p with
  | none => exact adds_refused hrun
  | some p =>
    cases n with
    | none => exact adds_refused hrun
    | some n =>
      by_cases ht : EnsureOType type
      · simp [Adds, answer, effectOf, ht, createObject_reliable hsrv p n ht, replyTo, applyEffect]
      · rw [effectOf, if_neg ht]
        exact adds_refused (hrun.trans (by simp [cplCreateObject, ht]))

theorem adds_addRelation (f o : ℕ) (type : ℤ) (w : World) :
    Adds srv (.addRelation f o type) w
      (effectOf (srv.clock w.calls) (.addRelation f o type)) := by
  by_cases h : f = 0 ∨ o = 0 ∨ ¬ EnsureRType type
  · rw [effectOf, if_pos h]
    refine adds_refused ?_
    simp [answer, Server.addRelation, Server.ensureInitialized, hsrv.attached, cplAddRelation,
      cplNone, h]
  · obtain ⟨hf, ho, ht⟩ : f ≠ 0 ∧ o ≠ 0 ∧ EnsureRType type := by
      simpa only [not_or, not_not] using h
    simp [Adds, answer, effectOf, hf, ho, ht, addRelation_reliable hsrv hf ho ht, replyTo,
      applyEffect]

theorem addObjectProperty_run (id : ℕ) (p k v : String) (type : ℤ) (w : World) :
    srv.cplOdbcAddObjectProperty id p k v type w =
      (if id ∈ w.store.objects.map (·.id) then .ok else .statementError,
        ⟨(w.store.insertObjectProperty ⟨id, p, k, v, type⟩).getD w.store, w.calls + 1⟩) := by
  simp only [Server.cplOdbcAddObjectProperty, codeOnly, execute_reliable hsrv,
    Store.insertObjectProperty]
  by_cases h : id ∈ w.store.objects.map (·.id)
  · simp only [if_pos h, Option.map_some, Option.getD_some]
  · simp only [if_neg h, Option.map_none, Option.getD_none]

theorem addRelationProperty_run (id : ℕ) (p k v : String) (type : ℤ) (w : World) :
    srv.cplOdbcAddRelationProperty id p k v type w =
      (if id ∈ w.store.relations.map (·.id) then .ok else .statementError,
        ⟨(w.store.insertRelationProperty ⟨id, p, k, v, type⟩).getD w.store, w.calls + 1⟩) := by
  simp only [Server.cplOdbcAddRelationProperty, codeOnly, execute_reliable hsrv,
    Store.insertRelationProperty]
  by_cases h : id ∈ w.store.relations.map (·.id)
  · simp only [if_pos h, Option.map_some, Option.getD_some]
  · simp only [if_neg h, Option.map_none, Option.getD_none]

omit hsrv in
theorem answer_addProperty (owner : Owner) (id : ℕ) (p k : Option String) (v : PropertyValue) :
    answer srv (.addProperty owner id p k v) =
      withoutId (addProperty srv owner id p k (propertyText v) (propertyType v)) := by
  cases owner <;> cases v <;> rfl

theorem addProperty_refused (owner : Owner) {id : ℕ} {p k v : Option String} (type : ℤ) (w : World)
    (h : p = none ∨ k = none ∨ v = none ∨ id = 0) :
    addProperty srv owner id p k v type w = (.invalidArgument, w) := by
  cases owner <;> cases p <;> cases k <;> cases v <;>
    simp_all [addProperty, Server.addProperty, Server.ensureInitialized, hsrv.attached, cplNone]

theorem adds_addProperty (owner : Owner) (id : ℕ) (p k : Option String) (v : PropertyValue)
    (w : World) : Adds srv (.addProperty owner id p k v) w
      (effectOf (srv.clock w.calls) (.addProperty owner id p k v)) := by
  have hrefused : p = none ∨ k = none ∨ propertyText v = none ∨ id = 0 →
      Adds srv (.addProperty owner id p k v) w none := fun h => adds_refused (by
    rw [answer_addProperty, withoutId, addProperty_refused hsrv owner _ w h]
    rfl)
  cases p with
  | none => exact hrefused (Or.inl rfl)
  | some p =>
    cases k with
    | none => exact hrefused (Or.inr (Or.inl rfl))
    | some k =>
      by_cases h0 : id = 0
      · rw [effectOf, if_pos h0]
        exact hrefused (Or.inr (Or.inr (Or.inr h0)))
      · rw [effectOf, if_neg h0]
        cases hv : propertyText v with
        | none => exact hrefused (Or.inr (Or.inr (Or.inl hv)))
        | some t =>
          cases owner with
          | object =>
            simp [Adds, answer_addProperty, withoutId, addProperty, Server.addProperty,
              Server.ensureInitialized, hsrv.attached, noId, hv, h0, cplNone,
              addObjectProperty_run hsrv, propertyEffect, replyTo, applyEffect]
          | relation =>
            simp [Adds, answer_addProperty, withoutId, addProperty, Server.addProperty,
              Server.ensureInitialized, hsrv.attached, noId, hv, h0, cplNone,
              addRelationProperty_run hsrv, propertyEffect, replyTo, applyEffect]

theorem adds_addPrefix (id : ℕ) (p i : Option String) (w : World) :
    Adds srv (.addPrefix id p i) w (effectOf (srv.clock w.calls) (.addPrefix id p i)) := by
  have hrefused : p = none ∨ i = none ∨ id = 0 → Adds srv (.addPrefix id p i) w none := by
    intro h
    refine adds_refused ?_
    cases p <;> cases i <;> simp_all [answer, withoutId, Server.addPrefix,
      Server.ensureInitialized, hsrv.attached, noId, cplNone]
  cases p with
  | none => exact hrefused (Or.inl rfl)
  | some p =>
    cases i with
    | none => exact hrefused (Or.inr (Or.inl rfl))
    | some i =>
      by_cases h0 : id = 0
      · rw [effectOf, if_pos h0]
        exact hrefused (Or.inr (Or.inr h0))
      · simp [Adds, answer, withoutId, effectOf, h0, addPrefix_run hsrv h0, noId, replyTo,
          applyEffect]

theorem adds_of_same {O R : ℕ → ℕ → Prop} {q q' : Request} (h : SameRequest O R q q') (w : World) :
    Adds srv q w (effectOf (srv.clock w.calls) q) ∧
      Adds srv q' w (effectOf (srv.clock w.calls) q') := by
  cases h with
  | createObject p n type =>
    exact ⟨adds_createObject hsrv p n type w, adds_createObject hsrv p n type w⟩
  | addRelation type hf ho =>
    exact ⟨adds_addRelation hsrv _ _ type w, adds_addRelation hsrv _ _ type w⟩
  | addProperty owner p k v hid =>
    exact ⟨adds_addProperty hsrv owner _ p k v w, adds_addProperty hsrv owner _ p k v w⟩
  | addPrefix p i hid => exact ⟨adds_addPrefix hsrv _ p i w, adds_addPrefix hsrv _ p i w⟩

end Requests

/-! ## The ids a client was handed -/

/-- The id that a client gets alone, and the one that it was handed in its place. -/
def Stands (first : ℕ) (ids : List ℕ) (i j : ℕ) : Prop := ∃ k, ids[k]? = some j ∧ i = first + k

section Stands

variable {first i i' j j' : ℕ} {ids : List ℕ}

theorem Stands.mono (h : Stands first ids i j) (x : ℕ) : Stands first (ids ++ [x]) i j := by
  obtain ⟨k, hk, rfl⟩ := h
  refine ⟨k, ?_, rfl⟩
  rw [List.getElem?_append_left (List.getElem?_eq_some_iff.mp hk).1, hk]

theorem stands_new (first x : ℕ) (ids : List ℕ) :
    Stands first (ids ++ [x]) (first + ids.length) x :=
  ⟨ids.length, by simp, rfl⟩

theorem Stands.mem (h : Stands first ids i j) : j ∈ ids := by
  obtain ⟨k, hk, rfl⟩ := h
  exact List.mem_of_getElem? hk

theorem Stands.le (h : Stands first ids i j) : first ≤ i := by
  obtain ⟨k, -, rfl⟩ := h
  exact Nat.le_add_right first k

theorem Stands.inj (h : Stands first ids i j) (h' : Stands first ids i' j') (hn : ids.Nodup) :
    i = i' ↔ j = j' := by
  obtain ⟨k, hk, rfl⟩ := h
  obtain ⟨k', hk', rfl⟩ := h'
  constructor
  · intro he
    obtain rfl : k = k' := Nat.add_left_cancel he
    exact Option.some.inj (hk.symm.trans hk')
  · rintro rfl
    obtain ⟨hlt, hget⟩ := List.getElem?_eq_some_iff.mp hk
    obtain ⟨hlt', hget'⟩ := List.getElem?_eq_some_iff.mp hk'
    rw [(List.Nodup.getElem_inj_iff hn).mp (hget.trans hget'.symm)]

end Stands

structure Handed where
  objects : List ℕ
  relations : List ℕ

def Handed.after (h : Handed) (s : Store) : Effect → Handed
  | .createObject _ _ _ _ => { h with objects := h.objects ++ [s.nextObject] }
  | .addRelation _ _ _ => { h with relations := h.relations ++ [s.nextRelation] }
  | _ => h

inductive SameEffect (O R : ℕ → ℕ → Prop) : Effect → Effect → Prop where
  | createObject (p n : String) (type : ℤ) (now now' : ℕ) :
      SameEffect O R (.createObject p n type now) (.createObject p n type now')
  | addRelation {f f' o o' : ℕ} (type : ℤ) : O f f' → destination O R type o o' →
      SameEffect O R (.addRelation f o type) (.addRelation f' o' type)
  | addObjectProperty {id id' : ℕ} (p k v : String) (type : ℤ) : O id id' →
      SameEffect O R (.addObjectProperty ⟨id, p, k, v, type⟩)
        (.addObjectProperty ⟨id', p, k, v, type⟩)
  | addRelationProperty {id id' : ℕ} (p k v : String) (type : ℤ) : R id id' →
      SameEffect O R (.addRelationProperty ⟨id, p, k, v, type⟩)
        (.addRelationProperty ⟨id', p, k, v, type⟩)
  | addPrefix {id id' : ℕ} (p i : String) : O id id' →
      SameEffect O R (.addPrefix ⟨id, p, i⟩) (.addPrefix ⟨id', p, i⟩)

/-- The front end decides alike where no name is the reserved one. -/
theorem effectOf_same {O R : ℕ → ℕ → Prop} {q q' : Request} (h : SameRequest O R q q')
    (hO : ∀ i j, O i j → i ≠ 0 ∧ j ≠ 0) (hR : ∀ i j, R i j → i ≠ 0 ∧ j ≠ 0) (now now' : ℕ) :
    Option.Rel (SameEffect O R) (effectOf now q) (effectOf now' q') := by
  cases h with
  | createObject p n type =>
    cases p with
    | none => exact .none
    | some p =>
      cases n with
      | none => exact .none
      | some n =>
        by_cases ht : EnsureOType type
        · rw [effectOf, effectOf, if_pos ht, if_pos ht]
          exact .some (.createObject p n type now now')
        · rw [effectOf, effectOf, if_neg ht, if_neg ht]
          exact .none
  | @addRelation f f' o o' type hf ho =>
    have hdest : o ≠ 0 ∧ o' ≠ 0 := by
      unfold destination at ho
      split at ho
      · exact hR o o' ho
      · exact hO o o' ho
    have hsource := hO f f' hf
    by_cases ht : EnsureRType type
    · rw [effectOf, effectOf, if_neg (by simp [hsource.1, hdest.1, ht]),
        if_neg (by simp [hsource.2, hdest.2, ht])]
      exact .some (.addRelation type hf ho)
    · rw [effectOf, effectOf, if_pos (Or.inr (Or.inr ht)), if_pos (Or.inr (Or.inr ht))]
      exact .none
  | @addProperty id id' owner p k v hid =>
    cases p with
    | none => exact .none
    | some p =>
      cases k with
      | none => exact .none
      | some k =>
        have hne : id ≠ 0 ∧ id' ≠ 0 := by
          cases owner with
          | object => exact hO id id' hid
          | relation => exact hR id id' hid
        rw [effectOf, effectOf, if_neg hne.1, if_neg hne.2]
        cases propertyText v with
        | none => exact .none
        | some t =>
          cases owner with
          | object => exact .some (.addObjectProperty p k t _ hid)
          | relation => exact .some (.addRelationProperty p k t _ hid)
  | @addPrefix id id' p i hid =>
    cases p with
    | none => exact .none
    | some p =>
      cases i with
      | none => exact .none
      | some i =>
        rw [effectOf, effectOf, if_neg (hO id id' hid).1, if_neg (hO id id' hid).2]
        exact .some (.addPrefix p i hid)

/-! ## The part of the database that is a client's -/

structure ObjectAlike (O : ℕ → ℕ → Prop) (r r' : ObjectRow) : Prop where
  id : O r.id r'.id
  nsPrefix : r'.nsPrefix = r.nsPrefix
  name : r'.name = r.name
  type : r'.type = r.type

structure RelationAlike (O R : ℕ → ℕ → Prop) (r r' : RelationRow) : Prop where
  id : R r.id r'.id
  source : Option.Rel O r.fromId r'.fromId
  dest : Option.Rel (if r.type = some bundleRelation then R else O) r.toId r'.toId
  type : r'.type = r.type

structure PropertyAlike (N : ℕ → ℕ → Prop) (r r' : PropertyRow) : Prop where
  id : N r.id r'.id
  row : r' = { r with id := r'.id }

structure PrefixAlike (O : ℕ → ℕ → Prop) (r r' : PrefixRow) : Prop where
  id : O r.id r'.id
  row : r' = { r with id := r'.id }

abbrev Handed.objectNames (h : Handed) (s₀ : Store) : ℕ → ℕ → Prop :=
  Stands s₀.nextObject h.objects

abbrev Handed.relationNames (h : Handed) (s₀ : Store) : ℕ → ℕ → Prop :=
  Stands s₀.nextRelation h.relations

/-- Alone the client has turned `s₀` into `t₀`; what `t` has under the ids that it was handed,
none of which was in use in `s`, are the same rows. -/
structure Part (s₀ t₀ s t : Store) (h : Handed) : Prop where
  nextObject : t₀.nextObject = s₀.nextObject + h.objects.length
  nextRelation : t₀.nextRelation = s₀.nextRelation + h.relations.length
  objectIds : h.objects.Nodup
  relationIds : h.relations.Nodup
  storedObjects : ∀ i ∈ h.objects, s.nextObject ≤ i ∧ i ∈ t.objects.map (·.id)
  storedRelations : ∀ i ∈ h.relations, s.nextRelation ≤ i ∧ i ∈ t.relations.map (·.id)
  objects : Portion (ObjectAlike (h.objectNames s₀)) h.objects (·.id) s₀.objects t₀.objects
    t.objects
  relations : Portion (RelationAlike (h.objectNames s₀) (h.relationNames s₀)) h.relations (·.id)
    s₀.relations t₀.relations t.relations
  objectProperties : Portion (PropertyAlike (h.objectNames s₀)) h.objects (·.id)
    s₀.objectProperties t₀.objectProperties t.objectProperties
  relationProperties : Portion (PropertyAlike (h.relationNames s₀)) h.relations (·.id)
    s₀.relationProperties t₀.relationProperties t.relationProperties
  prefixes : Portion (PrefixAlike (h.objectNames s₀)) h.objects (·.id) s₀.prefixes t₀.prefixes
    t.prefixes

section Parts

variable {s₀ t₀ s t : Store} {h : Handed}

theorem ObjectAlike.mono {O O' : ℕ → ℕ → Prop} (hO : ∀ i j, O i j → O' i j) {r r' : ObjectRow}
    (hr : ObjectAlike O r r') : ObjectAlike O' r r' :=
  { hr with id := hO _ _ hr.id }

theorem rel_mono {N N' : ℕ → ℕ → Prop} (hN : ∀ i j, N i j → N' i j) {i i' : Option ℕ}
    (hi : Option.Rel N i i') : Option.Rel N' i i' := by
  cases hi with
  | none => exact .none
  | some hi => exact .some (hN _ _ hi)

theorem RelationAlike.mono {O O' R R' : ℕ → ℕ → Prop} (hO : ∀ i j, O i j → O' i j)
    (hR : ∀ i j, R i j → R' i j) {r r' : RelationRow} (hr : RelationAlike O R r r') :
    RelationAlike O' R' r r' where
  id := hR _ _ hr.id
  source := rel_mono hO hr.source
  dest := by
    have hdest := hr.dest
    split at hdest
    · rw [if_pos ‹_›]
      exact rel_mono hR hdest
    · rw [if_neg ‹_›]
      exact rel_mono hO hdest
  type := hr.type

theorem PropertyAlike.mono {N N' : ℕ → ℕ → Prop} (hN : ∀ i j, N i j → N' i j)
    {r r' : PropertyRow} (hr : PropertyAlike N r r') : PropertyAlike N' r r' :=
  ⟨hN _ _ hr.id, hr.row⟩

theorem PrefixAlike.mono {O O' : ℕ → ℕ → Prop} (hO : ∀ i j, O i j → O' i j) {r r' : PrefixRow}
    (hr : PrefixAlike O r r') : PrefixAlike O' r r' :=
  ⟨hO _ _ hr.id, hr.row⟩

theorem id_ne_nextObject (ht : t.Valid) {i : ℕ} (hi : i ∈ t.objects.map (·.id)) :
    i ≠ t.nextObject := Nat.ne_of_lt (ImportSimulation.stored_object_lt ht hi)

theorem id_ne_nextRelation (ht : t.Valid) {i : ℕ} (hi : i ∈ t.relations.map (·.id)) :
    i ≠ t.nextRelation := Nat.ne_of_lt (ImportSimulation.stored_relation_lt ht hi)

theorem nodup_concat {l : List ℕ} {x : ℕ} (hn : l.Nodup) (hx : ∀ i ∈ l, i ≠ x) :
    (l ++ [x]).Nodup := by
  rw [← List.concat_eq_append, List.nodup_concat]
  exact ⟨fun hm => hx x hm rfl, hn⟩

theorem Part.createObject (ht : t.Valid) (hs : s.nextObject ≤ t.nextObject)
    (hp : Part s₀ t₀ s t h) (p n : String) (type : ℤ) (now now' : ℕ) :
    Part s₀ (t₀.insertObject p n type now) s (t.insertObject p n type now')
      { h with objects := h.objects ++ [t.nextObject] } := by
  have hmono : ∀ i j, h.objectNames s₀ i j →
      Stands s₀.nextObject (h.objects ++ [t.nextObject]) i j := fun _ _ hij => hij.mono _
  refine { hp with
    nextObject := ?_
    objectIds := nodup_concat hp.objectIds fun i hi => id_ne_nextObject ht (hp.storedObjects i hi).2
    storedObjects := ?_
    objects := ?_
    relations := hp.relations.mono fun _ _ hr => hr.mono hmono fun _ _ hij => hij
    objectProperties := ?_
    prefixes := ?_ }
  · simp [Store.insertObject, hp.nextObject]
    omega
  · intro i hi
    rcases List.mem_append.mp hi with hi | hi
    · exact ⟨(hp.storedObjects i hi).1, by
        simpa [Store.insertObject] using Or.inl (by simpa using (hp.storedObjects i hi).2)⟩
    · obtain rfl := List.mem_singleton.mp hi
      exact ⟨hs, by simp [Store.insertObject]⟩
  · refine Portion.append (hp.objects.widen (fun r hr => ?_) fun _ _ hr => hr.mono hmono) ?_ ?_
    · exact id_ne_nextObject ht (List.mem_map_of_mem hr)
    · exact ⟨hp.nextObject ▸ stands_new _ _ _, rfl, rfl, rfl⟩
    · simp
  · refine hp.objectProperties.widen (fun r hr => ?_) fun _ _ hr => hr.mono hmono
    exact id_ne_nextObject ht (ht.objectProperty_owner r hr)
  · refine hp.prefixes.widen (fun r hr => ?_) fun _ _ hr => hr.mono hmono
    exact id_ne_nextObject ht (ht.prefix_owner r hr)

theorem Part.addRelation (ht : t.Valid) (hs : s.nextRelation ≤ t.nextRelation)
    (hp : Part s₀ t₀ s t h) {f f' o o' : ℕ} (type : ℤ) (hf : h.objectNames s₀ f f')
    (ho : destination (h.objectNames s₀) (h.relationNames s₀) type o o') :
    Part s₀ (t₀.insertRelation f o type) s (t.insertRelation f' o' type)
      { h with relations := h.relations ++ [t.nextRelation] } := by
  have hmono : ∀ i j, h.relationNames s₀ i j →
      Stands s₀.nextRelation (h.relations ++ [t.nextRelation]) i j := fun _ _ hij => hij.mono _
  refine { hp with
    nextRelation := ?_
    relationIds := nodup_concat hp.relationIds fun i hi =>
      id_ne_nextRelation ht (hp.storedRelations i hi).2
    storedRelations := ?_
    relations := ?_
    relationProperties := ?_ }
  · simp [Store.insertRelation, hp.nextRelation]
    omega
  · intro i hi
    rcases List.mem_append.mp hi with hi | hi
    · exact ⟨(hp.storedRelations i hi).1, by
        simpa [Store.insertRelation] using Or.inl (by simpa using (hp.storedRelations i hi).2)⟩
    · obtain rfl := List.mem_singleton.mp hi
      exact ⟨hs, by simp [Store.insertRelation]⟩
  · refine Portion.append (hp.relations.widen (fun r hr => ?_) fun _ _ hr =>
      hr.mono (fun _ _ hij => hij) hmono) ?_ ?_
    · exact id_ne_nextRelation ht (List.mem_map_of_mem hr)
    · refine ⟨hp.nextRelation ▸ stands_new _ _ _, .some hf, .some ?_, rfl⟩
      by_cases hty : type = bundleRelation
      · rw [destination, if_pos hty] at ho
        rw [if_pos (congrArg some hty)]
        exact hmono _ _ ho
      · rw [destination, if_neg hty] at ho
        rwa [if_neg fun he => hty (Option.some.inj he)]
    · simp
  · refine hp.relationProperties.widen (fun r hr => ?_) fun _ _ hr => hr.mono hmono
    exact id_ne_nextRelation ht (ht.relationProperty_owner r hr)

theorem Part.stored_object (hp : Part s₀ t₀ s t h) {i j : ℕ} (hij : h.objectNames s₀ i j) :
    i ∈ t₀.objects.map (·.id) := by
  obtain ⟨r', hr', rfl⟩ := List.mem_map.mp (hp.storedObjects j hij.mem).2
  obtain ⟨r, hr, hrel⟩ := hp.objects.exists_of_mem hr' hij.mem
  exact (hrel.id.inj hij hp.objectIds).mpr rfl ▸ List.mem_map_of_mem hr

theorem Part.stored_relation (hp : Part s₀ t₀ s t h) {i j : ℕ} (hij : h.relationNames s₀ i j) :
    i ∈ t₀.relations.map (·.id) := by
  obtain ⟨r', hr', rfl⟩ := List.mem_map.mp (hp.storedRelations j hij.mem).2
  obtain ⟨r, hr, hrel⟩ := hp.relations.exists_of_mem hr' hij.mem
  exact (hrel.id.inj hij hp.relationIds).mpr rfl ▸ List.mem_map_of_mem hr

theorem portion_insertProperty {first : ℕ} {ids : List ℕ} {base alone shared : List PropertyRow}
    (hp : Portion (PropertyAlike (Stands first ids)) ids (·.id) base alone shared)
    (hn : ids.Nodup) (hbase : ∀ q ∈ base, q.id < first) {i j : ℕ} (hij : Stands first ids i j)
    (p k v : String) (type : ℤ) :
    Portion (PropertyAlike (Stands first ids)) ids (·.id) base
      (insertOnce SameKey alone ⟨i, p, k, v, type⟩)
      (insertOnce SameKey shared ⟨j, p, k, v, type⟩) := by
  refine hp.insertOnce ⟨hij, rfl⟩ hij.mem (fun q hq => hq.1) (fun q hq hs => ?_) ?_
  · have hlt := hbase q hq
    have hle := hij.le
    have heq : q.id = i := hs.1
    omega
  · intro q q' hq
    have hiff : q.id = i ↔ q'.id = j := hq.id.inj hij hn
    rw [hq.row]
    exact and_congr_left fun _ => hiff

theorem Part.addObjectProperty (hs₀ : s₀.Valid) (hp : Part s₀ t₀ s t h) {i j : ℕ}
    (hij : h.objectNames s₀ i j) (p k v : String) (type : ℤ) :
    Part s₀ (applyEffect t₀ (.addObjectProperty ⟨i, p, k, v, type⟩)) s
      (applyEffect t (.addObjectProperty ⟨j, p, k, v, type⟩)) h := by
  rw [applyEffect, applyEffect, Store.insertObjectProperty, Store.insertObjectProperty,
    if_pos (hp.stored_object hij), if_pos (hp.storedObjects j hij.mem).2]
  exact { hp with
    objectProperties := portion_insertProperty hp.objectProperties hp.objectIds
      (fun q hq => ImportSimulation.stored_object_lt hs₀ (hs₀.objectProperty_owner q hq)) hij
      p k v type }

theorem Part.addRelationProperty (hs₀ : s₀.Valid) (hp : Part s₀ t₀ s t h) {i j : ℕ}
    (hij : h.relationNames s₀ i j) (p k v : String) (type : ℤ) :
    Part s₀ (applyEffect t₀ (.addRelationProperty ⟨i, p, k, v, type⟩)) s
      (applyEffect t (.addRelationProperty ⟨j, p, k, v, type⟩)) h := by
  rw [applyEffect, applyEffect, Store.insertRelationProperty, Store.insertRelationProperty,
    if_pos (hp.stored_relation hij), if_pos (hp.storedRelations j hij.mem).2]
  exact { hp with
    relationProperties := portion_insertProperty hp.relationProperties hp.relationIds
      (fun q hq => ImportSimulation.stored_relation_lt hs₀ (hs₀.relationProperty_owner q hq)) hij
      p k v type }

theorem Part.addPrefix (hs₀ : s₀.Valid) (hp : Part s₀ t₀ s t h) {i j : ℕ}
    (hij : h.objectNames s₀ i j) (p iri : String) :
    Part s₀ (applyEffect t₀ (.addPrefix ⟨i, p, iri⟩)) s
      (applyEffect t (.addPrefix ⟨j, p, iri⟩)) h := by
  rw [applyEffect, applyEffect, Store.insertPrefix, Store.insertPrefix,
    if_pos (hp.stored_object hij), if_pos (hp.storedObjects j hij.mem).2]
  refine { hp with prefixes := ?_ }
  simp only [Option.getD_some]
  refine hp.prefixes.insertOnce ⟨hij, rfl⟩ hij.mem (fun q hq => hq.1) (fun q hq hs => ?_) ?_
  · have hlt := ImportSimulation.stored_object_lt hs₀ (hs₀.prefix_owner q hq)
    have hle := hij.le
    have heq : q.id = i := hs.1
    omega
  · intro q q' hq
    have hiff : q.id = i ↔ q'.id = j := hq.id.inj hij hp.objectIds
    rw [hq.row]
    exact and_congr_left fun _ => hiff

theorem Part.step (hs₀ : s₀.Valid) (ht : t.Valid) (ho : s.nextObject ≤ t.nextObject)
    (hr : s.nextRelation ≤ t.nextRelation) (hp : Part s₀ t₀ s t h) {e e' : Effect}
    (he : SameEffect (h.objectNames s₀) (h.relationNames s₀) e e') :
    Part s₀ (applyEffect t₀ e) s (applyEffect t e') (h.after t e') := by
  cases he with
  | createObject p n type now now' => exact hp.createObject ht ho p n type now now'
  | addRelation type hf hd => exact hp.addRelation ht hr type hf hd
  | addObjectProperty p k v type hij => exact hp.addObjectProperty hs₀ hij p k v type
  | addRelationProperty p k v type hij => exact hp.addRelationProperty hs₀ hij p k v type
  | addPrefix p i hij => exact hp.addPrefix hs₀ hij p i

def Spares (h : Handed) : Effect → Prop
  | .addObjectProperty r => r.id ∉ h.objects
  | .addRelationProperty r => r.id ∉ h.relations
  | .addPrefix r => r.id ∉ h.objects
  | _ => True

theorem mem_ids_of_prefix {β : Type} {l l' : List β} (h : l <+: l') {id : β → ℕ} {i : ℕ}
    (hi : i ∈ l.map id) : i ∈ l'.map id :=
  (h.map id).subset hi

theorem Part.others (ht : t.Valid) (hp : Part s₀ t₀ s t h) {e : Effect} (he : Spares h e) :
    Part s₀ t₀ s (applyEffect t e) h := by
  have hgrows := applyEffect_grows t e
  have hstored : (∀ i ∈ h.objects, s.nextObject ≤ i ∧ i ∈ (applyEffect t e).objects.map (·.id)) ∧
      ∀ i ∈ h.relations, s.nextRelation ≤ i ∧ i ∈ (applyEffect t e).relations.map (·.id) :=
    ⟨fun i hi => ⟨(hp.storedObjects i hi).1,
      mem_ids_of_prefix hgrows.objects (hp.storedObjects i hi).2⟩,
    fun i hi => ⟨(hp.storedRelations i hi).1,
      mem_ids_of_prefix hgrows.relations (hp.storedRelations i hi).2⟩⟩
  cases e with
  | createObject p n type now =>
    refine { hp with storedObjects := hstored.1, objects := hp.objects.others fun hi => ?_ }
    exact id_ne_nextObject ht (hp.storedObjects _ hi).2 rfl
  | addRelation f o type =>
    refine { hp with storedRelations := hstored.2, relations := hp.relations.others fun hi => ?_ }
    exact id_ne_nextRelation ht (hp.storedRelations _ hi).2 rfl
  | addObjectProperty r =>
    simp only [applyEffect]
    cases hins : t.insertObjectProperty r with
    | none => exact hp
    | some u =>
      obtain ⟨-, rfl⟩ := insertObjectProperty_eq hins
      exact { hp with objectProperties := hp.objectProperties.insertOnce_others he }
  | addRelationProperty r =>
    simp only [applyEffect]
    cases hins : t.insertRelationProperty r with
    | none => exact hp
    | some u =>
      obtain ⟨-, rfl⟩ := insertRelationProperty_eq hins
      exact { hp with relationProperties := hp.relationProperties.insertOnce_others he }
  | addPrefix r =>
    simp only [applyEffect]
    cases hins : t.insertPrefix r with
    | none => exact hp
    | some u =>
      obtain ⟨-, rfl⟩ := insertPrefix_eq hins
      refine { hp with prefixes := ?_ }
      rw [Option.getD_some]
      exact hp.prefixes.insertOnce_others he

theorem part_start (s₀ s : Store) : Part s₀ s₀ s s ⟨[], []⟩ where
  nextObject := rfl
  nextRelation := rfl
  objectIds := List.nodup_nil
  relationIds := List.nodup_nil
  storedObjects := by simp
  storedRelations := by simp
  objects := portion_nil
  relations := portion_nil
  objectProperties := portion_nil
  relationProperties := portion_nil
  prefixes := portion_nil

end Parts

/-! ## The whole database -/

variable {ι : Type}

def Distinct (own : ι → List ℕ) : Prop := ∀ i j, i ≠ j → ∀ x ∈ own i, x ∉ own j

def Covered {β : Type} (own : ι → List ℕ) (id : β → ℕ) (base rows : List β) : Prop :=
  ∀ r ∈ rows, r ∈ base ∨ ∃ i, id r ∈ own i

/-- Whatever `t` holds beyond `s` belongs to one of the clients, and no id to two of them. -/
structure Apart (s t : Store) (os rs : ι → List ℕ) : Prop where
  objectIds : Distinct os
  relationIds : Distinct rs
  grows : Grows s t
  nextObject : s.nextObject ≤ t.nextObject
  nextRelation : s.nextRelation ≤ t.nextRelation
  objects : Covered os (·.id) s.objects t.objects
  relations : Covered rs (·.id) s.relations t.relations
  objectProperties : Covered os (·.id) s.objectProperties t.objectProperties
  relationProperties : Covered rs (·.id) s.relationProperties t.relationProperties
  prefixes : Covered os (·.id) s.prefixes t.prefixes

section Whole

variable {s t : Store} {own os rs : ι → List ℕ}

section Tables

variable {β : Type} {id : β → ℕ} {base rows : List β}

theorem Covered.mono {own' : ι → List ℕ} (h : Covered own id base rows)
    (hown : ∀ i, ∀ x ∈ own i, x ∈ own' i) : Covered own' id base rows := by
  intro r hr
  exact (h r hr).imp_right fun ⟨i, hi⟩ => ⟨i, hown i _ hi⟩

theorem Covered.append (h : Covered own id base rows) {r : β} {i : ι} (hr : id r ∈ own i) :
    Covered own id base (rows ++ [r]) := by
  intro q hq
  rcases List.mem_append.mp hq with hq | hq
  · exact h q hq
  · exact Or.inr ⟨i, List.mem_singleton.mp hq ▸ hr⟩

theorem Covered.insertOnce {same : β → β → Prop} [DecidableRel same]
    (h : Covered own id base rows) {r : β} {i : ι} (hr : id r ∈ own i) :
    Covered own id base (InsertOnce.insertOnce same rows r) := by
  unfold InsertOnce.insertOnce
  split
  · exact h
  · exact h.append hr

end Tables

variable [DecidableEq ι]

def handOver (own : ι → List ℕ) (i : ι) (x : ℕ) : ι → List ℕ := update own i (own i ++ [x])

theorem mem_handOver {i j : ι} {x y : ℕ} :
    y ∈ handOver own i x j ↔ y ∈ own j ∨ (j = i ∧ y = x) := by
  by_cases hj : j = i
  · subst hj
    simp [handOver]
  · simp [handOver, hj]

theorem Distinct.handOver (h : Distinct own) (i : ι) {x : ℕ} (hx : ∀ j, x ∉ own j) :
    Distinct (handOver own i x) := by
  intro j k hjk y hy hy'
  rcases mem_handOver.mp hy with hy | ⟨hj, hyx⟩
  · rcases mem_handOver.mp hy' with hy' | ⟨-, hyx⟩
    · exact h j k hjk y hy hy'
    · exact hx j (hyx ▸ hy)
  · rcases mem_handOver.mp hy' with hy' | ⟨hk, -⟩
    · exact hx k (hyx ▸ hy')
    · exact hjk (hj.trans hk.symm)

theorem Apart.createObject (h : Apart s t os rs) (i : ι)
    (hx : ∀ j, t.nextObject ∉ os j) (p n : String) (type : ℤ) (now : ℕ) :
    Apart s (t.insertObject p n type now) (handOver os i t.nextObject) rs := by
  have hown : ∀ j, ∀ x ∈ os j, x ∈ handOver os i t.nextObject j :=
    fun j x hxj => mem_handOver.mpr (Or.inl hxj)
  exact { h with
    objectIds := h.objectIds.handOver i hx
    grows := h.grows.trans (applyEffect_grows t (.createObject p n type now))
    nextObject := Nat.le_succ_of_le h.nextObject
    objects := (h.objects.mono hown).append (mem_handOver.mpr (Or.inr ⟨rfl, rfl⟩))
    objectProperties := h.objectProperties.mono hown
    prefixes := h.prefixes.mono hown }

theorem Apart.addRelation (h : Apart s t os rs) (i : ι)
    (hx : ∀ j, t.nextRelation ∉ rs j) (f o : ℕ) (type : ℤ) :
    Apart s (t.insertRelation f o type) os (handOver rs i t.nextRelation) := by
  have hown : ∀ j, ∀ x ∈ rs j, x ∈ handOver rs i t.nextRelation j :=
    fun j x hxj => mem_handOver.mpr (Or.inl hxj)
  exact { h with
    relationIds := h.relationIds.handOver i hx
    grows := h.grows.trans (applyEffect_grows t (.addRelation f o type))
    nextRelation := Nat.le_succ_of_le h.nextRelation
    relations := (h.relations.mono hown).append (mem_handOver.mpr (Or.inr ⟨rfl, rfl⟩))
    relationProperties := h.relationProperties.mono hown }

def Annotates (h : Handed) : Effect → Prop
  | .addObjectProperty r => r.id ∈ h.objects
  | .addRelationProperty r => r.id ∈ h.relations
  | .addPrefix r => r.id ∈ h.objects
  | _ => False

omit [DecidableEq ι] in
theorem Apart.annotate (h : Apart s t os rs) {i : ι} {e : Effect}
    (he : Annotates ⟨os i, rs i⟩ e) : Apart s (applyEffect t e) os rs := by
  have hgrows := h.grows.trans (applyEffect_grows t e)
  cases e with
  | createObject p n type now => exact he.elim
  | addRelation f o type => exact he.elim
  | addObjectProperty r =>
    revert hgrows
    simp only [applyEffect]
    cases hins : t.insertObjectProperty r with
    | none => exact fun _ => h
    | some u =>
      obtain ⟨-, rfl⟩ := insertObjectProperty_eq hins
      exact fun hgrows => { h with
        grows := hgrows
        objectProperties := h.objectProperties.insertOnce he }
  | addRelationProperty r =>
    revert hgrows
    simp only [applyEffect]
    cases hins : t.insertRelationProperty r with
    | none => exact fun _ => h
    | some u =>
      obtain ⟨-, rfl⟩ := insertRelationProperty_eq hins
      exact fun hgrows => { h with
        grows := hgrows
        relationProperties := h.relationProperties.insertOnce he }
  | addPrefix r =>
    revert hgrows
    simp only [applyEffect]
    cases hins : t.insertPrefix r with
    | none => exact fun _ => h
    | some u =>
      obtain ⟨-, rfl⟩ := insertPrefix_eq hins
      intro hgrows
      refine { h with grows := hgrows, prefixes := ?_ }
      rw [Option.getD_some]
      exact h.prefixes.insertOnce he

end Whole

end SharedDatabase
