import ProvCpl.ExportShape
import ProvCpl.PreparedQueries
import ProvCpl.StoreHistory

/-! # The public calls as runs of effects

Whatever fails on the way, a public call leaves the store as some finite run of insertions would,
each of them one that the front end lets through. A call that only asks makes no insertion. So
what is true of every run of effects is true of every history of calls by any clients. -/
namespace ApiEffects

open CplTypes JsonValue ProvStore ProvServer ServerSpecs PreparedQueries ImportDocument
open ImportFrame ExportDocument ExportShape StoreHistory EventTrace EarlyExit

/-- What the front end lets through to the database. -/
def Licensed : Effect → Prop
  | .createObject _ _ type _ => EnsureOType type
  | .addRelation f o type => f ≠ 0 ∧ o ≠ 0 ∧ EnsureRType type
  | .addObjectProperty r => r.id ≠ 0
  | .addRelationProperty r => r.id ≠ 0
  | .addPrefix r => r.id ≠ 0

instance : (e : Effect) → Decidable (Licensed e)
  | .createObject _ _ type _ => inferInstanceAs (Decidable (EnsureOType type))
  | .addRelation _ _ _ => inferInstanceAs (Decidable (_ ∧ _ ∧ _))
  | .addObjectProperty r => inferInstanceAs (Decidable (r.id ≠ 0))
  | .addRelationProperty r => inferInstanceAs (Decidable (r.id ≠ 0))
  | .addPrefix r => inferInstanceAs (Decidable (r.id ≠ 0))

def Leads (E : Effect → Prop) (s t : Store) : Prop :=
  ∃ effects, (∀ e ∈ effects, E e) ∧ t = runTrace applyEffect s effects

variable {E : Effect → Prop} {s t u : Store}

theorem Leads.refl (s : Store) : Leads E s s := ⟨[], by simp, rfl⟩

theorem Leads.step (h : Leads E s t) {e : Effect} (he : E e) : Leads E s (applyEffect t e) := by
  obtain ⟨effects, hall, rfl⟩ := h
  refine ⟨effects ++ [e], ?_, ?_⟩
  · intro x hx
    rcases List.mem_append.mp hx with hx | hx
    · exact hall x hx
    · exact List.mem_singleton.mp hx ▸ he
  · simp [runTrace]

theorem Leads.trans (h : Leads E s t) (h' : Leads E t u) : Leads E s u := by
  obtain ⟨effects, hall, rfl⟩ := h
  obtain ⟨more, hmore, rfl⟩ := h'
  refine ⟨effects ++ more, fun e he => ?_, by simp [runTrace]⟩
  exact (List.mem_append.mp he).elim (hall e) (hmore e)

theorem Leads.mono {E' : Effect → Prop} (h : Leads E s t) (hE : ∀ e, E e → E' e) :
    Leads E' s t := by
  obtain ⟨effects, hall, ht⟩ := h
  exact ⟨effects, fun e he => hE e (hall e he), ht⟩

theorem Leads.keeps {I : Store → Prop} (h : Leads E s t)
    (step : ∀ s e, I s → E e → I (applyEffect s e)) (hs : I s) : I t := by
  obtain ⟨effects, hall, rfl⟩ := h
  induction effects generalizing s with
  | nil => exact hs
  | cons e effects ih =>
    exact ih (step s e hs (hall e List.mem_cons_self)) fun x hx =>
      hall x (List.mem_cons_of_mem e hx)

theorem Leads.grows (h : Leads E s t) : Grows s t := by
  obtain ⟨effects, -, rfl⟩ := h
  exact run_grows s effects

theorem applyEffect_reachable {e : Effect} (hs : s.Reachable) (he : Licensed e) :
    (applyEffect s e).Reachable := by
  cases e with
  | createObject p n type now => exact .createObject p n type now he hs
  | addRelation f o type => exact .addRelation f o type he.1 he.2.1 he.2.2 hs
  | addObjectProperty r =>
    simp only [applyEffect]
    cases h : s.insertObjectProperty r with
    | none => exact hs
    | some t => exact .addObjectProperty r he hs h
  | addRelationProperty r =>
    simp only [applyEffect]
    cases h : s.insertRelationProperty r with
    | none => exact hs
    | some t => exact .addRelationProperty r he hs h
  | addPrefix r =>
    simp only [applyEffect]
    cases h : s.insertPrefix r with
    | none => exact hs
    | some t => exact .addPrefix r he hs h

theorem Leads.reachable (h : Leads Licensed s t) (hs : s.Reachable) : t.Reachable :=
  h.keeps (fun _ _ hs he => applyEffect_reachable hs he) hs

theorem Leads.objectProperty (h : Leads E s t) {r : PropertyRow} (hr : E (.addObjectProperty r))
    (ht : t.insertObjectProperty r = some u) : Leads E s u := by
  simpa only [applyEffect, ht, Option.getD_some] using h.step hr

theorem Leads.relationProperty (h : Leads E s t) {r : PropertyRow}
    (hr : E (.addRelationProperty r)) (ht : t.insertRelationProperty r = some u) :
    Leads E s u := by
  simpa only [applyEffect, ht, Option.getD_some] using h.step hr

theorem Leads.prefixRow (h : Leads E s t) {r : PrefixRow} (hr : E (.addPrefix r))
    (ht : t.insertPrefix r = some u) : Leads E s u := by
  simpa only [applyEffect, ht, Option.getD_some] using h.step hr

theorem reachable_iff_leads : s.Reachable ↔ Leads Licensed Store.fresh s := by
  constructor
  · intro h
    induction h with
    | fresh => exact Leads.refl _
    | createObject p n t now ht _ ih => exact ih.step (e := .createObject p n t now) ht
    | addRelation f o t hf ho ht _ ih => exact ih.step (e := .addRelation f o t) ⟨hf, ho, ht⟩
    | addObjectProperty r h0 _ he ih => exact ih.objectProperty (r := r) h0 he
    | addRelationProperty r h0 _ he ih => exact ih.relationProperty (r := r) h0 he
    | addPrefix r h0 _ he ih => exact ih.prefixRow (r := r) h0 he
  · exact fun h => h.reachable .fresh

inductive Addition where
  | createObject (nsPrefix name : Option String) (type : ℤ)
  | addRelation (fromId toId : ℕ) (type : ℤ)
  | addObjectStringProperty (id : ℕ) (nsPrefix key value : Option String)
  | addObjectNumericalProperty (id : ℕ) (nsPrefix key : Option String)
      (value : FloatText.BinaryFloat)
  | addObjectBooleanProperty (id : ℕ) (nsPrefix key : Option String) (value : Bool)
  | addRelationStringProperty (id : ℕ) (nsPrefix key value : Option String)
  | addRelationNumericalProperty (id : ℕ) (nsPrefix key : Option String)
      (value : FloatText.BinaryFloat)
  | addRelationBooleanProperty (id : ℕ) (nsPrefix key : Option String) (value : Bool)
  | addPrefix (id : ℕ) (nsPrefix iri : Option String)

inductive Question where
  | lookupObject (nsPrefix name : Option String) (type : ℤ)
  | lookupObjectExt (nsPrefix name : Option String) (type flags : ℤ)
  | lookupObjectByProperty (nsPrefix key value : Option String) (type : ℤ)
  | lookupRelation (fromId toId : ℕ) (type : ℤ)
  | lookupObjectPropertyWildcard (value : String)
  | getAllObjects (nsPrefix : Option String) (flags type : ℤ)
  | getObjectInfo (id : ℕ)
  | getObjectRelations (id : ℕ) (direction : ℤ)
  | getObjectProperties (id : ℕ) (nsPrefix key : Option String) (type : ℤ)
  | getRelationProperties (id : ℕ) (nsPrefix key : Option String) (type : ℤ)
  | getBundleObjects (id : ℕ)
  | getBundleRelations (id : ℕ)
  | getPrefixes (id : ℕ) (nsPrefix : Option String)
  | exportBundleJson (bundles : List ℕ)

inductive ApiCall where
  | add (a : Addition)
  | ask (q : Question)
  | lookupOrCreateObject (nsPrefix name : Option String) (type : ℤ)
  | importDocumentJson (jsonString bundleName : String) (anchorObjects : List (ℕ × String))
      (flags : ℤ) (outId : Option ℕ)

def Addition.run (srv : Server) : Addition → World → World
  | .createObject p n type, w => (srv.createObject p n type w).2
  | .addRelation f o type, w => (srv.addRelation f o type w).2
  | .addObjectStringProperty id p k v, w => (srv.addObjectStringProperty id p k v w).2
  | .addObjectNumericalProperty id p k x, w => (srv.addObjectNumericalProperty id p k x w).2
  | .addObjectBooleanProperty id p k b, w => (srv.addObjectBooleanProperty id p k b w).2
  | .addRelationStringProperty id p k v, w => (srv.addRelationStringProperty id p k v w).2
  | .addRelationNumericalProperty id p k x, w => (srv.addRelationNumericalProperty id p k x w).2
  | .addRelationBooleanProperty id p k b, w => (srv.addRelationBooleanProperty id p k b w).2
  | .addPrefix id p i, w => (srv.addPrefix id p i w).2

def Question.run (dump : Json → String) (srv : Server) (withKey : PoolMemory) :
    Question → World → World
  | .lookupObject p n type, w => (srv.lookupObject p n type w).2
  | .lookupObjectExt p n type flags, w => (srv.lookupObjectExt p n type flags w).2
  | .lookupObjectByProperty p k v type, w => (srv.lookupObjectByProperty p k v type w).2
  | .lookupRelation f o type, w => (srv.lookupRelation f o type w).2
  | .lookupObjectPropertyWildcard v, w => (srv.lookupObjectPropertyWildcard v w).2
  | .getAllObjects p flags type, w => (srv.getAllObjects p flags type w).2
  | .getObjectInfo id, w => (srv.getObjectInfo id w).2
  | .getObjectRelations id direction, w => (srv.getObjectRelations id direction w).2
  | .getObjectProperties id p k type, w => (srv.getObjectProperties id p k type w).2
  | .getRelationProperties id p k type, w => (srv.getRelationProperties id p k type w).2
  | .getBundleObjects id, w => (srv.getBundleObjects id w).2
  | .getBundleRelations id, w => (srv.getBundleRelations id w).2
  | .getPrefixes id p, w =>
    match srv.getPrefixes withKey id p w with
    | some out => out.2
    | none => w
  | .exportBundleJson bundles, w =>
    (ExportDocument.exportBundleJson dump srv bundles w).2

/-- The JSON library and the server that a client works with, and what its memory holds where
the backend initialises no semaphore and no lock. -/
structure Client where
  parse : String → Option Json
  dump : Json → String
  server : Server
  withKey : PoolMemory

/-- The lookup comes first, and only what it does not find is created. -/
def ApiCall.run (c : Client) : ApiCall → World → World
  | .add a, w => a.run c.server w
  | .ask q, w => q.run c.dump c.server c.withKey w
  | .lookupOrCreateObject p n type, w =>
    match c.server.lookupObject p n type w with
    | ((r, _), w') => if r ≠ .notFound then w' else (c.server.createObject p n type w').2
  | .importDocumentJson text name anchors flags outId, w =>
    (ImportDocument.importDocumentJson c.parse c.server text name anchors flags outId w).2

/-- The effects that an addition may have, however often its statement is executed. -/
def Addition.Makes : Addition → Effect → Prop
  | .createObject _ _ type, e => EnsureOType type ∧ ∃ p n now, e = .createObject p n type now
  | .addRelation f o type, e =>
    (f ≠ 0 ∧ o ≠ 0 ∧ EnsureRType type) ∧ e = .addRelation f o type
  | .addObjectStringProperty id _ _ _, e => id ≠ 0 ∧ ∃ r, r.id = id ∧ e = .addObjectProperty r
  | .addObjectNumericalProperty id _ _ _, e => id ≠ 0 ∧ ∃ r, r.id = id ∧ e = .addObjectProperty r
  | .addObjectBooleanProperty id _ _ _, e => id ≠ 0 ∧ ∃ r, r.id = id ∧ e = .addObjectProperty r
  | .addRelationStringProperty id _ _ _, e =>
    id ≠ 0 ∧ ∃ r, r.id = id ∧ e = .addRelationProperty r
  | .addRelationNumericalProperty id _ _ _, e =>
    id ≠ 0 ∧ ∃ r, r.id = id ∧ e = .addRelationProperty r
  | .addRelationBooleanProperty id _ _ _, e =>
    id ≠ 0 ∧ ∃ r, r.id = id ∧ e = .addRelationProperty r
  | .addPrefix id _ _, e => id ≠ 0 ∧ ∃ r, r.id = id ∧ e = .addPrefix r

theorem Addition.Makes.licensed {a : Addition} {e : Effect} (h : a.Makes e) : Licensed e := by
  cases a with
  | createObject p n type =>
    obtain ⟨ht, p, n, now, rfl⟩ := h
    exact ht
  | addRelation f o type =>
    obtain ⟨hargs, rfl⟩ := h
    exact hargs
  | _ =>
    obtain ⟨h0, r, rfl, rfl⟩ := h
    exact h0

section Additions

variable {srv : Server} {w : World}

theorem createObject_leads (hE : ∀ p n type now, EnsureOType type → E (.createObject p n type now))
    (p n : Option String) (type : ℤ) (w : World) :
    Leads E w.store (srv.createObject p n type w).2.store :=
  createObject_keeps (I := Leads E w.store)
    (fun _ p n now ht h => h.step (hE p n type now ht)) (Leads.refl _)

theorem addObjectProperty_leads {id : ℕ}
    (hE : ∀ r : PropertyRow, id ≠ 0 → r.id = id → E (.addObjectProperty r)) (type : ℤ)
    (p k v : Option String) (w : World) : Leads E w.store
      (srv.addProperty srv.cplOdbcAddObjectProperty id p k v type w).2.store := by
  refine addProperty_keeps (I := Leads E w.store) (fun p k v _ h0 => ?_) (Leads.refl _)
  refine cplOdbcAddObjectProperty_keeps (I := Leads E w.store) (fun _ _ hins h => ?_)
    (Leads.refl _)
  exact h.objectProperty (hE ⟨id, p, k, v, type⟩ h0 rfl) hins

theorem addRelationProperty_leads {id : ℕ}
    (hE : ∀ r : PropertyRow, id ≠ 0 → r.id = id → E (.addRelationProperty r)) (type : ℤ)
    (p k v : Option String) (w : World) : Leads E w.store
      (srv.addProperty srv.cplOdbcAddRelationProperty id p k v type w).2.store := by
  refine addProperty_keeps (I := Leads E w.store) (fun p k v _ h0 => ?_) (Leads.refl _)
  refine cplOdbcAddRelationProperty_keeps (I := Leads E w.store) (fun _ _ hins h => ?_)
    (Leads.refl _)
  exact h.relationProperty (hE ⟨id, p, k, v, type⟩ h0 rfl) hins

theorem addition_leads (srv : Server) (a : Addition) (w : World) :
    Leads a.Makes w.store (a.run srv w).store := by
  cases a with
  | createObject p n type =>
    exact createObject_keeps (I := Leads _ w.store)
      (fun _ p n now ht h => h.step ⟨ht, p, n, now, rfl⟩) (Leads.refl _)
  | addRelation f o type =>
    exact addRelation_keeps (I := Leads _ w.store)
      (fun t hf ho ht h => h.step (e := .addRelation f o type) ⟨⟨hf, ho, ht⟩, rfl⟩) (Leads.refl _)
  | addObjectStringProperty id p k v =>
    exact addObjectProperty_leads (fun r h0 hr => ⟨h0, r, hr, rfl⟩) _ p k v w
  | addObjectNumericalProperty id p k x =>
    exact addObjectProperty_leads (fun r h0 hr => ⟨h0, r, hr, rfl⟩) _ p k _ w
  | addObjectBooleanProperty id p k b =>
    exact addObjectProperty_leads (fun r h0 hr => ⟨h0, r, hr, rfl⟩) _ p k _ w
  | addRelationStringProperty id p k v =>
    exact addRelationProperty_leads (fun r h0 hr => ⟨h0, r, hr, rfl⟩) _ p k v w
  | addRelationNumericalProperty id p k x =>
    exact addRelationProperty_leads (fun r h0 hr => ⟨h0, r, hr, rfl⟩) _ p k _ w
  | addRelationBooleanProperty id p k b =>
    exact addRelationProperty_leads (fun r h0 hr => ⟨h0, r, hr, rfl⟩) _ p k _ w
  | addPrefix id p i =>
    exact addPrefix_keeps (I := Leads _ w.store)
      (fun _ _ p i h0 hins h => h.prefixRow (r := ⟨id, p, i⟩) ⟨h0, _, rfl, rfl⟩ hins)
      (Leads.refl _)

end Additions

def ReadOnly {α : Type} (c : Call World α) : Prop := ∀ w, (c w).2.store = w.store

section Questions

variable {srv : Server} {α β : Type}

theorem readOnly_query (read : ℕ → Store → ReturnCode × α) (nothing : α) :
    ReadOnly (srv.query read nothing) :=
  fun _ => query_store read nothing

theorem readOnly_ensureInitialized {nothing : ReturnCode → α} {c : Call World α}
    (h : ReadOnly c) : ReadOnly (srv.ensureInitialized nothing c) := by
  intro w
  unfold Server.ensureInitialized
  split
  · exact h w
  · rfl

theorem readOnly_ite {P : Prop} [Decidable P] {a : α} {c : Call World α} (h : ReadOnly c) :
    ReadOnly fun w => if P then (a, w) else c w := by
  intro w
  dsimp only
  split
  · rfl
  · exact h w

theorem readOnly_map {c : Call World α} (f : α → β) (h : ReadOnly c) :
    ReadOnly fun w => (f (c w).1, (c w).2) := h

theorem readOnly_list (id : ℕ) {c : Call World (ReturnCode × List α)} (h : ReadOnly c) :
    ReadOnly (srv.list id c) :=
  readOnly_ensureInitialized (readOnly_ite h)

theorem readOnly_lookupObjectExt (p n : Option String) (type flags : ℤ) :
    ReadOnly (srv.lookupObjectExt p n type flags) := by
  refine readOnly_ensureInitialized fun w => ?_
  cases p with
  | none => rfl
  | some p =>
    cases n with
    | none => rfl
    | some n =>
      have hstore : (srv.cplOdbcLookupObjectExt p n type flags w).2.store = w.store :=
        query_store _ _
      rcases hrun : srv.cplOdbcLookupObjectExt p n type flags w with ⟨⟨r, es⟩, w'⟩
      rw [hrun] at hstore
      simp only [cplLookupObjectExt, hrun]
      split <;> exact hstore

theorem readOnly_getObjectRelations (id : ℕ) (direction : ℤ) :
    ReadOnly (srv.getObjectRelations id direction) :=
  readOnly_list id (readOnly_ite
    (readOnly_map (fun out => (if out.1 = .noData then .ok else out.1, out.2))
      (readOnly_query _ _)))

theorem readOnly_lookupObjectByProperty (p k v : Option String) (type : ℤ) :
    ReadOnly (srv.lookupObjectByProperty p k v type) := by
  refine readOnly_ensureInitialized fun w => ?_
  cases p with
  | none => rfl
  | some p =>
    cases k with
    | none => rfl
    | some k =>
      cases v with
      | none => rfl
      | some v => exact readOnly_query _ _ w

theorem keeps_exportBundleJson_any (dump : Json → String) (bundles : List ℕ) (I : Store → Prop) :
    Keeps I (exportBundleJson dump srv bundles) fun _ => True := by
  have hobject : ∀ out o, Keeps I (exportObject srv out o) fun _ => True := fun out o =>
    maintains_weaken (keeps_exportObject out o) fun _ _ => trivial
  have hrelation : ∀ tbl document r, Keeps I (exportRelation srv tbl document r) fun _ => True :=
    fun tbl document r => maintains_weaken (keeps_exportRelation tbl document r) fun _ _ => trivial
  refine maintains_bind (R := fun _ => True) ?_ fun _ _ => maintains_pure trivial
  refine maintains_fold (T := fun _ _ => True) trivial fun _ b out _ _ => ?_
  refine maintains_bind (R := fun _ => True) ?_ fun out _ => ?_
  · exact maintains_bind (keeps_requireList (list_store _ _)) fun objs _ =>
      maintains_fold (T := fun _ _ => True) trivial fun _ o out _ _ => hobject out o
  · refine maintains_bind (R := fun _ => True) ?_ fun _ _ => maintains_pure trivial
    exact maintains_bind (keeps_requireList (list_store _ _)) fun rels _ =>
      maintains_fold (T := fun _ _ => True) trivial fun _ r document _ _ =>
        hrelation out.1 document r

theorem question_store (dump : Json → String) (srv : Server) (withKey : PoolMemory) (q : Question)
    (w : World) : (q.run dump srv withKey w).store = w.store := by
  cases q with
  | lookupObject p n type => exact lookupObject_store p n type
  | lookupObjectExt p n type flags => exact readOnly_lookupObjectExt p n type flags w
  | lookupObjectByProperty p k v type => exact readOnly_lookupObjectByProperty p k v type w
  | lookupRelation f o type =>
    refine readOnly_ensureInitialized ?_ w
    exact readOnly_ite (readOnly_query _ _)
  | lookupObjectPropertyWildcard v => exact readOnly_ensureInitialized (readOnly_query _ _) w
  | getAllObjects p flags type => exact readOnly_ensureInitialized (readOnly_query _ _) w
  | getObjectInfo id =>
    refine readOnly_ensureInitialized ?_ w
    exact readOnly_ite (readOnly_query _ _)
  | getObjectRelations id direction => exact readOnly_getObjectRelations id direction w
  | getObjectProperties id p k type => exact readOnly_list id (readOnly_query _ _) w
  | getRelationProperties id p k type => exact readOnly_list id (readOnly_query _ _) w
  | getBundleObjects id => exact readOnly_list id (readOnly_query _ _) w
  | getBundleRelations id => exact readOnly_list id (readOnly_query _ _) w
  | getPrefixes id p =>
    simp only [Question.run]
    split
    · next out hout =>
      have hselect : ReadOnly (srv.runGetPrefixes id p) := readOnly_query _ _
      rw [getPrefixes_returns hout]
      exact readOnly_list id hselect w
    · rfl
  | exportBundleJson bundles =>
    exact (keeps_exportBundleJson_any dump bundles (· = w.store)).store rfl

end Questions

/-- An import may do anything that the front end lets through. -/
theorem importClosed_leads (s : Store) : ImportClosed (Leads Licensed s) 0 0 where
  next := fun _ _ => ⟨Nat.zero_le _, Nat.zero_le _⟩
  object := fun _ p n type now ht h => h.step (e := .createObject p n type now) ht
  relation := fun _ f o type hf ho ht h => h.step (e := .addRelation f o type) ⟨hf, ho, ht⟩
  objectProperty := fun _ _ r _ h0 _ he h =>
    h.objectProperty (r := r) h0 he
  relationProperty := fun _ _ r _ h0 _ he h =>
    h.relationProperty (r := r) h0 he
  prefixRow := fun _ _ r _ h0 he h => h.prefixRow (r := r) h0 he

/-- The out parameter aside, the call is the program. -/
theorem importDocumentJson_store (parse : String → Option Json) (srv : Server)
    (text name : String) (anchors : List (ℕ × String)) (flags : ℤ) (outId : Option ℕ)
    (w : World) : (importDocumentJson parse srv text name anchors flags outId w).2 =
      (importDocument parse srv text name anchors flags w).2 := by
  unfold importDocumentJson
  rcases importDocument parse srv text name anchors flags w with ⟨r, w'⟩
  cases r <;> rfl

theorem lookupOrCreate_leads (hE : ∀ p n type now, EnsureOType type →
    E (.createObject p n type now)) (c : Client) (p n : Option String) (type : ℤ) (w : World) :
    Leads E w.store ((ApiCall.lookupOrCreateObject p n type).run c w).store := by
  have hfound : (c.server.lookupObject p n type w).2.store = w.store :=
    lookupObject_store p n type
  have hmade : Leads E (c.server.lookupObject p n type w).2.store
      (c.server.createObject p n type (c.server.lookupObject p n type w).2).2.store :=
    createObject_leads hE p n type _
  simp only [ApiCall.run]
  split
  · rw [hfound]
    exact Leads.refl _
  · rwa [hfound] at hmade

theorem apiCall_leads (c : Client) (call : ApiCall) (w : World) :
    Leads Licensed w.store (call.run c w).store := by
  cases call with
  | add a => exact (addition_leads c.server a w).mono fun _ he => he.licensed
  | ask q =>
    rw [ApiCall.run, question_store]
    exact Leads.refl _
  | lookupOrCreateObject p n type =>
    exact lookupOrCreate_leads (fun _ _ _ _ ht => ht) c p n type w
  | importDocumentJson text name anchors flags outId =>
    rw [ApiCall.run, importDocumentJson_store]
    exact (keeps_importDocument (importClosed_leads w.store) c.parse text name anchors
      flags).store (Leads.refl _)

/-- The calls of any clients, one after the other; each client counts its own backend calls. -/
def runCalls (s : Store) : List (Client × ℕ × ApiCall) → Store
  | [] => s
  | (c, n, call) :: calls => runCalls (call.run c ⟨s, n⟩).store calls

theorem runCalls_leads (s : Store) (calls : List (Client × ℕ × ApiCall)) :
    Leads Licensed s (runCalls s calls) := by
  induction calls generalizing s with
  | nil => exact Leads.refl s
  | cons x calls ih =>
    obtain ⟨c, n, call⟩ := x
    exact (apiCall_leads c call ⟨s, n⟩).trans (ih _)

end ApiEffects
