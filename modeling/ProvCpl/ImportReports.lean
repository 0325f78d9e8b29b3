import ProvCpl.ImportLog

/-! # What the code of an import says about its writes

Every creation, relation and prefix is checked, so an import that returns success has made all
of these. The codes of the property writes are not looked at. -/
namespace ImportReports

open CplTypes QualifiedName JsonValue ProvStore ProvServer ServerSpecs ImportDocument
open ImportFrame ImportLog EarlyExit ProgramLog

structure Settled (srv : Server) (a : Attempt) : Prop where
  property : a.write.IsProperty → (a.code.IsOk ↔ (srv.outcome a.call).failure = none)
  checked : ¬ a.write.IsProperty → a.code.IsOk

structure Owners (objects relations : List ℕ) (s : Store) : Prop where
  reachable : s.Reachable
  objects : ∀ i ∈ objects, i ≠ 0 ∧ i ∈ s.objects.map (·.id)
  relations : ∀ i ∈ relations, i ≠ 0 ∧ i ∈ s.relations.map (·.id)

theorem importClosed_owners (objects relations : List ℕ) :
    ImportClosed (Owners objects relations) 1 1 where
  next := fun _ h => ⟨h.reachable.valid.next_object, h.reachable.valid.next_relation⟩
  object := fun s p n t now ht h => ⟨.createObject p n t now ht h.reachable,
    fun i hi => by simpa [Store.insertObject] using
      ⟨(h.objects i hi).1, Or.inl (by simpa using (h.objects i hi).2)⟩, h.relations⟩
  relation := fun s f o t hf ho ht h => ⟨.addRelation f o t hf ho ht h.reachable, h.objects,
    fun i hi => by simpa [Store.insertRelation] using
      ⟨(h.relations i hi).1, Or.inl (by simpa using (h.relations i hi).2)⟩⟩
  objectProperty := fun s s' r _ h0 _ he h => by
    have hreach := h.reachable.addObjectProperty r h0 he
    obtain ⟨-, rfl⟩ := insertObjectProperty_eq he
    exact ⟨hreach, h.objects, h.relations⟩
  relationProperty := fun s s' r _ h0 _ he h => by
    have hreach := h.reachable.addRelationProperty r h0 he
    obtain ⟨-, rfl⟩ := insertRelationProperty_eq he
    exact ⟨hreach, h.objects, h.relations⟩
  prefixRow := fun s s' r _ h0 he h => by
    have hreach := h.reachable.addPrefix r h0 he
    obtain ⟨-, rfl⟩ := insertPrefix_eq he
    exact ⟨hreach, h.objects, h.relations⟩

theorem Owners.forget {objects relations : List ℕ} {s : Store} (h : Owners objects relations s) :
    Owners [] [] s :=
  ⟨h.reachable, by simp, by simp⟩

/-- The code of a write for this id reports the failure of its statement. -/
structure WriterReports (srv : Server) (I : Store → Prop) (out : PropertyWriter) (id : ℕ) :
    Prop where
  addString : ∀ p k v w, I w.store →
    ((out.addString id (some p) (some k) (some v) w).1.IsOk ↔
      (srv.outcome w.calls).failure = none)
  addNumerical : ∀ p k x w, I w.store →
    ((out.addNumerical id (some p) (some k) x w).1.IsOk ↔ (srv.outcome w.calls).failure = none)
  addBoolean : ∀ p k b w, I w.store →
    ((out.addBoolean id (some p) (some k) b w).1.IsOk ↔ (srv.outcome w.calls).failure = none)

theorem WriterReports.mono {srv : Server} {I I' : Store → Prop} {out : PropertyWriter} {id : ℕ}
    (h : WriterReports srv I' out id) (hI : ∀ s, I s → I' s) : WriterReports srv I out id :=
  ⟨fun p k v w hw => h.addString p k v w (hI _ hw), fun p k x w hw =>
    h.addNumerical p k x w (hI _ hw), fun p k b w hw => h.addBoolean p k b w (hI _ hw)⟩

section Writers

variable {srv : Server} (ha : srv.attached = true) {id : ℕ} {I : Store → Prop}

include ha

theorem addProperty_isOk_iff {add : ℕ → String → String → String → ℤ → Call World ReturnCode}
    {insert : Store → PropertyRow → Option Store} (h0 : id ≠ 0)
    (hadd : ∀ p k v type, add id p k v type = codeOnly (srv.execute fun _ s =>
      (insert s ⟨id, p, k, v, type⟩).map fun t => ((), t)))
    (h : ∀ s r, I s → r.id = id → ∃ t, insert s r = some t ∧ I t) (p k v : String) (type : ℤ)
    {w : World} (hw : I w.store) :
    (srv.addProperty add id (some p) (some k) (some v) type w).1.IsOk ↔
      (srv.outcome w.calls).failure = none := by
  have hid : ¬ id = cplNone := h0
  simp only [Server.addProperty, Server.ensureInitialized, ha, if_true, if_neg hid, hadd]
  refine execute_isOk_iff (I := I) (fun now s hs => ?_) hw
  obtain ⟨t, ht, hI⟩ := h s ⟨id, p, k, v, type⟩ hs rfl
  exact ⟨(), t, by rw [ht, Option.map_some], hI⟩

theorem objectWriter_reports (h0 : id ≠ 0) :
    WriterReports srv (fun s => id ∈ s.objects.map (·.id)) (objectWriter srv) id := by
  have hinsert : ∀ (s : Store) (r : PropertyRow), id ∈ s.objects.map (·.id) → r.id = id →
      ∃ t, s.insertObjectProperty r = some t ∧ id ∈ t.objects.map (·.id) := by
    rintro s r hs rfl
    exact ⟨_, if_pos hs, hs⟩
  exact ⟨fun p k v _ hw => addProperty_isOk_iff ha h0 (fun _ _ _ _ => rfl) hinsert p k v _ hw,
    fun p k _ _ hw => addProperty_isOk_iff ha h0 (fun _ _ _ _ => rfl) hinsert p k _ _ hw,
    fun p k _ _ hw => addProperty_isOk_iff ha h0 (fun _ _ _ _ => rfl) hinsert p k _ _ hw⟩

theorem relationWriter_reports (h0 : id ≠ 0) :
    WriterReports srv (fun s => id ∈ s.relations.map (·.id)) (relationWriter srv) id := by
  have hinsert : ∀ (s : Store) (r : PropertyRow), id ∈ s.relations.map (·.id) → r.id = id →
      ∃ t, s.insertRelationProperty r = some t ∧ id ∈ t.relations.map (·.id) := by
    rintro s r hs rfl
    exact ⟨_, if_pos hs, hs⟩
  exact ⟨fun p k v _ hw => addProperty_isOk_iff ha h0 (fun _ _ _ _ => rfl) hinsert p k v _ hw,
    fun p k _ _ hw => addProperty_isOk_iff ha h0 (fun _ _ _ _ => rfl) hinsert p k _ _ hw,
    fun p k _ _ hw => addProperty_isOk_iff ha h0 (fun _ _ _ _ => rfl) hinsert p k _ _ hw⟩

end Writers

/-- The store satisfies `I`, and every logged write is settled. -/
def Sound (srv : Server) (I : Store → Prop) (t : Store) (l : List Attempt) : Prop :=
  I t ∧ ∀ a ∈ l, Settled srv a

section Importer

variable {srv : Server} {I : Store → Prop}

theorem Sound.append {t t' : Store} {l : List Attempt} {I' : Store → Prop} (h : Sound srv I t l)
    (ht : I' t') {a : Attempt} (ha : Settled srv a) : Sound srv I' t' (l ++ [a]) := by
  refine ⟨ht, ?_⟩
  exact List.forall_mem_append.mpr ⟨h.2, List.forall_mem_singleton.mpr ha⟩

theorem settled_checked {write : Write} (hw : ¬ write.IsProperty) {call : ℕ} {code : ReturnCode}
    (hok : code.IsOk) (id : Option ℕ) : Settled srv ⟨write, call, code, id⟩ :=
  ⟨fun h => absurd h hw, fun _ => hok⟩

theorem sound_logId {write : Write} (hwrite : ¬ write.IsProperty)
    {c : Call World (ReturnCode × Option ℕ)} {J : ℕ → Store → Prop}
    (h : ∀ w, I w.store → (c w).1.1.IsOk → ∀ id, (c w).1.2 = some id → J id (c w).2.store) :
    LogEnsures (Sound srv I) (logId write c) fun id => Sound srv (J id) :=
  logs_logId fun w _ hs hok id hid =>
    hs.append (h w hs.1 hok id hid) (settled_checked hwrite hok (some id))

theorem sound_logOk {write : Write} (hwrite : ¬ write.IsProperty) {c : Call World ReturnCode}
    (h : ∀ w, I w.store → I (c w).2.store) :
    LogEnsures (Sound srv I) (logOk write c) fun _ => Sound srv I :=
  logs_logOk fun w _ hs hok => hs.append (h w hs.1) (settled_checked hwrite hok none)

theorem sound_quiet {α : Type} {m : Api α} {R : α → Prop} (h : Keeps I m R) :
    LogEnsures (Sound srv I) (quiet m) fun a t l => Sound srv I t l ∧ R a :=
  logs_quiet fun _ => triple_conseq (triple_frame h) (fun _ hw => hw)
    (fun _ _ hw => ⟨⟨hw.1.1, hw.2⟩, hw.1.2⟩) fun _ _ hw => hw

theorem sound_logProperties {out : PropertyWriter} {what : ℕ → String × Json → Write} {id : ℕ}
    (hwhat : ∀ e, (what id e).IsProperty) (hk : WriterKeeps I out id)
    (hr : WriterReports srv I out id) (properties : Json) :
    LogEnsures (Sound srv I) (logProperties out what id properties) fun _ => Sound srv I := by
  have one : ∀ e (c : Call World ReturnCode), (∀ w, I w.store → I (c w).2.store) →
      (∀ w, I w.store → ((c w).1.IsOk ↔ (srv.outcome w.calls).failure = none)) →
      LogEnsures (Sound srv I) (logUnchecked (what id e) c) fun _ => Sound srv I :=
    fun e c hkeep hcode => logs_logUnchecked fun w _ hs =>
      hs.append (hkeep w hs.1) ⟨fun _ => hcode w hs.1, fun hno => absurd (hwhat e) hno⟩
  refine logs_bind (sound_quiet (keeps_orThrow _)) fun items => ?_
  refine logs_weaken (fun _ _ h => h.1) (logs_forEach (I := fun _ => Sound srv I) fun _ e _ => ?_)
  obtain ⟨key, v⟩ := e
  cases v with
  | string s => exact one _ _ (hk.addString _ _ _) (hr.addString _ _ _)
  | integer n =>
    exact one _ _ (hk.addNumerical _ _ _ (FloatText.fits_ofInt n)) (hr.addNumerical _ _ _)
  | unsigned n =>
    exact one _ _ (hk.addNumerical _ _ _ (FloatText.fits_ofInt n)) (hr.addNumerical _ _ _)
  | float x => exact one _ _ (hk.addNumerical _ _ _ (FloatText.fits_cast x)) (hr.addNumerical _ _ _)
  | boolean b => exact one _ _ (hk.addBoolean _ _ _) (hr.addBoolean _ _ _)
  | null => exact logs_leave
  | array l => exact logs_leave
  | object m => exact logs_leave

theorem sound_createObject {write : Write} (hwrite : ¬ write.IsProperty) (p n : String)
    (type : ℤ) : LogEnsures (Sound srv (Owners [] []))
      (logId write (srv.createObject (some p) (some n) type))
      fun id t l => Sound srv (Owners [id] []) t l ∧ srv.attached = true := by
  refine logs_logId fun w l hs hok id hid => ?_
  obtain ⟨ha, ht, hid', hstore⟩ := createObject_ok hok
  refine ⟨hs.append ?_ (settled_checked hwrite hok (some id)), ha⟩
  have hkeep : ∀ s a t, Store.Reachable s →
      some (s.nextObject, s.insertObject p n type (srv.clock w.calls)) = some (a, t) →
        Store.Reachable t := by
    rintro s a t hs ⟨⟩
    exact hs.createObject p n type _ ht
  have hreach := replay_keeps hkeep (srv.outcome w.calls).lost w.store hs.1.reachable
  rw [hid'] at hid
  cases hid
  rw [hstore]
  refine ⟨hreach.createObject p n type _ ht, ?_, by simp⟩
  simpa [Store.insertObject] using Nat.pos_iff_ne_zero.mp hreach.valid.next_object

theorem sound_addRelation {write : Write} (hwrite : ¬ write.IsProperty) (f o : ℕ) (type : ℤ) :
    LogEnsures (Sound srv (Owners [] [])) (logId write (srv.addRelation f o type))
      fun id => Sound srv (Owners [] [id]) := by
  refine sound_logId hwrite fun w hw hok id hid => ?_
  obtain ⟨hf, ho, ht, hid', hstore⟩ := addRelation_ok hok
  have hkeep : ∀ s a t, Store.Reachable s →
      some (s.nextRelation, s.insertRelation f o type) = some (a, t) → Store.Reachable t := by
    rintro s a t hs ⟨⟩
    exact hs.addRelation f o type hf ho ht
  have hreach := replay_keeps hkeep (srv.outcome w.calls).lost w.store hw.reachable
  rw [hid'] at hid
  cases hid
  rw [hstore]
  refine ⟨hreach.addRelation f o type hf ho ht, by simp, ?_⟩
  simpa [Store.insertRelation] using Nat.pos_iff_ne_zero.mp hreach.valid.next_relation

theorem sound_addMembership {objects relations : List ℕ} (b r : ℕ) :
    LogEnsures (Sound srv (Owners objects relations))
      (logOk (.membership r) (codeOnly (srv.addRelation b r bundleRelation)))
      fun _ => Sound srv (Owners objects relations) :=
  sound_logOk id fun _ => addRelation_keeps fun s hf ho ht =>
    (importClosed_owners objects relations).relation s b r _ hf ho ht

theorem sound_logBundlePrefixesJson (bundle : ℕ) (document : Json) :
    LogEnsures (Sound srv (Owners [] [])) (logBundlePrefixesJson srv bundle document)
      fun _ => Sound srv (Owners [] []) := by
  refine logs_ite (fun _ => ?_) fun _ => logs_leave
  refine logs_forEach (I := fun _ => Sound srv (Owners [] [])) fun _ e _ => ?_
  refine logs_ite (fun _ => ?_) fun _ => logs_leave
  refine logs_bind (sound_quiet (keeps_orThrow _)) fun iri => logs_assume fun _ => ?_
  exact sound_logOk (by exact not_false) fun w => addPrefix_keeps fun s s' p i h0 he hs =>
    (importClosed_owners [] []).prefixRow s s' _ (Nat.one_le_iff_ne_zero.mpr h0) h0 he hs

theorem sound_logAnchor (bundleId : ℕ) (anchor : ℕ × String) :
    LogEnsures (Sound srv (Owners [] [])) (logAnchor srv bundleId anchor)
      fun _ => Sound srv (Owners [] []) := by
  have hlookup : ∀ p n t, Keeps (Owners [] []) (call (srv.lookupObject p n t)) fun _ => True :=
    fun p n t => maintains_call fun w hw => ⟨by rwa [lookupObject_store], trivial⟩
  refine logs_bind (sound_quiet (hlookup _ _ _)) fun found => ?_
  refine logs_assume fun _ => logs_ite (fun _ => ?_) fun _ => logs_pure fun t l h => h
  cases found.2 with
  | none => exact logs_leave
  | some source =>
    refine logs_bind (sound_addRelation (by exact not_false) source anchor.1 alternateOf)
      fun id => ?_
    exact logs_conseq (sound_addMembership bundleId id) (fun _ _ h => h)
      fun _ t l h => ⟨h.1.forget, h.2⟩

section Attached

variable (ha : srv.attached = true)

include ha

theorem sound_objectProperties {id : ℕ} (properties : Json) :
    LogEnsures (Sound srv (Owners [id] []))
      (logProperties (objectWriter srv) .objectProperty id properties)
      fun _ => Sound srv (Owners [id] []) := by
  intro s hs
  have h0 := (hs.1.objects id List.mem_cons_self).1
  have hk : WriterKeeps (Owners [id] []) (objectWriter srv) id :=
    (importClosed_owners [id] []).objects.objectWriter (Nat.one_le_iff_ne_zero.mpr h0)
  have hr := (objectWriter_reports ha h0).mono fun t (ht : Owners [id] [] t) =>
    (ht.objects id List.mem_cons_self).2
  exact sound_logProperties (by exact fun _ => trivial) hk hr properties s hs

theorem sound_relationProperties {id : ℕ} (properties : Json) :
    LogEnsures (Sound srv (Owners [] [id]))
      (logProperties (relationWriter srv) .relationProperty id properties)
      fun _ => Sound srv (Owners [] [id]) := by
  intro s hs
  have h0 := (hs.1.relations id List.mem_cons_self).1
  have hk : WriterKeeps (Owners [] [id]) (relationWriter srv) id :=
    (importClosed_owners [] [id]).relationWriter (Nat.one_le_iff_ne_zero.mpr h0)
  have hr := (relationWriter_reports ha h0).mono fun t (ht : Owners [] [id] t) =>
    (ht.relations id List.mem_cons_self).2
  exact sound_logProperties (by exact fun _ => trivial) hk hr properties s hs

theorem sound_logObjectsJson (type : ℤ) (typeStr : String) (tbl : LookupTable)
    (document : Json) : LogEnsures (Sound srv (Owners [] []))
      (logObjectsJson srv type typeStr tbl document) fun _ => Sound srv (Owners [] []) := by
  refine logs_ite (fun _ => ?_) fun _ => logs_leave
  refine logs_fold (I := fun _ _ => Sound srv (Owners [] [])) fun _ e tbl _ => ?_
  refine logs_bind (sound_createObject (by exact not_false) _ _ type) fun id => ?_
  refine logs_assume fun _ => ?_
  refine logs_bind (sound_objectProperties ha e.2) fun _ => ?_
  exact logs_pure fun t l h => ⟨h.1.forget, h.2⟩

theorem sound_logRelation (bundleId : ℕ) (tbl : LookupTable) (externObjF : Bool)
    (entry : ProvRelationData) (e : String × Json) : LogEnsures (Sound srv (Owners [] []))
      (logRelation srv bundleId tbl externObjF entry e) fun _ => Sound srv (Owners [] []) := by
  refine logs_bind (sound_quiet (keeps_importEndpoint tbl externObjF e.2 _ _)) fun source => ?_
  refine logs_assume fun _ => ?_
  refine logs_bind (sound_quiet (keeps_importEndpoint tbl externObjF e.2 _ _)) fun dest => ?_
  refine logs_assume fun _ => ?_
  refine logs_bind (sound_addRelation (by exact not_false) source dest entry.type) fun id => ?_
  refine logs_bind (sound_addMembership bundleId id) fun _ => ?_
  refine logs_ite (fun _ => ?_) fun _ => logs_pure fun t l h => ⟨h.1.forget, h.2⟩
  exact logs_conseq (sound_relationProperties ha e.2) (fun _ _ h => h)
    fun _ t l h => ⟨h.1.forget, h.2⟩

end Attached

theorem sound_logContents (document : Json) (bundleName : String)
    (anchors : List (ℕ × String)) (externObjF : Bool) :
    LogEnsures (Sound srv (Owners [] []))
      (logContents srv document bundleName anchors externObjF)
      fun _ => Sound srv (Owners [] []) := by
  refine logs_bind (sound_createObject (by exact not_false) _ _ cplBundle) fun b => ?_
  refine logs_assume fun ha => ?_
  refine logs_weaken (fun t l h => (⟨h.1.forget, h.2⟩ : Sound srv (Owners [] []) t l)) ?_
  refine logs_bind (sound_logBundlePrefixesJson b document) fun _ => ?_
  refine logs_bind (sound_logObjectsJson ha _ _ _ _) fun tbl1 => ?_
  refine logs_bind (sound_logObjectsJson ha _ _ _ _) fun tbl2 => ?_
  refine logs_bind (sound_logObjectsJson ha _ _ _ _) fun tbl3 => ?_
  refine logs_bind (logs_forEach (I := fun _ => Sound srv (Owners [] []))
    fun _ anchor _ => sound_logAnchor b anchor) fun _ => ?_
  refine logs_bind (logs_forEach (I := fun _ => Sound srv (Owners [] [])) fun _ entry _ => ?_)
    fun _ => logs_pure fun _ _ h => h
  exact logs_ite (fun _ => logs_forEach (I := fun _ => Sound srv (Owners [] []))
    fun _ e _ => sound_logRelation ha b tbl3 externObjF entry e) fun _ => logs_leave

end Importer

def PropertiesWritten (srv : Server) (log : List Attempt) : Prop :=
  ∀ a ∈ log, a.write.IsProperty → (srv.outcome a.call).failure = none

theorem sound_logDocument (parse : String → Option Json) (srv : Server)
    (jsonString bundleName : String) (anchors : List (ℕ × String)) (flags : ℤ) :
    LogEnsures (Sound srv (Owners [] []))
      (logDocument parse srv jsonString bundleName anchors flags)
      fun _ => Sound srv (Owners [] []) := by
  refine logs_bind (sound_quiet (keeps_orThrow _)) fun document => logs_assume fun _ => ?_
  refine logs_ite (fun _ => logs_leave) fun _ => logs_ite (fun _ => logs_leave) fun _ => ?_
  exact logs_mapExit (sound_logContents document bundleName anchors _)

/-- An import that reports success has made all its writes exactly when none of its property
writes fails. -/
theorem all_written_iff {parse : String → Option Json} {srv : Server} {s : Store}
    (hs : s.Reachable) (calls : ℕ) {jsonString bundleName : String}
    {anchors : List (ℕ × String)} {flags : ℤ} {outId : Option ℕ}
    (hok : (importDocumentJson parse srv jsonString bundleName anchors flags outId
      ⟨s, calls⟩).1.1 = .ret .ok) :
    (∀ a ∈ attempts parse srv jsonString bundleName anchors flags ⟨s, calls⟩, a.code.IsOk) ↔
      PropertiesWritten srv
        (attempts parse srv jsonString bundleName anchors flags ⟨s, calls⟩) := by
  have hsettled : ∀ a ∈ attempts parse srv jsonString bundleName anchors flags ⟨s, calls⟩,
      Settled srv a := by
    obtain ⟨b, hrun, -⟩ := importDocument_of_ok hok
    have hlog := sound_logDocument parse srv jsonString bundleName anchors flags (⟨s, calls⟩, [])
      ⟨⟨hs, by simp, by simp⟩, by simp⟩
    rw [logDocument_run hrun] at hlog
    exact hlog.2
  constructor
  · intro h a ha hp
    exact ((hsettled a ha).property hp).mp (h a ha)
  · intro h a ha
    by_cases hp : a.write.IsProperty
    · exact ((hsettled a ha).property hp).mpr (h a ha hp)
    · exact (hsettled a ha).checked hp

def taggedText : String := "\x7b\"entity\": \x7b\"e\": \x7b\"k\": \"v\"\x7d\x7d\x7d"

def taggedParse (text : String) : Option Json :=
  if text = taggedText then
    some (.object [("entity", .object [("e", .object [("k", .string "v")])])])
  else none

/-- The statement of the third call, which writes the property, fails. -/
def losingServer : Server :=
  { Server.ideal with
    outcome := fun n => if n = 2 then ⟨0, some ⟨.statementError, by decide⟩⟩ else .success }

/-- The import reports success although the property was not stored. -/
theorem lost_property_reported_as_success :
    (importDocumentJson taggedParse losingServer taggedText "b" [] 0 none
        ⟨Store.fresh, 0⟩).1.1 = .ret .ok ∧
      (importDocumentJson taggedParse losingServer taggedText "b" [] 0 none
        ⟨Store.fresh, 0⟩).2.store.objectProperties = [] ∧
      ¬ ∀ a ∈ attempts taggedParse losingServer taggedText "b" [] 0 ⟨Store.fresh, 0⟩,
        a.code.IsOk :=
  ⟨by decide, by decide, by decide⟩

theorem all_written_iff_tagged :
    PropertiesWritten .ideal (attempts taggedParse .ideal taggedText "b" [] 0 ⟨Store.fresh, 0⟩) ∧
      ∀ a ∈ attempts taggedParse .ideal taggedText "b" [] 0 ⟨Store.fresh, 0⟩, a.code.IsOk := by
  have hok : (importDocumentJson taggedParse .ideal taggedText "b" [] 0 none
      ⟨Store.fresh, 0⟩).1.1 = .ret .ok := by decide
  have hwritten : PropertiesWritten .ideal
      (attempts taggedParse .ideal taggedText "b" [] 0 ⟨Store.fresh, 0⟩) := fun _ _ _ => rfl
  exact ⟨hwritten, (all_written_iff .fresh 0 hok).mpr hwritten⟩

end ImportReports
