import ProvCpl.ExportShape
import ProvCpl.ImportLog
import ProvCpl.RoundTrip

/-! # The objects of an imported bundle

The membership of an object in a bundle is not stored: the listing joins the relations of the
bundle with the objects at their ends. So of the objects that an import creates it reports
those that the records of the document name. -/
namespace BundleMembers

open CplTypes QualifiedName JsonValue ProvStore ProvServer ServerSpecs ImportDocument
open ImportFrame ImportAccepts ImportGraph ImportLog ExportDocument ExportShape RoundTrip
open ValidateDocument EarlyExit ProgramLog

structure CreatedObject where
  type : ℤ
  name : String
  id : ℕ
  deriving DecidableEq, Repr

def objectOf (a : Attempt) : Option CreatedObject :=
  match a.write, a.id with
  | .object type e, some id => some ⟨type, e.1, id⟩
  | _, _ => none

def objectsIn (log : List Attempt) : List CreatedObject := log.filterMap objectOf

def CreatedObject.origin (k : CreatedObject) : ℤ × String := (k.type, k.name)

/-- The first of the objects created under its name, which the records mean by that name. -/
def Registered (created : List CreatedObject) (k : CreatedObject) : Prop :=
  created.find? (fun c => c.name = k.name) = some k

def Joined (t : Store) (b id : ℕ) : Prop :=
  ∃ r ∈ t.bundleRelations b, r.fromId = some id ∨ r.toId = some id

theorem mem_bundleRelations {t : Store} {b : ℕ} {r : RelationRow} :
    r ∈ t.bundleRelations b ↔ r ∈ t.relations ∧
      ∃ m ∈ t.relations, m.fromId = some b ∧ m.type = some bundleRelation ∧ m.toId = some r.id := by
  simp only [Store.bundleRelations, Store.memberships, List.mem_flatMap, List.mem_filter,
    decide_eq_true_eq]
  constructor
  · rintro ⟨m, ⟨hm, hf, ht⟩, hr, ho⟩
    exact ⟨hr, m, hm, hf, ht, ho⟩
  · rintro ⟨hr, m, hm, hf, ht, ho⟩
    exact ⟨m, ⟨hm, hf, ht⟩, hr, ho⟩

theorem Joined.mono {t t' : Store} {b id : ℕ} (h : Joined t b id)
    (hsub : ∀ r ∈ t.relations, r ∈ t'.relations) : Joined t' b id := by
  obtain ⟨r, hr, hend⟩ := h
  obtain ⟨hr, m, hm, hrest⟩ := mem_bundleRelations.mp hr
  exact ⟨r, mem_bundleRelations.mpr ⟨hsub r hr, m, hsub m hm, hrest⟩, hend⟩

theorem joined_of_rows {t : Store} {b f o rid mid : ℕ} {type : ℤ}
    (hr : (⟨rid, some f, some o, some type⟩ : RelationRow) ∈ t.relations)
    (hm : (⟨mid, some b, some rid, some bundleRelation⟩ : RelationRow) ∈ t.relations) :
    Joined t b f ∧ Joined t b o := by
  have hmem := mem_bundleRelations.mpr ⟨hr, _, hm, rfl, rfl, rfl⟩
  exact ⟨⟨_, hmem, Or.inl rfl⟩, ⟨_, hmem, Or.inr rfl⟩⟩

/-- The rows of the objects created, and of the relations that join the objects of names. -/
structure Rows (created : List CreatedObject) (tbl : LookupTable) (b : ℕ) (names : List String)
    (t : Store) : Prop where
  reachable : t.Reachable
  stored : ∀ k ∈ created, ∃ r ∈ t.objects, r.id = k.id ∧ NamedRow k.origin r
  joined : ∀ n ∈ names, ∀ id, OrderedMap.find n tbl = some id → Joined t b id

variable {created : List CreatedObject} {tbl : LookupTable} {b : ℕ} {names : List String}
  {t : Store}

theorem Rows.insertObject (h : Rows created tbl b names t) (p n : String) {type : ℤ} (now : ℕ)
    (ht : EnsureOType type) : Rows created tbl b names (t.insertObject p n type now) where
  reachable := .createObject p n type now ht h.reachable
  stored := fun k hk => by
    obtain ⟨r, hr, hrest⟩ := h.stored k hk
    exact ⟨r, List.mem_append_left _ hr, hrest⟩
  joined := fun n hn id hf => (h.joined n hn id hf).mono fun _ hr => hr

theorem Rows.insertRelation (h : Rows created tbl b names t) {f o : ℕ} {type : ℤ} (hf : f ≠ 0)
    (ho : o ≠ 0) (ht : EnsureRType type) :
    Rows created tbl b names (t.insertRelation f o type) where
  reachable := .addRelation f o type hf ho ht h.reachable
  stored := h.stored
  joined := fun n hn id hf => (h.joined n hn id hf).mono fun _ hr => List.mem_append_left _ hr

theorem Rows.begin (h : Rows created [] 0 [] t) (tbl : LookupTable) (b : ℕ) :
    Rows created tbl b [] t :=
  { h with joined := by simp }

theorem importClosed_rows (created : List CreatedObject) (tbl : LookupTable) (b : ℕ)
    (names : List String) : ImportClosed (Rows created tbl b names) 0 0 where
  next := fun _ _ => ⟨Nat.zero_le _, Nat.zero_le _⟩
  object := fun _ p n t now ht h => h.insertObject p n now ht
  relation := fun _ f o t hf ho ht h => h.insertRelation hf ho ht
  objectProperty := fun _ _ r _ h0 _ he h => by
    have hreach := h.reachable.addObjectProperty r h0 he
    obtain ⟨-, rfl⟩ := insertObjectProperty_eq he
    exact ⟨hreach, h.stored, h.joined⟩
  relationProperty := fun _ _ r _ h0 _ he h => by
    have hreach := h.reachable.addRelationProperty r h0 he
    obtain ⟨-, rfl⟩ := insertRelationProperty_eq he
    exact ⟨hreach, h.stored, h.joined⟩
  prefixRow := fun _ _ r _ h0 he h => by
    have hreach := h.reachable.addPrefix r h0 he
    obtain ⟨-, rfl⟩ := insertPrefix_eq he
    exact ⟨hreach, h.stored, h.joined⟩

def Registers (created : List CreatedObject) (tbl : LookupTable) : Prop :=
  ∀ n, OrderedMap.find n tbl = (created.find? fun c => c.name = n).map (·.id)

theorem Registers.emplace (h : Registers created tbl) (k : CreatedObject) :
    Registers (created ++ [k]) (OrderedMap.emplace k.name k.id tbl) := by
  intro n
  rw [OrderedMap.find_emplace, List.find?_append]
  by_cases hn : n = k.name
  · subst hn
    rw [if_pos rfl, h]
    cases created.find? fun c => c.name = k.name <;> simp
  · have hne : ¬ k.name = n := fun he => hn he.symm
    rw [if_neg hn, h]
    cases created.find? fun c => c.name = n <;> simp [hne]

/-- The id is the one that the table has for the name, if it has one. -/
def Meant (tbl : LookupTable) (n : String) (id : ℕ) : Prop :=
  ∀ i, OrderedMap.find n tbl = some i → id = i

theorem Rows.join (h : Rows created tbl b names t) {m n : String} {f o rid mid : ℕ} {type : ℤ}
    (hf : Meant tbl m f) (ho : Meant tbl n o)
    (hr : (⟨rid, some f, some o, some type⟩ : RelationRow) ∈ t.relations)
    (hm : (⟨mid, some b, some rid, some bundleRelation⟩ : RelationRow) ∈ t.relations) :
    Rows created tbl b (names ++ [m, n]) t := by
  refine { h with joined := fun c hc id hid => ?_ }
  have hends := joined_of_rows hr hm
  simp only [List.mem_append, List.mem_cons, List.not_mem_nil, or_false] at hc
  rcases hc with hc | rfl | rfl
  · exact h.joined c hc id hid
  · exact hf id hid ▸ hends.1
  · exact ho id hid ▸ hends.2

theorem endpointNames_concat (recs : List Record) (r : Record) :
    endpointNames (recs ++ [r]) = endpointNames recs ++ [r.source, r.dest] := by
  simp [endpointNames]

section Importer

variable {srv : Server} {I : Store → Prop}

theorem keeps_importEndpoint_found (tbl : LookupTable) (externObjF : Bool) (record : Json)
    (key : String) (type : ℤ) :
    Keeps I (importEndpoint srv tbl externObjF record key type)
      (Meant tbl (endpointName record key)) := by
  refine maintains_weaken (keeps_importEndpoint_value tbl externObjF record key type) ?_
  rintro id ⟨n, hn, hid⟩ i hi
  rw [endpointName_of_string hn] at hi
  rcases hid with hid | ⟨hnone, -⟩
  · exact Option.some.inj (hid.symm.trans hi)
  · cases hnone.symm.trans hi

theorem addRelation_adds {w : World} {f o : ℕ} {type : ℤ}
    (hok : (srv.addRelation f o type w).1.1.IsOk) :
    ∃ id, (srv.addRelation f o type w).1.2 = some id ∧
      (⟨id, some f, some o, some type⟩ : RelationRow) ∈
        (srv.addRelation f o type w).2.store.relations := by
  obtain ⟨-, -, -, hid, hstore⟩ := addRelation_ok hok
  refine ⟨_, hid, ?_⟩
  rw [hstore]
  exact List.mem_append_right _ (List.mem_singleton_self _)

theorem ensures_importRelation_joins (externObjF : Bool) (d : ProvRelationData)
    (e : String × Json) :
    Ensures (Rows created tbl b names) (importRelation srv b tbl externObjF d e) fun _ =>
      Rows created tbl b (names ++ [endpointName e.2 d.sourceStr, endpointName e.2 d.destStr]) := by
  let names' := names ++ [endpointName e.2 d.sourceStr, endpointName e.2 d.destStr]
  have hrows : ∀ t f o type, f ≠ 0 → o ≠ 0 → EnsureRType type → Rows created tbl b names t →
      Rows created tbl b names (t.insertRelation f o type) :=
    fun t f o type hf ho ht h => h.insertRelation hf ho ht
  refine ensures_bind (Q := fun f t => Rows created tbl b names t ∧
      Meant tbl (endpointName e.2 d.sourceStr) f)
    (ensures_of_keeps_value (keeps_importEndpoint_found tbl externObjF e.2 d.sourceStr d.sourceT))
    fun f => ?_
  refine ensures_bind (Q := fun o t => Rows created tbl b names t ∧
      Meant tbl (endpointName e.2 d.sourceStr) f ∧ Meant tbl (endpointName e.2 d.destStr) o)
    (ensures_conseq (ensures_frame (ensures_of_keeps_value
      (keeps_importEndpoint_found tbl externObjF e.2 d.destStr d.destT))) (fun _ ht => ht)
      fun _ _ ht => ⟨ht.1.1, ht.2, ht.1.2⟩) fun o => ?_
  refine ensures_bind (Q := fun id t => Rows created tbl b names t ∧
      (Meant tbl (endpointName e.2 d.sourceStr) f ∧ Meant tbl (endpointName e.2 d.destStr) o) ∧
      (⟨id, some f, some o, some d.type⟩ : RelationRow) ∈ t.relations)
    (ensures_requireId fun w hw hok id hid => ?_) fun id => ?_
  · obtain ⟨id', hid', hrow⟩ := addRelation_adds hok
    obtain rfl : id' = id := Option.some.inj (hid'.symm.trans hid)
    exact ⟨addRelation_keeps (fun s => hrows s f o d.type) hw.1, hw.2, hrow⟩
  refine ensures_bind (Q := fun _ => Rows created tbl b names')
    (ensures_requireOk fun w hw hok => ?_) fun _ => ?_
  · obtain ⟨mid, -, hmember⟩ := addRelation_adds hok
    have hrelation : ⟨id, some f, some o, some d.type⟩ ∈
        (srv.addRelation b id bundleRelation w).2.store.relations :=
      addRelation_keeps (I := fun s => _ ∈ s.relations)
        (fun s _ _ _ hs => List.mem_append_left _ hs) hw.2.2
    exact (addRelation_keeps (fun s => hrows s b id bundleRelation) hw.1).join hw.2.1.1 hw.2.1.2
      hrelation hmember
  · refine ensures_ite (fun _ => ?_) fun _ => ensures_pure fun _ hr => hr
    exact ensures_of_keeps (keeps_importProperties
      ((importClosed_rows created tbl b names').relationWriter (Nat.zero_le _)) _)

theorem ensures_importRelationsJson_joins (document : Json) (externObjF : Bool) :
    Ensures (Rows created tbl b []) (importRelationsJson srv b tbl document externObjF)
      fun _ => Rows created tbl b (endpointNames (recordsOf document)) := by
  have step : ∀ done d, Ensures (Rows created tbl b (endpointNames done))
      (importRelationSection srv b tbl document externObjF d) fun _ =>
        Rows created tbl b (endpointNames (done ++ (records document d).map (recordOf d))) := by
    intro done d
    have h : Ensures (Rows created tbl b
        (endpointNames (done ++ ([] : List (String × Json)).map (recordOf d))))
        (forEach (importRelation srv b tbl externObjF d) (document.membersAt d.typeStr)) fun _ =>
          Rows created tbl b (endpointNames (done ++ (records document d).map (recordOf d))) :=
      ensures_forEach (I := fun es => Rows created tbl b
        (endpointNames (done ++ es.map (recordOf d)))) fun es e => by
          rw [List.map_append, ← List.append_assoc, List.map_singleton, endpointNames_concat]
          exact ensures_importRelation_joins externObjF d e
    rw [importRelationSection_eq]
    exact ensures_ite (fun _ => by simpa using h) fun _ => ensures_leave
  refine ensures_forEach (I := fun done => Rows created tbl b
    (endpointNames (done.flatMap fun d => (records document d).map (recordOf d)))) fun done d => ?_
  rw [List.flatMap_append, List.flatMap_singleton]
  exact step _ d

structure Imported (decl : List (ℤ × String)) (tbl : LookupTable) (t : Store)
    (l : List Attempt) : Prop where
  rows : Rows (objectsIn l) [] 0 [] t
  origins : (objectsIn l).map CreatedObject.origin = decl
  registers : Registers (objectsIn l) tbl

theorem rows_createObject {w : World} {type : ℤ} {n : String} {id : ℕ}
    (h : Rows created tbl b names w.store)
    (hok : (srv.createObject (some (cStr (nameToTokens n).1)) (some (cStr (nameToTokens n).2))
      type w).1.1.IsOk)
    (hid : (srv.createObject (some (cStr (nameToTokens n).1)) (some (cStr (nameToTokens n).2))
      type w).1.2 = some id) :
    Rows (created ++ [⟨type, n, id⟩]) tbl b names (srv.createObject
      (some (cStr (nameToTokens n).1)) (some (cStr (nameToTokens n).2)) type w).2.store := by
  have hold : Rows created tbl b names (srv.createObject (some (cStr (nameToTokens n).1))
      (some (cStr (nameToTokens n).2)) type w).2.store :=
    createObject_keeps (fun s p n now ht hs => hs.insertObject p n now ht) h
  refine { hold with stored := fun k hk => ?_ }
  rcases List.mem_append.mp hk with hk | hk
  · exact hold.stored k hk
  · obtain ⟨-, -, hid', hstore⟩ := createObject_ok hok
    rw [List.mem_singleton.mp hk, hstore]
    exact ⟨_, List.mem_append_right _ (List.mem_singleton_self _),
      Option.some.inj (hid'.symm.trans hid), ⟨rfl, rfl, rfl⟩⟩

theorem created_logObject {known : List CreatedObject} (type : ℤ) (tbl : LookupTable)
    (e : String × Json) :
    LogEnsures (fun t l => Rows known [] 0 [] t ∧ objectsIn l = known)
      (logObject srv type tbl e) fun tbl' t l => ∃ id, tbl' = OrderedMap.emplace e.1 id tbl ∧
        Rows (known ++ [⟨type, e.1, id⟩]) [] 0 [] t ∧
        objectsIn l = known ++ [⟨type, e.1, id⟩] := by
  refine logs_bind (Q := fun id t l => Rows (known ++ [⟨type, e.1, id⟩]) [] 0 [] t ∧
    objectsIn l = known ++ [⟨type, e.1, id⟩]) (logs_logId ?_) fun id => ?_
  · rintro w l ⟨hrows, hl⟩ hok id hid
    refine ⟨rows_createObject hrows hok hid, ?_⟩
    rw [objectsIn, List.filterMap_append, ← objectsIn, hl]
    rfl
  · have hI := importClosed_rows (known ++ [⟨type, e.1, id⟩]) [] 0 []
    refine logs_bind (logs_conj (logs_of_keeps (erases_logProperties _ _ _ _)
      (keeps_importProperties (hI.objects.objectWriter (Nat.zero_le id)) e.2))
      (unselected_logProperties (fun _ _ _ _ => rfl) e.2 _)) fun _ => ?_
    exact logs_pure fun t l h => ⟨id, rfl, h⟩

theorem imported_logObject {decl : List (ℤ × String)} (type : ℤ) (tbl : LookupTable)
    (e : String × Json) :
    LogEnsures (Imported decl tbl) (logObject srv type tbl e)
      fun tbl' => Imported (decl ++ [(type, e.1)]) tbl' := by
  rintro ⟨w, l⟩ hs
  refine (logs_conseq (created_logObject type tbl e) (fun t l h => h)
    fun tbl' t l' h => ?_) (w, l) ⟨hs.rows, rfl⟩
  obtain ⟨id, rfl, hrows, hl⟩ := h
  refine ⟨hl ▸ hrows, ?_, hl ▸ hs.registers.emplace ⟨type, e.1, id⟩⟩
  rw [hl, List.map_append, hs.origins]
  rfl

theorem imported_logObjectsJson {decl : List (ℤ × String)} (type : ℤ) (typeStr : String)
    (tbl : LookupTable) (document : Json) :
    LogEnsures (Imported decl tbl) (logObjectsJson srv type typeStr tbl document)
      fun tbl' => Imported
        (decl ++ (document.membersAt typeStr).map fun e => (type, e.1)) tbl' := by
  have h : LogEnsures (Imported (decl ++ ([] : List (String × Json)).map fun e => (type, e.1)) tbl)
      (fold (logObject srv type) tbl (document.membersAt typeStr)) fun tbl' => Imported
        (decl ++ (document.membersAt typeStr).map fun e => (type, e.1)) tbl' :=
    logs_fold (I := fun (done : List (String × Json)) tbl =>
      Imported (decl ++ done.map fun e => (type, e.1)) tbl) fun done e tbl _ => by
        rw [List.map_append, List.map_singleton, ← List.append_assoc]
        exact imported_logObject type tbl e
  exact logs_ite (fun _ => by simpa using h) fun _ => logs_leave

theorem imported_of_unselected {α : Type} {m : Logged α} {n : Api α} {R : α → Prop}
    {decl : List (ℤ × String)} (he : Erases m n)
    (hk : ∀ created, Keeps (Rows created [] 0 []) n R) (hu : Unselected objectOf m) :
    LogEnsures (Imported decl tbl) m fun _ => Imported decl tbl := by
  rintro ⟨w, l⟩ hs
  refine (logs_conseq (logs_conj (logs_of_keeps he (hk (objectsIn l))) (hu (objectsIn l)))
    (fun t l h => h) fun _ t l' h => ?_) (w, l) ⟨hs.rows, rfl⟩
  have hl : objectsIn l' = objectsIn l := h.2
  exact ⟨hl ▸ h.1, hl ▸ hs.origins, hl ▸ hs.registers⟩

structure ImportedBundle (document : Json) (b : ℕ) (t : Store) (l : List Attempt) : Prop where
  bundle : b ≠ 0
  origins : (objectsIn l).map CreatedObject.origin = declared document
  rows : ∃ tbl, Registers (objectsIn l) tbl ∧
    Rows (objectsIn l) tbl b (endpointNames (recordsOf document)) t

theorem imported_logRelationsJson {decl : List (ℤ × String)} (b : ℕ) (document : Json)
    (externObjF : Bool) (hb : b ≠ 0) (hdecl : decl = declared document) :
    LogEnsures (Imported decl tbl) (logRelationsJson srv b tbl document externObjF)
      fun _ => ImportedBundle document b := by
  rintro ⟨w, l⟩ hs
  have hu : Unselected objectOf (logRelationsJson srv b tbl document externObjF) :=
    unselected_logRelationsJson (fun _ _ _ _ _ => rfl) (fun _ _ _ _ => rfl)
      (fun _ _ _ _ _ => rfl) b tbl document externObjF
  refine (logs_conseq (logs_conj (logs_of_erases (erases_logRelationsJson b tbl document externObjF)
    (ensures_importRelationsJson_joins document externObjF)) (hu (objectsIn l)))
    (fun t l h => h) fun _ t l' h => ?_) (w, l) ⟨hs.rows.begin tbl b, rfl⟩
  have hl : objectsIn l' = objectsIn l := h.2
  exact ⟨hb, hl ▸ hs.origins.trans hdecl, tbl, hl ▸ hs.registers, hl ▸ h.1⟩

theorem imported_logStage (document : Json) (bundleName : String) :
    LogEnsures (fun t l => t.Reachable ∧ l = []) (logStage srv document bundleName)
      fun out t l => Imported (declared document) out.2 t l ∧ out.1 ≠ 0 := by
  refine logs_bind (Q := fun b t l => Imported [] [] t l ∧ b ≠ 0) (logs_logId ?_)
    fun b => logs_assume fun hb => ?_
  · rintro w l ⟨hreach, rfl⟩ - id hid
    have hrows : Rows [] [] 0 [] w.store := ⟨hreach, by simp, by simp⟩
    constructor
    · exact ⟨createObject_keeps (fun s p n now ht hs => hs.insertObject p n now ht) hrows, rfl,
        fun _ => rfl⟩
    · refine createObject_value (I := Store.Reachable) (Q := (· ≠ 0)) (fun s p n now ht hs =>
        ⟨.createObject p n cplBundle now ht hs, ?_⟩) hreach id hid
      exact Nat.pos_iff_ne_zero.mp hs.valid.next_object
  refine logs_bind (imported_of_unselected (erases_logBundlePrefixesJson b document)
    (fun created => keeps_importBundlePrefixesJson (fun s s' r _ h0 he h =>
      (importClosed_rows created [] 0 []).prefixRow s s' r (Nat.zero_le _) h0 he h) document)
    (unselected_logBundlePrefixesJson (fun _ _ _ _ => rfl) b document)) fun _ => ?_
  refine logs_bind (imported_logObjectsJson _ _ _ _) fun tbl1 => ?_
  refine logs_bind (imported_logObjectsJson _ _ _ _) fun tbl2 => ?_
  refine logs_bind (imported_logObjectsJson _ _ _ _) fun tbl3 => ?_
  exact logs_pure fun t l h => ⟨by simpa [declared, objectSections] using h, hb⟩

/-- The records are imported when the members have been, and nothing has been selected yet. -/
theorem logContents_records {κ : Type} {f : Attempt → Option κ} (hf : OfRecords f)
    (document : Json) (bundleName : String) (anchors : List (ℕ × String)) (externObjF : Bool)
    {Q : ℕ → Store → List Attempt → Prop}
    (hrecords : ∀ b tbl, b ≠ 0 →
      LogEnsures (fun t l => Imported (declared document) tbl t l ∧ l.filterMap f = [])
        (logRelationsJson srv b tbl document externObjF) fun _ => Q b) :
    LogEnsures (fun t l => t.Reachable ∧ l = [])
      (logContents srv document bundleName anchors externObjF) Q := by
  have hI := fun created => importClosed_rows created [] 0 []
  have hstage := logs_conj (imported_logStage document bundleName)
    (unselected_logStage hf.bundle hf.bundlePrefix hf.object hf.objectProperty srv document
      bundleName [])
  rw [logContents_stage]
  refine logs_bind (Q := fun out t l => (Imported (declared document) out.2 t l ∧
    l.filterMap f = []) ∧ out.1 ≠ 0) (logs_conseq hstage (fun t l h => ⟨h, by rw [h.2]; rfl⟩)
      fun out t l h => ⟨⟨h.1.1, h.2⟩, h.1.2⟩) fun out => logs_assume fun hb => ?_
  refine logs_bind (logs_conj (imported_of_unselected
    (erases_forEach (erases_logAnchor out.1) anchors)
    (fun created => maintains_forEach fun a _ => keeps_connectAnchor (hI created).relations a)
    (unselected_forEach (fun a => unselected_logAnchor (fun _ _ _ _ => rfl)
      (fun _ _ _ _ => rfl) out.1 a) anchors))
    (unselected_forEach (fun a => unselected_logAnchor hf.anchor hf.membership out.1 a) anchors []))
    fun _ => ?_
  exact logs_bind (hrecords out.1 out.2 hb) fun _ => logs_pure fun _ _ h => h

theorem imported_logContents (document : Json) (bundleName : String)
    (anchors : List (ℕ × String)) (externObjF : Bool) :
    LogEnsures (fun t l => t.Reachable ∧ l = [])
      (logContents srv document bundleName anchors externObjF) (ImportedBundle document) := by
  apply logContents_records (f := fun _ => (none : Option Unit))
  · constructor <;> intros <;> intro _ _ _ <;> rfl
  · intro b tbl hb
    exact logs_weaken (fun _ _ h => h.1)
      (imported_logRelationsJson b document externObjF hb rfl)

theorem importedBundle_of_ok {parse : String → Option Json} {jsonString bundleName : String}
    {anchors : List (ℕ × String)} {flags : ℤ} {document : Json} {s : Store} (hs : s.Reachable)
    {calls v b : ℕ} {w' : World} (hp : parse jsonString = some document)
    (h : importDocumentJson parse srv jsonString bundleName anchors flags (some v) ⟨s, calls⟩ =
      ((.ret .ok, some b), w')) :
    ImportedBundle document b w'.store
      (attempts parse srv jsonString bundleName anchors flags ⟨s, calls⟩) := by
  obtain ⟨b', hlog, hb⟩ := logged_of_ok hp
    (imported_logContents document bundleName anchors _) ⟨hs, rfl⟩
    (congrArg (fun out => out.1.1) h)
  rw [h] at hlog hb
  obtain rfl : b = b' := Option.some.inj hb
  exact hlog

end Importer

theorem bundleObjects_info {t : Store} (ht : t.Reachable) {b : ℕ} {c : ObjectRow}
    (hc : c ∈ t.bundleObjects b) : c.id ≠ 0 ∧ (ObjectRow.info c).isSome := by
  obtain ⟨hmem, r, hr, hend⟩ := mem_bundleObjects.mp hc
  have hends := ht.columns.ends (mem_bundleRelations.mp hr).1
  have hid : c.id ≠ 0 := by
    intro h0
    rw [h0] at hend
    exact hend.elim hends.1 hends.2
  obtain ⟨p, n, type, -, hp, hn, htype⟩ := ht.columns.objects c hmem hid
  exact ⟨hid, by rw [ObjectRow.info, hp, hn, htype]; rfl⟩

def Lists (objs : List ObjectInfo) (document : Json) : Prop :=
  ∀ o ∈ objs, ∀ u ∈ objectSections, o.type = u.1 →
    objectName o ∈ OrderedMap.keys (document.membersAt u.2)

theorem lists_of_objectDocument {objs : List ObjectInfo} {document : Json}
    (h : ObjectDocument objs document) : Lists objs document :=
  fun o ho u hu htype => (h.names u hu _).mpr ⟨o, ho, htype, rfl⟩

section Exporter

variable {srv : Server} {t : Store} {b : ℕ} (hsrv : Reliable srv) (ht : t.Reachable) (hb : b ≠ 0)

include hsrv ht hb

theorem keeps_exportObjectsJson :
    Keeps (· = t) (exportObjectsJson srv [b] ([], .null)) fun out =>
      Names (nameOf t) ((t.bundleObjects b).map (·.id)) out.1 ∧
        ObjectDocument ((t.bundleObjects b).filterMap ObjectRow.info) out.2 := by
  have hinfo : ∀ c ∈ t.bundleObjects b, (ObjectRow.info c).isSome :=
    fun c hc => (bundleObjects_info ht hc).2
  have hlist := succeeds_listing hsrv hb (t := t) (fun s => s.bundleObjects b) hinfo
  refine maintains_bind (keeps_of_succeeds hlist) fun objs hperm => ?_
  refine maintains_weaken (maintains_fold (T := fun done out =>
    Names (nameOf t) (done.map (·.id)) out.1 ∧ ObjectDocument done out.2)
    ⟨fun _ => rfl, objectDocument_nil⟩ fun done o out ho hdone => ?_) fun out hout => ?_
  · refine maintains_weaken (keeps_exportObject (I := (· = t)) out o) ?_
    rintro _ ⟨properties, -, rfl⟩
    obtain ⟨c, hc, hco⟩ := List.mem_filterMap.mp (hperm.mem_iff.mp ho)
    have hname := nameOf_row ht.valid (mem_bundleObjects.mp hc).1 hco
    rw [← info_id hco] at hname
    rw [List.map_append, ← hname]
    exact ⟨hdone.1.emplace o.id, hname ▸ hdone.2.assign o properties⟩
  · have hids := hperm.map (·.id)
    rw [filterMap_ids (fun r : ObjectRow => r.id) info_id hinfo] at hids
    exact ⟨hout.1.perm hids, hout.2.perm hperm⟩

theorem keeps_exportBundleJson (dump : Json → String) :
    Keeps (· = t) (exportBundleJson dump srv [b]) fun text => ∃ document, text = dump document ∧
      Lists ((t.bundleObjects b).filterMap ObjectRow.info) document := by
  have hbundle : Keeps (· = t) (exportBundle srv ([], .null) b) fun out =>
      Lists ((t.bundleObjects b).filterMap ObjectRow.info) out.2 := by
    refine maintains_bind (keeps_exportObjectsJson hsrv ht hb) fun out hout => ?_
    refine maintains_bind (keeps_exportRelationsJson_objects (I := (· = t)) b out.1 out.2)
      fun document hdocument => maintains_pure ?_
    intro o ho u hu htype
    rw [hdocument u hu]
    exact lists_of_objectDocument hout.2 o ho u hu htype
  exact maintains_bind (maintains_bind hbundle fun out hout => maintains_pure hout)
    fun out hout => maintains_pure ⟨out.2, rfl, hout⟩

end Exporter

/-- The object of a member is in the bundle: it is listed, and any export that returns has
written it. -/
structure InBundle (reader : Server) (w : World) (b : ℕ) (k : CreatedObject) : Prop where
  info : ∃ o : ObjectInfo, o.id = k.id ∧ o.type = k.type ∧
    (FitsColumns k.name → objectName o = k.name) ∧
    (∃ es, (reader.getBundleObjects b w).1 = (.ok, es) ∧ o ∈ es) ∧
    ∀ dump text w', exportBundleJson dump reader [b] w = (.ok text, w') →
      ∃ document, text = dump document ∧ ∀ u ∈ objectSections, k.type = u.1 →
        objectName o ∈ OrderedMap.keys (document.membersAt u.2)

theorem namedRow_read {d : ℤ × String} {r : ObjectRow} (h : NamedRow d r) :
    ∃ o, ObjectRow.info r = some o ∧ o.id = r.id ∧ o.type = d.1 := by
  rw [ObjectRow.info, h.nsPrefix, h.name, h.type]
  exact ⟨_, rfl, rfl, rfl⟩

theorem inBundle_of_row {reader : Server} (hr : Reliable reader) {w : World}
    (ht : w.store.Reachable) {b : ℕ} (hb : b ≠ 0) {k : CreatedObject} {c : ObjectRow}
    (hc : c ∈ w.store.bundleObjects b) (hid : c.id = k.id) (hrow : NamedRow k.origin c) :
    InBundle reader w b k := by
  obtain ⟨o, ho, hoid, htype⟩ := namedRow_read hrow
  have hmem : o ∈ (w.store.bundleObjects b).filterMap ObjectRow.info :=
    List.mem_filterMap.mpr ⟨c, hc, ho⟩
  refine ⟨o, hoid.trans hid, htype, fun hfit => ?_, ?_, fun dump text w' hrun => ?_⟩
  · obtain ⟨o', ho', hname, -⟩ := namedRow_info hrow hfit
    obtain rfl : o = o' := Option.some.inj (ho.symm.trans ho')
    exact hname
  · have hread : readAll ObjectRow.info (reader.scan w.calls (w.store.bundleObjects b)) =
        some ((reader.scan w.calls (w.store.bundleObjects b)).filterMap ObjectRow.info) :=
      readAll_eq_filterMap fun r hr =>
        (bundleObjects_info ht ((reader.scan_perm _ _).mem_iff.mp hr)).2
    have hlisted : o ∈ (reader.scan w.calls (w.store.bundleObjects b)).filterMap ObjectRow.info :=
      ((reader.scan_perm _ _).filterMap ObjectRow.info).mem_iff.mpr hmem
    refine ⟨_, ?_, hlisted⟩
    rw [Server.getBundleObjects, Server.cplOdbcGetBundleObjects, list_reliable hr hb, hread]
    cases hes : (reader.scan w.calls (w.store.bundleObjects b)).filterMap ObjectRow.info with
    | nil => rw [hes] at hlisted; cases hlisted
    | cons e es => rfl
  · have hkeeps := keeps_exportBundleJson hr ht hb dump w rfl
    rw [hrun] at hkeeps
    obtain ⟨-, document, htext, hlists⟩ := hkeeps
    exact ⟨document, htext, fun u hu hk => hlists o hmem u hu (htype.trans hk)⟩

/-- After an import that reports success, every member that is the first of its name and is
named at an end of a record has its object in the bundle. -/
theorem related_members_in_bundle {parse : String → Option Json} (srv : Server) {reader : Server}
    (hr : Reliable reader) {s : Store} (hs : s.Reachable) {calls : ℕ}
    {jsonString bundleName : String} {anchors : List (ℕ × String)} {flags : ℤ} {document : Json}
    {v b : ℕ} {w' : World} (hp : parse jsonString = some document)
    (h : importDocumentJson parse srv jsonString bundleName anchors flags (some v) ⟨s, calls⟩ =
      ((.ret .ok, some b), w')) :
    let created := objectsIn (attempts parse srv jsonString bundleName anchors flags ⟨s, calls⟩)
    created.map CreatedObject.origin = declared document ∧
      ∀ k ∈ created, Registered created k → k.name ∈ relatedNames document →
        InBundle reader w' b k := by
  have himported := importedBundle_of_ok hs hp h
  obtain ⟨tbl, hreg, hrows⟩ := himported.rows
  refine ⟨himported.origins, fun k hk hfirst hname => ?_⟩
  obtain ⟨c, hc, hid, hrow⟩ := hrows.stored k hk
  have hfind : OrderedMap.find k.name tbl = some c.id := by
    rw [hreg, hfirst, Option.map_some, hid]
  rw [← endpointNames_recordsOf] at hname
  have hjoined := hrows.joined k.name hname c.id hfind
  exact inBundle_of_row hr hrows.reachable himported.bundle (mem_bundleObjects.mpr ⟨hc, hjoined⟩)
    hid hrow

theorem usage_objectsIn : objectsIn
    (attempts usageParse .ideal usageText "b" [] 0 ⟨Store.fresh, 0⟩) =
      [⟨cplEntity, "e", 2⟩, ⟨cplActivity, "a", 3⟩] := by decide +kernel

theorem related_members_in_bundle_usage :
    let w := (importDocumentJson usageParse .ideal usageText "b" [] 0 (some 0) ⟨Store.fresh, 0⟩).2
    InBundle .ideal w 1 ⟨cplEntity, "e", 2⟩ ∧ InBundle .ideal w 1 ⟨cplActivity, "a", 3⟩ := by
  intro w
  have hrun : importDocumentJson usageParse .ideal usageText "b" [] 0 (some 0) ⟨Store.fresh, 0⟩ =
      ((.ret .ok, some 1), w) := Prod.ext (by decide) rfl
  have hnames : "e" ∈ relatedNames (.object usageMembers) ∧
      "a" ∈ relatedNames (.object usageMembers) := by decide
  have h := (related_members_in_bundle .ideal Server.ideal_reliable Store.Reachable.fresh
    (if_pos rfl) hrun).2
  rw [usage_objectsIn] at h
  exact ⟨h _ (by decide) (by unfold Registered; decide) hnames.1,
    h _ (by decide) (by unfold Registered; decide) hnames.2⟩

/-- A text and its parse: one entity and no records. -/
def loneText : String := "\x7b\"entity\": \x7b\"e\": \x7b\x7d\x7d\x7d"

def loneParse (text : String) : Option Json :=
  if text = loneText then some (.object [("entity", .object [("e", .object [])])]) else none

/-- An entity that no record names is created but not in the bundle. -/
theorem unrelated_member_not_in_bundle :
    let out := importDocumentJson loneParse .ideal loneText "b" [] 0 (some 0) ⟨Store.fresh, 0⟩
    out.1 = (.ret .ok, some 1) ∧
      objectsIn (attempts loneParse .ideal loneText "b" [] 0 ⟨Store.fresh, 0⟩) =
        [⟨cplEntity, "e", 2⟩] ∧
      (Server.ideal.getBundleObjects 1 out.2).1 = (.noData, []) :=
  ⟨by decide, by decide, by decide⟩

end BundleMembers
