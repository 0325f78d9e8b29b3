import ProvCpl.BundleMembers
import ProvCpl.RecordProperties

/-! # The types at the ends of imported relations

A name at an end of a record is looked for in the table first, which has one id for each name,
that of the first declaration, and is not asked for its type. Only the lookup in the store asks
for the type that the relation demands. -/
namespace EndpointTypes

open CplTypes QualifiedName JsonValue ProvStore ProvServer ServerSpecs ImportDocument
open ImportFrame ImportAccepts ImportGraph ImportLog RecordProperties BundleMembers
open ValidateDocument EarlyExit ProgramLog

/-- The object has the type that is demanded; `CPL_NONE` demands none. -/
def TypedAs (t : Store) (id : ℕ) (type : ℤ) : Prop :=
  type = (cplNone : ℕ) ∨ ∃ r ∈ t.objects, r.id = id ∧ r.type = some type

def Respects (t : Store) (k : CreatedRelation) : Prop :=
  ∃ r ∈ t.relations, r.id = k.id ∧ ∃ f o, r.fromId = some f ∧ r.toId = some o ∧
    TypedAs t f k.entry.sourceT ∧ TypedAs t o k.entry.destT

/-- If the document declares the name, it does so first under this type. -/
def DeclaredAs (document : Json) (n : String) (type : ℤ) : Prop :=
  type = (cplNone : ℕ) ∨
    ∀ d, (declared document).find? (fun d => d.2 = n) = some d → d.1 = type

def EndsDeclared (document : Json) (r : ProvRelationData × (String × Json)) : Prop :=
  DeclaredAs document (endpointName r.2.2 r.1.sourceStr) r.1.sourceT ∧
    DeclaredAs document (endpointName r.2.2 r.1.destStr) r.1.destT

def FoundAs (t : Store) (tbl : LookupTable) (n : String) (type : ℤ) (id : ℕ) : Prop :=
  OrderedMap.find n tbl = some id ∨ OrderedMap.find n tbl = none ∧ TypedAs t id type

def Ended (tbl : LookupTable) (t : Store) (k : CreatedRelation) : Prop :=
  ∃ f o, (⟨k.id, some f, some o, some k.entry.type⟩ : RelationRow) ∈ t.relations ∧
    FoundAs t tbl (endpointName k.record.2 k.entry.sourceStr) k.entry.sourceT f ∧
    FoundAs t tbl (endpointName k.record.2 k.entry.destStr) k.entry.destT o

section Rows

variable {t t' : Store} {tbl : LookupTable} {k : CreatedRelation}

theorem TypedAs.mono {id : ℕ} {type : ℤ} (h : TypedAs t id type)
    (ho : ∀ r ∈ t.objects, r ∈ t'.objects) : TypedAs t' id type := by
  rcases h with h | ⟨r, hr, hid, htype⟩
  · exact Or.inl h
  · exact Or.inr ⟨r, ho r hr, hid, htype⟩

theorem FoundAs.mono {n : String} {id : ℕ} {type : ℤ} (h : FoundAs t tbl n type id)
    (ho : ∀ r ∈ t.objects, r ∈ t'.objects) : FoundAs t' tbl n type id := by
  rcases h with h | ⟨hn, h⟩
  · exact Or.inl h
  · exact Or.inr ⟨hn, h.mono ho⟩

theorem Ended.mono (h : Ended tbl t k) (ho : ∀ r ∈ t.objects, r ∈ t'.objects)
    (hr : ∀ r ∈ t.relations, r ∈ t'.relations) : Ended tbl t' k := by
  obtain ⟨f, o, hrow, hf, hd⟩ := h
  exact ⟨f, o, hr _ hrow, hf.mono ho, hd.mono ho⟩

theorem importClosed_ended (tbl : LookupTable) (known : List CreatedRelation) :
    ImportClosed (fun t => ∀ k ∈ known, Ended tbl t k) 0 0 :=
  importClosed_of_mono fun _ _ ho hr h k hk => (h k hk).mono ho hr

end Rows

section Importer

variable {srv : Server} {known : List CreatedRelation} {tbl : LookupTable}

theorem ensures_importEndpoint_typed {I : Store → Prop} (externObjF : Bool) (record : Json)
    (key : String) (type : ℤ) :
    Ensures I (importEndpoint srv tbl externObjF record key type)
      fun id t => I t ∧ FoundAs t tbl (endpointName record key) type id := by
  refine ensures_conseq (ensures_importEndpoint_value externObjF record key type)
    (fun _ h => h) ?_
  rintro id t ⟨ht, n, hn, hid⟩
  rw [endpointName_of_string hn]
  refine ⟨ht, ?_⟩
  rcases hid with hid | ⟨hnone, -, calls, hid⟩
  · exact Or.inl hid
  · right
    refine ⟨hnone, ?_⟩
    obtain ⟨r, hr, rfl⟩ := lookupObject_value hid
    by_cases htype : type = (cplNone : ℕ)
    · exact Or.inl htype
    · simp only [Store.objectsNamed, List.mem_filter, decide_eq_true_eq] at hr
      exact Or.inr ⟨r, hr.1, rfl, hr.2.2.2 htype⟩

theorem ended_logRelation (bundleId : ℕ) (externObjF : Bool) (d : ProvRelationData)
    (e : String × Json) :
    LogEnsures (fun t l => (∀ k ∈ known, Ended tbl t k) ∧ relationsIn l = known)
      (logRelation srv bundleId tbl externObjF d e)
      fun _ t l => ∃ id, (∀ k ∈ known ++ [⟨d, e, id⟩], Ended tbl t k) ∧
        relationsIn l = known ++ [⟨d, e, id⟩] := by
  have hend : ∀ (I : Store → Prop) key type, LogEnsures (fun t l => I t ∧ relationsIn l = known)
      (quiet (importEndpoint srv tbl externObjF e.2 key type)) fun id t l =>
        (I t ∧ FoundAs t tbl (endpointName e.2 key) type id) ∧ relationsIn l = known :=
    fun I key type => logs_conj (Q := fun id t _ => I t ∧ FoundAs t tbl _ type id)
      (logs_of_erases (erases_quiet _) (ensures_importEndpoint_typed externObjF e.2 key type))
      (unselected_quiet _ known)
  refine logs_bind (hend _ d.sourceStr d.sourceT) fun f => ?_
  refine logs_bind (hend _ d.destStr d.destT) fun o => ?_
  refine logs_bind (Q := fun id t l => (∀ k ∈ known ++ [⟨d, e, id⟩], Ended tbl t k) ∧
    relationsIn l = known ++ [⟨d, e, id⟩]) (logs_logId ?_) fun id => ?_
  · rintro w l ⟨⟨⟨hknown, hf⟩, ho⟩, hl⟩ hok id hid
    obtain ⟨id', hid', hrow⟩ := addRelation_adds hok
    obtain rfl : id' = id := Option.some.inj (hid'.symm.trans hid)
    have hobjects : ∀ r ∈ w.store.objects, r ∈ (srv.addRelation f o d.type w).2.store.objects :=
      fun r hr => addRelation_keeps (I := fun s => r ∈ s.objects) (fun _ _ _ _ hs => hs) hr
    constructor
    · intro k hk
      rcases List.mem_append.mp hk with hk | hk
      · exact addRelation_keeps (fun s hf ho ht =>
          (importClosed_ended tbl known).relation s f o d.type hf ho ht) hknown k hk
      · rw [List.mem_singleton.mp hk]
        exact ⟨f, o, hrow, hf.mono hobjects, ho.mono hobjects⟩
    · rw [relationsIn, List.filterMap_append, ← relationsIn, hl]
      rfl
  · have hI := importClosed_ended tbl (known ++ [⟨d, e, id⟩])
    refine logs_bind (logs_conj
      (logs_of_keeps erases_logOk (keeps_addMembership hI.relations id))
      (unselected_logOk (fun _ _ _ => rfl) _ _)) fun _ => logs_ite (fun _ => ?_) fun _ => ?_
    · refine logs_conseq (logs_conj (logs_of_keeps (erases_logProperties _ _ _ _)
        (keeps_importProperties (hI.relationWriter (Nat.zero_le id)) e.2))
        (unselected_logProperties (fun _ _ _ _ => rfl) e.2 _)) (fun _ _ h => h) ?_
      exact fun _ t l h => ⟨id, h⟩
    · exact logs_pure fun t l h => ⟨id, h⟩

structure AllEnded (tbl : LookupTable) (recs : List (ProvRelationData × (String × Json)))
    (t : Store) (l : List Attempt) : Prop where
  ended : ∀ k ∈ relationsIn l, Ended tbl t k
  origins : (relationsIn l).map CreatedRelation.origin = recs

theorem allEnded_logRelation {recs : List (ProvRelationData × (String × Json))} (bundleId : ℕ)
    (externObjF : Bool) (d : ProvRelationData) (e : String × Json) :
    LogEnsures (AllEnded tbl recs) (logRelation srv bundleId tbl externObjF d e)
      fun _ => AllEnded tbl (recs ++ [(d, e)]) := by
  rintro ⟨w, l⟩ hs
  refine (logs_conseq (ended_logRelation bundleId externObjF d e) (fun t l h => h)
    fun _ t l' h => ?_) (w, l) ⟨hs.ended, rfl⟩
  obtain ⟨id, hended, hl⟩ := h
  refine ⟨hl ▸ hended, ?_⟩
  rw [hl, List.map_append, hs.origins]
  rfl

theorem allEnded_logRelationsJson (bundleId : ℕ) (document : Json) (externObjF : Bool) :
    LogEnsures (AllEnded tbl []) (logRelationsJson srv bundleId tbl document externObjF)
      fun _ => AllEnded tbl (documentRecords document) := by
  refine logs_forEach (I := fun done => AllEnded tbl
    (done.flatMap fun d => (records document d).map fun e => (d, e))) fun done d _ => ?_
  refine logs_ite (fun _ => ?_) fun _ => logs_leave
  rw [List.flatMap_append, List.flatMap_singleton]
  have step : ∀ recs, LogEnsures
      (AllEnded tbl (recs ++ ([] : List (String × Json)).map fun e => (d, e)))
      (forEach (logRelation srv bundleId tbl externObjF d) (document.membersAt d.typeStr))
      fun _ => AllEnded tbl (recs ++ (records document d).map fun e => (d, e)) := by
    intro recs
    refine logs_forEach (I := fun es => AllEnded tbl (recs ++ es.map fun e => (d, e)))
      fun es e _ => ?_
    rw [List.map_append, ← List.append_assoc]
    exact allEnded_logRelation bundleId externObjF d e
  simpa using step (done.flatMap fun d => (records document d).map fun e => (d, e))

theorem traced_logContents (srv : Server) (document : Json) (bundleName : String)
    (anchors : List (ℕ × String)) (externObjF : Bool) :
    LogEnsures (fun t l => t.Reachable ∧ l = [])
      (logContents srv document bundleName anchors externObjF) fun _ t l =>
        ∃ tbl, Imported (declared document) tbl t l ∧
          AllEnded tbl (documentRecords document) t l := by
  apply logContents_records (f := relationOf)
  · constructor <;> intros <;> intro _ _ _ <;> rfl
  · intro b tbl _
    have himported : LogEnsures (Imported (declared document) tbl)
        (logRelationsJson srv b tbl document externObjF)
        fun _ => Imported (declared document) tbl :=
      imported_of_unselected (erases_logRelationsJson b tbl document externObjF)
        (fun created => keeps_importRelationsJson (importClosed_rows created [] 0 []).relations
          tbl document externObjF)
        (unselected_logRelationsJson (fun _ _ _ _ _ => rfl) (fun _ _ _ _ => rfl)
          (fun _ _ _ _ _ => rfl) b tbl document externObjF)
    refine logs_conseq (logs_conj himported (allEnded_logRelationsJson b document externObjF))
      (fun t l h => ⟨h.1, ⟨?_, ?_⟩⟩) fun _ t l h => ⟨tbl, h⟩
    · have hl : relationsIn l = [] := h.2
      simp [hl]
    · have hl : relationsIn l = [] := h.2
      rw [hl]
      rfl

theorem traced_of_ok {parse : String → Option Json} {s : Store} (hs : s.Reachable)
    {calls : ℕ} {jsonString bundleName : String} {anchors : List (ℕ × String)} {flags : ℤ}
    {outId : Option ℕ} {document : Json} (hp : parse jsonString = some document)
    (hok : (importDocumentJson parse srv jsonString bundleName anchors flags outId
      ⟨s, calls⟩).1.1 = .ret .ok) :
    ∃ tbl,
      Imported (declared document) tbl
        (importDocumentJson parse srv jsonString bundleName anchors flags outId
          ⟨s, calls⟩).2.store
        (attempts parse srv jsonString bundleName anchors flags ⟨s, calls⟩) ∧
      AllEnded tbl (documentRecords document)
        (importDocumentJson parse srv jsonString bundleName anchors flags outId
          ⟨s, calls⟩).2.store
        (attempts parse srv jsonString bundleName anchors flags ⟨s, calls⟩) := by
  obtain ⟨b, hlog, -⟩ := logged_of_ok hp
    (traced_logContents srv document bundleName anchors _) ⟨hs, rfl⟩ hok
  exact hlog

end Importer

/-- What was found for a name has the type that is demanded exactly when the first declaration
of the name has it. -/
theorem typedAs_iff {document : Json} {tbl : LookupTable} {t : Store} {l : List Attempt}
    (h : Imported (declared document) tbl t l) {n : String} {type : ℤ} {id : ℕ}
    (hfound : FoundAs t tbl n type id) : TypedAs t id type ↔ DeclaredAs document n type := by
  have hfirst : (declared document).find? (fun d => d.2 = n) =
      ((objectsIn l).find? fun k => k.name = n).map CreatedObject.origin := by
    rw [← h.origins, List.find?_map]
    rfl
  have htable := h.registers n
  unfold DeclaredAs
  rw [hfirst]
  rcases hfound with hfound | ⟨hfound, htyped⟩
  · rw [hfound] at htable
    obtain ⟨k, hk, rfl⟩ := Option.map_eq_some_iff.mp htable.symm
    obtain ⟨r, hr, hid, hrow⟩ := h.rows.stored k (List.mem_of_find?_eq_some hk)
    rw [hk]
    constructor
    · rintro (h0 | ⟨q, hq, hqid, hqt⟩)
      · exact Or.inl h0
      · have hqr := List.inj_on_of_nodup_map h.rows.reachable.valid.object_ids hq hr
          (hqid.trans hid.symm)
        rw [hqr, hrow.type] at hqt
        right
        rintro _ ⟨⟩
        exact Option.some.inj hqt
    · rintro (h0 | hd)
      · exact Or.inl h0
      · exact Or.inr ⟨r, hr, hid, hrow.type.trans (congrArg some (hd k.origin rfl))⟩
  · rw [hfound] at htable
    have hnone := Option.map_eq_none_iff.mp htable.symm
    rw [hnone]
    refine iff_of_true htyped (Or.inr ?_)
    rintro d ⟨⟩

theorem respects_iff {document : Json} {tbl : LookupTable} {t : Store} {l : List Attempt}
    (h : Imported (declared document) tbl t l) {k : CreatedRelation} (hk : Ended tbl t k) :
    Respects t k ↔ EndsDeclared document k.origin := by
  obtain ⟨f, o, hrow, hf, ho⟩ := hk
  have hsource := typedAs_iff h hf
  have hdest := typedAs_iff h ho
  constructor
  · rintro ⟨r, hr, hid, f', o', hrf, hro, htf, hto⟩
    have hrr := List.inj_on_of_nodup_map h.rows.reachable.valid.relation_ids hr hrow hid
    rw [hrr] at hrf hro
    obtain rfl := Option.some.inj hrf
    obtain rfl := Option.some.inj hro
    exact ⟨hsource.mp htf, hdest.mp hto⟩
  · rintro ⟨hdf, hdo⟩
    exact ⟨_, hrow, rfl, f, o, rfl, rfl, hsource.mpr hdf, hdest.mpr hdo⟩

theorem respects_iff_of_ok {parse : String → Option Json} {srv : Server} {s : Store}
    (hs : s.Reachable) {calls : ℕ} {jsonString bundleName : String}
    {anchors : List (ℕ × String)} {flags : ℤ} {outId : Option ℕ} {document : Json}
    (hp : parse jsonString = some document)
    (hok : (importDocumentJson parse srv jsonString bundleName anchors flags outId
      ⟨s, calls⟩).1.1 = .ret .ok) :
    let out := importDocumentJson parse srv jsonString bundleName anchors flags outId ⟨s, calls⟩
    let created := relationsIn (attempts parse srv jsonString bundleName anchors flags ⟨s, calls⟩)
    created.map CreatedRelation.origin = documentRecords document ∧
      ∀ k ∈ created, (Respects out.2.store k ↔ EndsDeclared document k.origin) := by
  obtain ⟨tbl, himported, hall⟩ := traced_of_ok hs hp hok
  exact ⟨hall.origins, fun k hk => respects_iff himported (hall.ended k hk)⟩

/-- The types of the relations that join objects of demanded types. -/
def Demanding (d : ProvRelationData) : Prop := 1 ≤ d.type ∧ d.type ≤ 18

instance : DecidablePred Demanding := fun _ => inferInstanceAs (Decidable (_ ∧ _))

def EndsTyped (t : Store) (l : List Attempt) : Prop :=
  ∀ k ∈ relationsIn l, Demanding k.entry → Respects t k

def sharedNameText : String :=
  "\x7b\"agent\": \x7b\"x\": \x7b\x7d\x7d, \"entity\": \x7b\"x\": \x7b\x7d\x7d, " ++
  "\"wasAttributedTo\": \x7b\"r\": \x7b\"prov:agent\": \"x\", " ++
  "\"prov:entity\": \"x\"\x7d\x7d\x7d"

def sharedNameMembers : List (String × Json) := [
  ("agent", .object [("x", .object [])]),
  ("entity", .object [("x", .object [])]),
  ("wasAttributedTo", .object [("r", .object [("prov:agent", .string "x"),
    ("prov:entity", .string "x")])])]

def sharedNameParse (text : String) : Option Json :=
  if text = sharedNameText then some (.object sharedNameMembers) else none

/-- The entity comes first, so it is also the agent that it is attributed to. -/
theorem entity_taken_for_agent :
    let out := importDocumentJson sharedNameParse .ideal sharedNameText "b" [] 0 none
      ⟨Store.fresh, 0⟩
    Store.fresh.Reachable ∧ out.1.1 = .ret .ok ∧
      ∃ k ∈ relationsIn (attempts sharedNameParse .ideal sharedNameText "b" [] 0
        ⟨Store.fresh, 0⟩), Demanding k.entry ∧ ¬ Respects out.2.store k := by
  have hok : (importDocumentJson sharedNameParse .ideal sharedNameText "b" [] 0 none
      ⟨Store.fresh, 0⟩).1.1 = .ret .ok := by decide
  obtain ⟨horigins, hiff⟩ := respects_iff_of_ok .fresh (if_pos rfl) hok
  let record : ProvRelationData × (String × Json) :=
    (⟨wasAttributedTo, "wasAttributedTo", "prov:entity", cplEntity, "prov:agent", cplAgent⟩,
      ("r", .object [("prov:agent", .string "x"), ("prov:entity", .string "x")]))
  have hrecords : documentRecords (.object sharedNameMembers) = [record] := rfl
  rw [hrecords] at horigins
  obtain ⟨k, hk, horigin⟩ := List.mem_map.mp (horigins ▸ List.mem_cons_self)
  refine ⟨.fresh, hok, k, hk, ?_, fun hrespects => ?_⟩
  · have hentry : k.entry = record.1 := congrArg Prod.fst horigin
    rw [hentry]
    decide
  · have hdest := ((hiff k hk).mp hrespects).2
    rw [horigin] at hdest
    rcases hdest with h0 | hd
    · exact absurd h0 (by decide)
    · exact absurd (hd (cplEntity, "x") rfl) (by decide)

/-- After an import that returns OK, the relations join objects of the types that their entries
demand exactly when every declared name at an end of a record is first declared under the type
that is demanded there. -/
theorem imported_ends_typed_iff {parse : String → Option Json} {srv : Server} {s : Store}
    (hs : s.Reachable) (calls : ℕ) {jsonString bundleName : String}
    {anchors : List (ℕ × String)} {flags : ℤ} {outId : Option ℕ} {document : Json}
    (hp : parse jsonString = some document)
    (hok : (importDocumentJson parse srv jsonString bundleName anchors flags outId
      ⟨s, calls⟩).1.1 = .ret .ok) :
    EndsTyped (importDocumentJson parse srv jsonString bundleName anchors flags outId
        ⟨s, calls⟩).2.store
      (attempts parse srv jsonString bundleName anchors flags ⟨s, calls⟩) ↔
    ∀ r ∈ documentRecords document, Demanding r.1 → EndsDeclared document r := by
  obtain ⟨horigins, hiff⟩ := respects_iff_of_ok hs hp hok
  rw [← horigins]
  constructor
  · intro h r hr
    obtain ⟨k, hk, rfl⟩ := List.mem_map.mp hr
    intro hdemand
    exact (hiff k hk).mp (h k hk hdemand)
  · intro h k hk hdemand
    exact (hiff k hk).mpr (h k.origin (List.mem_map_of_mem hk) hdemand)

/-- In the usage document the names are declared as they are used. -/
theorem imported_ends_typed_iff_usage :
    EndsTyped (importDocumentJson usageParse .ideal usageText "b" [] 0 none
        ⟨Store.fresh, 0⟩).2.store
      (attempts usageParse .ideal usageText "b" [] 0 ⟨Store.fresh, 0⟩) := by
  refine (imported_ends_typed_iff .fresh 0 (if_pos rfl) usage_imported).mpr ?_
  intro r hr _
  rw [usage_documentRecords, List.mem_singleton] at hr
  subst hr
  constructor
  · right
    rintro _ ⟨⟩
    rfl
  · right
    rintro _ ⟨⟩
    rfl

end EndpointTypes
