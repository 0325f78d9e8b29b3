import ProvCpl.ImportGraph
import ProvCpl.ImportLog
import ProvCpl.PropertyWrites

/-! # The properties of an imported relation

The loop over the members of a record compares the name of the record with the endpoint keys
where it should compare the name of the member. So the endpoints are stored as properties too,
and a record that is itself named like an endpoint key loses all its properties. -/
namespace RecordProperties

open CplTypes QualifiedName JsonValue ProvStore ProvServer ServerSpecs ImportDocument
open ImportFrame ImportAccepts ImportGraph ImportLog PropertyWrites InsertOnce ValidateDocument
open EarlyExit ProgramLog

def textOf : Json → Option (String × ℤ)
  | .string s => some (s, stringProperty)
  | .boolean b => some (FloatText.boolText b, booleanProperty)
  | _ => none

/-- The relation has one property for each string or boolean member besides the endpoints, and
none for the endpoints. -/
structure ExactProperties (t : Store) (id : ℕ) (d : ProvRelationData) (e : String × Json) :
    Prop where
  others : ∀ p ∈ e.2.members, p.1 ≠ d.sourceStr → p.1 ≠ d.destStr →
    ∀ value type, textOf p.2 = some (value, type) → ∃ q, q.value = value ∧
      t.relationProperties.filter (fun q =>
        q.id = id ∧ (q.nsPrefix, q.name) = nameToTokens p.1 ∧ q.type = type) = [q]
  ends : ∀ q ∈ t.relationProperties, q.id = id → ∀ key ∈ [d.sourceStr, d.destStr],
    (q.nsPrefix, q.name) = nameToTokens key → q.type ≠ stringProperty ∧ q.type ≠ booleanProperty

def NamedLikeEnd (d : ProvRelationData) (e : String × Json) : Prop :=
  e.1 = d.sourceStr ∨ e.1 = d.destStr

def OnlyEnds (d : ProvRelationData) (e : String × Json) : Prop :=
  ∀ p ∈ e.2.members, p.1 ≠ d.sourceStr → p.1 ≠ d.destStr → textOf p.2 = none

structure CreatedRelation where
  entry : ProvRelationData
  record : String × Json
  id : ℕ

def relationOf (a : Attempt) : Option CreatedRelation :=
  match a.write, a.id with
  | .relation d e, some id => some ⟨d, e, id⟩
  | _, _ => none

def relationsIn (log : List Attempt) : List CreatedRelation := log.filterMap relationOf

def HasString (t : Store) (id : ℕ) (key : String) : Prop :=
  ∃ q ∈ t.relationProperties, q.id = id ∧ (q.nsPrefix, q.name) = nameToTokens key ∧
    q.type = stringProperty

structure RecordRows (t : Store) (k : CreatedRelation) : Prop where
  source : ¬ NamedLikeEnd k.entry k.record → HasString t k.id k.entry.sourceStr
  none : NamedLikeEnd k.entry k.record → ∀ q ∈ t.relationProperties, q.id ≠ k.id

/-- Its rows decide whether a relation has the properties of its record. -/
theorem RecordRows.exact_iff {t : Store} {k : CreatedRelation} (h : RecordRows t k) :
    ExactProperties t k.id k.entry k.record ↔
      NamedLikeEnd k.entry k.record ∧ OnlyEnds k.entry k.record := by
  constructor
  · intro hx
    have hnamed : NamedLikeEnd k.entry k.record := by
      by_contra hno
      obtain ⟨q, hq, hid, hkey, htype⟩ := h.source hno
      exact (hx.ends q hq hid _ List.mem_cons_self hkey).1 htype
    refine ⟨hnamed, fun p hp hs hd => ?_⟩
    cases ht : textOf p.2 with
    | none => rfl
    | some out =>
      obtain ⟨q, -, hfilter⟩ := hx.others p hp hs hd out.1 out.2 ht
      have hq : q ∈ t.relationProperties.filter (fun q => q.id = k.id ∧
          (q.nsPrefix, q.name) = nameToTokens p.1 ∧ q.type = out.2) := by
        rw [hfilter]
        exact List.mem_singleton_self q
      obtain ⟨hmem, hkey⟩ := List.mem_filter.mp hq
      exact absurd (of_decide_eq_true hkey).1 (h.none hnamed q hmem)
  · rintro ⟨hnamed, honly⟩
    refine ⟨fun p hp hs hd value type ht => ?_, fun q hq hid => ?_⟩
    · rw [honly p hp hs hd] at ht
      cases ht
    · exact absurd hid (h.none hnamed q hq)

structure Known (known : List CreatedRelation) (next : ℕ) (t : Store) : Prop where
  reachable : t.Reachable
  bound : next ≤ t.nextRelation
  rows : ∀ k ∈ known, k.id < next ∧ RecordRows t k

theorem HasString.insertProperty {t t' : Store} {id : ℕ} {key : String} (h : HasString t id key)
    {r : PropertyRow} (ht : t.insertRelationProperty r = some t') : HasString t' id key := by
  obtain ⟨-, rfl⟩ := insertRelationProperty_eq ht
  obtain ⟨q, hq, hrest⟩ := h
  refine ⟨q, ?_, hrest⟩
  rcases insertOnce_cases SameKey t.relationProperties r with he | he
  · rwa [he]
  · rw [he]
    exact List.mem_append_left _ hq

theorem RecordRows.insertProperty {t t' : Store} {k : CreatedRelation} (h : RecordRows t k)
    {r : PropertyRow} (hr : r.id ≠ k.id) (ht : t.insertRelationProperty r = some t') :
    RecordRows t' k := by
  refine ⟨fun hno => (h.source hno).insertProperty ht, fun hnamed q hq => ?_⟩
  obtain ⟨-, rfl⟩ := insertRelationProperty_eq ht
  rcases mem_insertOnce hq with hq | rfl
  · exact h.none hnamed q hq
  · exact hr

theorem importClosed_known (known : List CreatedRelation) (next : ℕ) :
    ImportClosed (Known known next) 1 next where
  next := fun _ h => ⟨h.reachable.valid.next_object, h.bound⟩
  object := fun s p n t now ht h => ⟨.createObject p n t now ht h.reachable, h.bound, fun k hk =>
    ⟨(h.rows k hk).1, (h.rows k hk).2.source, (h.rows k hk).2.none⟩⟩
  relation := fun s f o t hf ho ht h => ⟨.addRelation f o t hf ho ht h.reachable,
    Nat.le_succ_of_le h.bound, fun k hk =>
      ⟨(h.rows k hk).1, (h.rows k hk).2.source, (h.rows k hk).2.none⟩⟩
  objectProperty := fun s s' r _ h0 _ he h => by
    have hreach := h.reachable.addObjectProperty r h0 he
    obtain ⟨-, rfl⟩ := insertObjectProperty_eq he
    exact ⟨hreach, h.bound, fun k hk =>
      ⟨(h.rows k hk).1, (h.rows k hk).2.source, (h.rows k hk).2.none⟩⟩
  relationProperty := fun s s' r hr h0 _ he h => by
    have hreach := h.reachable.addRelationProperty r h0 he
    have hrows : ∀ k ∈ known, k.id < next ∧ RecordRows s' k := fun k hk => by
      obtain ⟨hlt, hrow⟩ := h.rows k hk
      exact ⟨hlt, hrow.insertProperty (by omega) he⟩
    refine ⟨hreach, ?_, hrows⟩
    rw [(insertRelationProperty_eq he).2]
    exact h.bound
  prefixRow := fun s s' r _ h0 he h => by
    have hreach := h.reachable.addPrefix r h0 he
    obtain ⟨-, rfl⟩ := insertPrefix_eq he
    exact ⟨hreach, h.bound, fun k hk =>
      ⟨(h.rows k hk).1, (h.rows k hk).2.source, (h.rows k hk).2.none⟩⟩

structure Opened (known : List CreatedRelation) (id : ℕ) (t : Store) : Prop where
  known : Known known id t
  stored : id ∈ t.relations.map (·.id)
  nonzero : id ≠ 0

theorem Opened.insertProperty {known : List CreatedRelation} {id : ℕ} {t t' : Store}
    (h : Opened known id t) {r : PropertyRow} (hr : r.id = id) (hw : Written r)
    (ht : t.insertRelationProperty r = some t') : Opened known id t' := by
  refine ⟨(importClosed_known known id).relationProperty t t' r (by omega)
    (hr ▸ h.nonzero) hw ht h.known, ?_, h.nonzero⟩
  rw [(insertRelationProperty_eq ht).2]
  exact h.stored

theorem Opened.insertRelation {known : List CreatedRelation} {id f o : ℕ} {type : ℤ} {t : Store}
    (h : Opened known id t) (hf : f ≠ 0) (ho : o ≠ 0) (ht : EnsureRType type) :
    Opened known id (t.insertRelation f o type) := by
  refine ⟨(importClosed_known known id).relation t f o type hf ho ht h.known, ?_, h.nonzero⟩
  simpa [Store.insertRelation] using Or.inl (by simpa using h.stored)

def Blank (known : List CreatedRelation) (id : ℕ) (t : Store) : Prop :=
  Opened known id t ∧ ∀ q ∈ t.relationProperties, q.id ≠ id

theorem Known.open {known : List CreatedRelation} {next f o : ℕ} {type : ℤ} {t : Store}
    (h : Known known next t) (hf : f ≠ 0) (ho : o ≠ 0) (ht : EnsureRType type) :
    Blank known t.nextRelation (t.insertRelation f o type) := by
  have hvalid := h.reachable.valid
  have hrows : ∀ k ∈ known, k.id < t.nextRelation ∧ RecordRows t k := fun k hk =>
    ⟨lt_of_lt_of_le (h.rows k hk).1 h.bound, (h.rows k hk).2⟩
  have hknown : Known known t.nextRelation t := ⟨h.reachable, Nat.le_refl _, hrows⟩
  refine ⟨⟨(importClosed_known known _).relation t f o type hf ho ht hknown, ?_,
    Nat.pos_iff_ne_zero.mp hvalid.next_relation⟩, fun q hq => ?_⟩
  · simp [Store.insertRelation]
  · obtain ⟨r, hr, hid⟩ := List.mem_map.mp (hvalid.relationProperty_owner q hq)
    have := hvalid.relation_bound r hr
    omega

theorem Opened.close {known : List CreatedRelation} {d : ProvRelationData} {e : String × Json}
    {id : ℕ} {t : Store} (h : Opened known id t) (hrows : RecordRows t ⟨d, e, id⟩) :
    Known (known ++ [⟨d, e, id⟩]) (id + 1) t := by
  obtain ⟨r, hr, hid⟩ := List.mem_map.mp h.stored
  have hlt := h.known.reachable.valid.relation_bound r hr
  refine ⟨h.known.reachable, by omega, fun k hk => ?_⟩
  rcases List.mem_append.mp hk with hk | hk
  · exact ⟨Nat.lt_succ_of_lt (h.known.rows k hk).1, (h.known.rows k hk).2⟩
  · rw [List.mem_singleton.mp hk]
    exact ⟨Nat.lt_succ_self id, hrows⟩

theorem source_tokens {d : ProvRelationData} (hd : d ∈ relationSections) :
    (cStr (nameToTokens d.sourceStr).1, cStr (nameToTokens d.sourceStr).2) =
      nameToTokens d.sourceStr := by
  have hnul : ∀ d ∈ relationSections, '\x00' ∉ d.sourceStr.toList := by decide
  have htok := nameToTokens_noNul (hnul d hd)
  rw [cStr_of_noNul htok.1, cStr_of_noNul htok.2]

theorem keeps_importEndpoint_string {srv : Server} {I : Store → Prop} (tbl : LookupTable)
    (externObjF : Bool) (record : Json) (key : String) (type : ℤ) :
    Keeps I (importEndpoint srv tbl externObjF record key type) fun _ =>
      ∃ n, record.find key = some (.string n) :=
  maintains_weaken (keeps_importEndpoint_value tbl externObjF record key type)
    fun _ ⟨n, hn, _⟩ => ⟨n, hn⟩

section Importer

variable {srv : Server} {known : List CreatedRelation} {id : ℕ}

theorem ensures_callUnchecked {P : Store → Prop} {c : Call World ReturnCode} {Q : Store → Prop}
    (h : ∀ w, P w.store → Q (c w).2.store) : Ensures P (callUnchecked c) fun _ => Q :=
  triple_bind (Q := fun _ w => Q w.store) (triple_call fun w hw => h w hw) fun _ =>
    triple_pure fun _ hw => hw

section Reliable

variable (hsrv : Reliable srv)

include hsrv

theorem addRelationString_reliable {w : World} (h0 : id ≠ 0)
    (h : id ∈ w.store.relations.map (·.id)) (p k v : String) :
    w.store.insertRelationProperty ⟨id, p, k, v, stringProperty⟩ =
      some (srv.addRelationStringProperty id (some p) (some k) (some v) w).2.store := by
  have hid : ¬ id = cplNone := h0
  simp only [Server.addRelationStringProperty, Server.addProperty, Server.ensureInitialized,
    hsrv.attached, if_true, if_neg hid, addRelationProperty_store hsrv,
    Store.insertRelationProperty, if_pos h, Option.getD_some]

theorem ensures_source {d : ProvRelationData} (hd : d ∈ relationSections) (n : String) :
    Ensures (Opened known id) (importProperty (relationWriter srv) id (d.sourceStr, .string n))
      fun _ t => Opened known id t ∧ HasString t id d.sourceStr := by
  refine ensures_callUnchecked fun w hw => ?_
  let row : PropertyRow := ⟨id, cStr (nameToTokens d.sourceStr).1,
    cStr (nameToTokens d.sourceStr).2, cStr n, stringProperty⟩
  have he := addRelationString_reliable hsrv hw.nonzero hw.stored row.nsPrefix row.name (cStr n)
  refine ⟨hw.insertProperty rfl (written_of_ne (by decide)) he, ?_⟩
  obtain ⟨-, hstore⟩ := insertRelationProperty_eq he
  have hpresent : Present SameKey (insertOnce SameKey w.store.relationProperties row) row :=
    present_insertOnce (sameKey_refl row)
  obtain ⟨q, hq, hkey⟩ := hpresent
  have htokens : (q.nsPrefix, q.name) = nameToTokens d.sourceStr := by
    rw [hkey.2.1, hkey.2.2.1]
    exact source_tokens hd
  have hmem : q ∈ (srv.addRelationStringProperty id (some row.nsPrefix) (some row.name)
      (some (cStr n)) w).2.store.relationProperties := by
    rw [hstore]
    exact hq
  exact ⟨q, hmem, hkey.1, htokens, hkey.2.2.2⟩

theorem ensures_recordProperties {d : ProvRelationData} (hd : d ∈ relationSections)
    {record : Json} {n : String} (hn : record.find d.sourceStr = some (.string n)) :
    Ensures (Opened known id) (importProperties (relationWriter srv) id record)
      fun _ t => Opened known id t ∧ HasString t id d.sourceStr := by
  let Stored (done : List (String × Json)) (t : Store) : Prop := Opened known id t ∧
    ((d.sourceStr, Json.string n) ∈ done → HasString t id d.sourceStr)
  obtain ⟨m, rfl⟩ : ∃ m, record = .object m := ⟨_, isObject_of_find hn⟩
  have hmem : (d.sourceStr, Json.string n) ∈ m := OrderedMap.mem_of_find hn
  have step : ∀ done e, Ensures (Stored done) (importProperty (relationWriter srv) id e)
      fun _ => Stored (done ++ [e]) := by
    intro done e
    by_cases he : e = (d.sourceStr, .string n)
    · subst he
      exact ensures_conseq (ensures_source hsrv hd n) (fun _ ht => ht.1)
        fun _ _ ht => ⟨ht.1, fun _ => ht.2⟩
    · have hk : WriterKeeps (Stored done) (relationWriter srv) id :=
        relationWriter_keeps fun t t' r hr _ hw ht hs =>
          ⟨hs.1.insertProperty hr hw ht, fun hdone => (hs.2 hdone).insertProperty ht⟩
      refine ensures_conseq (ensures_of_keeps (keeps_importProperty hk e)) (fun _ ht => ht)
        fun _ _ hs => ⟨hs.1, fun hdone => ?_⟩
      rcases List.mem_append.mp hdone with hdone | hdone
      · exact hs.2 hdone
      · exact absurd (List.mem_singleton.mp hdone).symm he
  refine ensures_bind (Q := fun items t => items = m ∧ Opened known id t)
    (ensures_pure fun t ht => ⟨rfl, ht⟩) fun items => ensures_assume ?_
  rintro rfl
  exact ensures_conseq (ensures_forEach (I := Stored) step)
    (fun _ ht => ⟨ht, fun h => absurd h List.not_mem_nil⟩) fun _ _ hs => ⟨hs.1, hs.2 hmem⟩

theorem known_logRelation {d : ProvRelationData} (hd : d ∈ relationSections) (bundleId : ℕ)
    (tbl : LookupTable) (externObjF : Bool) (e : String × Json) :
    LogEnsures (fun t l => (∃ next, Known known next t) ∧ relationsIn l = known)
      (logRelation srv bundleId tbl externObjF d e)
      fun _ t l => ∃ id, (∃ next, Known (known ++ [⟨d, e, id⟩]) next t) ∧
        relationsIn l = known ++ [⟨d, e, id⟩] := by
  refine logs_bind (logs_quiet fun _ => keeps_importEndpoint_string tbl externObjF e.2 _ _)
    fun source => logs_assume fun ⟨n, hn⟩ => ?_
  refine logs_bind (logs_quiet fun _ => keeps_importEndpoint tbl externObjF e.2 _ _)
    fun dest => logs_assume fun _ => ?_
  refine logs_bind (Q := fun id t l => Blank known id t ∧ relationsIn l = known ++ [⟨d, e, id⟩])
    (logs_logId ?_) fun id => ?_
  · rintro w l ⟨⟨next, hk⟩, hl⟩ hok id hid
    obtain ⟨hf, ho, ht⟩ := addRelation_isOk hok
    rw [addRelation_reliable hsrv hf ho ht] at hid ⊢
    cases hid
    refine ⟨hk.open hf ho ht, ?_⟩
    rw [relationsIn, List.filterMap_append, ← relationsIn, hl]
    rfl
  · have hmember : Keeps (Blank known id)
        (requireOk (codeOnly (srv.addRelation bundleId id bundleRelation))) fun _ => True :=
      keeps_requireOk fun w => addRelation_keeps fun s hf ho ht hs =>
        ⟨hs.1.insertRelation hf ho ht, hs.2⟩
    refine logs_bind (logs_conj (logs_of_keeps erases_logOk hmember)
      (unselected_logOk (fun _ _ _ => rfl) _ _)) fun _ => logs_ite (fun hno => ?_) fun hnamed => ?_
    · have hprops : LogEnsures (fun t _ => Opened known id t)
          (logProperties (relationWriter srv) .relationProperty id e.2)
          fun _ t _ => Opened known id t ∧ HasString t id d.sourceStr :=
        logs_of_erases (erases_logProperties _ _ _ _) (ensures_recordProperties hsrv hd hn)
      refine logs_conseq (logs_conj hprops (unselected_logProperties (fun _ _ _ _ => rfl) _ _))
        (fun t l hs => ⟨hs.1.1, hs.2⟩)
        fun _ t l hs => ⟨id, ⟨id + 1, hs.1.1.close ⟨fun _ => hs.1.2, fun hnamed => ?_⟩⟩, hs.2⟩
      exact absurd hnamed (not_or.mpr hno)
    · refine logs_pure fun t l hs => ⟨id, ⟨id + 1, hs.1.1.close ⟨fun hno => ?_, fun _ => hs.1.2⟩⟩,
        hs.2⟩
      exact absurd (not_or.mp hno) hnamed

end Reliable

end Importer

/-- The records of a document with their sections, in the order of the import. -/
def documentRecords (document : Json) : List (ProvRelationData × (String × Json)) :=
  relationSections.flatMap fun d => (records document d).map fun e => (d, e)

def CreatedRelation.origin (k : CreatedRelation) : ProvRelationData × (String × Json) :=
  (k.entry, k.record)

structure Recorded (recs : List (ProvRelationData × (String × Json))) (t : Store)
    (l : List Attempt) : Prop where
  rows : ∃ next, Known (relationsIn l) next t
  origins : (relationsIn l).map CreatedRelation.origin = recs

section Run

variable {srv : Server} (hsrv : Reliable srv)

include hsrv

theorem recorded_logRelation {recs : List (ProvRelationData × (String × Json))}
    {d : ProvRelationData} (hd : d ∈ relationSections) (bundleId : ℕ) (tbl : LookupTable)
    (externObjF : Bool) (e : String × Json) :
    LogEnsures (Recorded recs) (logRelation srv bundleId tbl externObjF d e)
      fun _ => Recorded (recs ++ [(d, e)]) := by
  rintro ⟨w, l⟩ hs
  refine (logs_conseq (known_logRelation hsrv hd bundleId tbl externObjF e) (fun t l h => h)
    fun _ t l' h => ?_) (w, l) ⟨hs.rows, rfl⟩
  obtain ⟨id, hrows, hl⟩ := h
  refine ⟨hl ▸ hrows, ?_⟩
  rw [hl, List.map_append, hs.origins]
  rfl

theorem recorded_logRelationsJson (bundleId : ℕ) (tbl : LookupTable) (document : Json)
    (externObjF : Bool) :
    LogEnsures (Recorded []) (logRelationsJson srv bundleId tbl document externObjF)
      fun _ => Recorded (documentRecords document) := by
  refine logs_forEach (I := fun done => Recorded
    (done.flatMap fun d => (records document d).map fun e => (d, e))) fun done d hd => ?_
  refine logs_ite (fun _ => ?_) fun _ => logs_leave
  rw [List.flatMap_append, List.flatMap_singleton]
  have step : ∀ recs, LogEnsures
      (Recorded (recs ++ ([] : List (String × Json)).map fun e => (d, e)))
      (forEach (logRelation srv bundleId tbl externObjF d) (document.membersAt d.typeStr))
      fun _ => Recorded (recs ++ (records document d).map fun e => (d, e)) := fun recs =>
    logs_forEach (I := fun es => Recorded (recs ++ es.map fun e => (d, e))) fun es e _ => by
      rw [List.map_append, ← List.append_assoc]
      exact recorded_logRelation hsrv hd bundleId tbl externObjF e
  simpa using step (done.flatMap fun d => (records document d).map fun e => (d, e))

theorem recorded_logContents (document : Json) (bundleName : String)
    (anchors : List (ℕ × String)) (externObjF : Bool) :
    LogEnsures (fun t l => t.Reachable ∧ l = [])
      (logContents srv document bundleName anchors externObjF)
      fun _ => Recorded (documentRecords document) := by
  have quietly : ∀ {α : Type} {m : Logged α} {n : Api α} {R : α → Prop}, Erases m n →
      Keeps (Known [] 0) n R → Unselected relationOf m →
      LogEnsures (fun t l => Known [] 0 t ∧ relationsIn l = []) m
        fun _ t l => Known [] 0 t ∧ relationsIn l = [] :=
    fun he hk hu => logs_conj (logs_of_keeps he hk) (hu [])
  have hI := importClosed_known [] 0
  refine logs_weaken (fun t l (h : t.Reachable ∧ l = []) =>
    (⟨⟨h.1, Nat.zero_le _, by simp⟩, by rw [h.2]; rfl⟩ : Known [] 0 t ∧ relationsIn l = [])) ?_
  rw [logContents_stage]
  refine logs_bind (quietly (erases_logStage document bundleName)
    (keeps_objectStage hI.objects document bundleName) (unselected_logStage (fun _ _ _ => rfl)
      (fun _ _ _ _ => rfl) (fun _ _ _ _ _ => rfl) (fun _ _ _ _ _ => rfl) srv document bundleName))
    fun out => ?_
  refine logs_bind (quietly (erases_forEach (erases_logAnchor out.1) anchors)
    (maintains_forEach fun a _ => keeps_connectAnchor hI.relations a)
    (unselected_forEach (fun a => unselected_logAnchor (fun _ _ _ _ => rfl)
      (fun _ _ _ _ => rfl) out.1 a) anchors)) fun _ => ?_
  refine logs_bind (logs_conseq (recorded_logRelationsJson hsrv out.1 out.2 document externObjF)
    (fun t l h => ⟨⟨0, by rw [h.2]; exact h.1⟩, by rw [h.2]; rfl⟩) fun _ _ _ h => h) fun _ => ?_
  exact logs_pure fun _ _ h => h

end Run

theorem recorded_of_ok {parse : String → Option Json} {srv : Server} (hsrv : Reliable srv)
    {s : Store} (hs : s.Reachable) {calls : ℕ} {jsonString bundleName : String}
    {anchors : List (ℕ × String)} {flags : ℤ} {outId : Option ℕ} {document : Json}
    (hp : parse jsonString = some document)
    (hok : (importDocumentJson parse srv jsonString bundleName anchors flags outId
      ⟨s, calls⟩).1.1 = .ret .ok) :
    Recorded (documentRecords document)
      (importDocumentJson parse srv jsonString bundleName anchors flags outId ⟨s, calls⟩).2.store
      (attempts parse srv jsonString bundleName anchors flags ⟨s, calls⟩) := by
  obtain ⟨b, hlog, -⟩ := logged_of_ok hp
    (recorded_logContents hsrv document bundleName anchors _) ⟨hs, rfl⟩ hok
  exact hlog

/-- After an import that reports success, the relation created for a record has the properties
of its record exactly when the record is named like one of its endpoint keys and has no string
or boolean member besides its endpoints. -/
theorem exactProperties_iff {parse : String → Option Json} {srv : Server} (hsrv : Reliable srv)
    {s : Store} (hs : s.Reachable) (calls : ℕ) {jsonString bundleName : String}
    {anchors : List (ℕ × String)} {flags : ℤ} {outId : Option ℕ} {document : Json}
    (hp : parse jsonString = some document)
    (hok : (importDocumentJson parse srv jsonString bundleName anchors flags outId
      ⟨s, calls⟩).1.1 = .ret .ok) :
    let out := importDocumentJson parse srv jsonString bundleName anchors flags outId ⟨s, calls⟩
    let created := relationsIn (attempts parse srv jsonString bundleName anchors flags ⟨s, calls⟩)
    created.map CreatedRelation.origin = documentRecords document ∧
      ∀ k ∈ created, (ExactProperties out.2.store k.id k.entry k.record ↔
        NamedLikeEnd k.entry k.record ∧ OnlyEnds k.entry k.record) := by
  have hrec := recorded_of_ok hsrv hs hp hok
  obtain ⟨next, hknown⟩ := hrec.rows
  exact ⟨hrec.origins, fun k hk => (hknown.rows k hk).2.exact_iff⟩

def usageRecord : ProvRelationData × (String × Json) :=
  (⟨used, "used", "prov:activity", cplActivity, "prov:entity", cplEntity⟩,
    ("u", .object [("prov:activity", .string "a"), ("prov:entity", .string "e")]))

theorem usage_imported : (importDocumentJson usageParse .ideal usageText "b" [] 0 none
    ⟨Store.fresh, 0⟩).1.1 = .ret .ok := by decide

theorem usage_documentRecords : documentRecords (.object usageMembers) = [usageRecord] := rfl

theorem usageRecord_named : ¬ NamedLikeEnd usageRecord.1 usageRecord.2 := by
  simp [NamedLikeEnd, usageRecord]

/-- The import stores the endpoints of the record as string properties of its relation. -/
theorem endpoints_stored_as_properties :
    let out := importDocumentJson usageParse .ideal usageText "b" [] 0 none ⟨Store.fresh, 0⟩
    out.1.1 = .ret .ok ∧
      ∃ k ∈ relationsIn (attempts usageParse .ideal usageText "b" [] 0 ⟨Store.fresh, 0⟩),
        k.origin = usageRecord ∧ ¬ ExactProperties out.2.store k.id k.entry k.record := by
  have hrec := recorded_of_ok Server.ideal_reliable .fresh (if_pos rfl) usage_imported
  obtain ⟨next, hknown⟩ := hrec.rows
  obtain ⟨k, hk, horigin⟩ := List.mem_map.mp (hrec.origins ▸ usage_documentRecords ▸
    List.mem_cons_self : usageRecord ∈ (relationsIn _).map CreatedRelation.origin)
  refine ⟨usage_imported, k, hk, horigin, fun hx => usageRecord_named ?_⟩
  have hnamed := ((hknown.rows k hk).2.exact_iff.mp hx).1
  rwa [← horigin]

theorem exactProperties_iff_usage :
    ∃ k ∈ relationsIn (attempts usageParse .ideal usageText "b" [] 0 ⟨Store.fresh, 0⟩),
      k.origin = usageRecord ∧
        ¬ ExactProperties (importDocumentJson usageParse .ideal usageText "b" [] 0 none
          ⟨Store.fresh, 0⟩).2.store k.id k.entry k.record := by
  obtain ⟨horigins, hiff⟩ :=
    exactProperties_iff Server.ideal_reliable .fresh 0 (if_pos rfl) usage_imported
  rw [usage_documentRecords] at horigins
  obtain ⟨k, hk, horigin⟩ := List.mem_map.mp (horigins ▸ List.mem_cons_self)
  refine ⟨k, hk, horigin, fun hx => usageRecord_named ?_⟩
  have hnamed := ((hiff k hk).mp hx).1
  rwa [← horigin]

end RecordProperties
