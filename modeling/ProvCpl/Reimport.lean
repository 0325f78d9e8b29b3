import ProvCpl.BundleMembers
import Mathlib.Tactic.IntervalCases

/-! # Import of an exported document

The exporter names every object of the bundle at the ends of its records, but its switch on the
type of an object has no case for a bundle. So the document declares all names that it uses
exactly when no relation of the bundle ends in a bundle. -/
namespace Reimport

open CplTypes QualifiedName JsonValue ProvStore ProvServer ServerSpecs ImportDocument
open ImportFrame ImportAccepts ImportGraph ExportDocument ExportShape RoundTrip BundleMembers
open ValidateDocument EarlyExit

/-- Bundles with relations of the types that a document can hold, between stored objects of
different names with string and boolean properties. -/
structure ClosedBundle (s : Store) (b : ℕ) : Prop where
  nonempty : s.bundleRelations b ≠ []
  types : ∀ r ∈ s.bundleRelations b, ∃ type, r.type = some type ∧ 1 ≤ type ∧ type ≤ 19
  ends : ∀ r ∈ s.bundleRelations b, ∀ id, r.fromId = some id ∨ r.toId = some id →
    id ∈ s.objects.map (·.id)
  distinct : (((s.bundleObjects b).filterMap ObjectRow.info).map objectName).Nodup
  objectProperties : ∀ c ∈ s.bundleObjects b, ∀ q ∈ s.objectProperties, q.id = c.id →
    q.type = stringProperty ∨ q.type = booleanProperty
  relationProperties : ∀ r ∈ s.bundleRelations b, ∀ q ∈ s.relationProperties, q.id = r.id →
    q.type = stringProperty ∨ q.type = booleanProperty

structure LinkedBundle (s : Store) (b : ℕ) : Prop where
  nonempty : s.bundleRelations b ≠ []
  types : ∀ r ∈ s.bundleRelations b, ∃ type, r.type = some type ∧ 1 ≤ type ∧ type ≤ 19
  ends : ∀ r ∈ s.bundleRelations b, ∀ id, r.fromId = some id ∨ r.toId = some id →
    id ∈ s.objects.map (·.id)
  distinct : (((s.bundleObjects b).filterMap ObjectRow.info).map objectName).Nodup

theorem ClosedBundle.linked {s : Store} {b : ℕ} (h : ClosedBundle s b) : LinkedBundle s b :=
  ⟨h.nonempty, h.types, h.ends, h.distinct⟩

instance {s : Store} {b : ℕ} : Coe (ClosedBundle s b) (LinkedBundle s b) := ⟨ClosedBundle.linked⟩

/-- No relation of the bundle has a bundle at an end. -/
def NoBundleEnds (s : Store) (b : ℕ) : Prop :=
  ∀ c ∈ s.bundleObjects b, c.type ≠ some cplBundle

structure HasEnds (names : ℕ → String) (r : RelationEntry) (d : ProvRelationData)
    (record : Json) : Prop where
  source : record.find d.sourceStr = some (.string (names r.queryObjectId))
  dest : record.find d.destStr = some (.string (names r.otherObjectId))

structure RecordsOf (names : ℕ → String) (rels : List RelationEntry) (document : Json) :
    Prop where
  origin : ∀ d ∈ relationSections, ∀ e ∈ records document d,
    ∃ r ∈ rels, HasEnds names r d e.2
  record : ∀ r ∈ rels, ∃ d ∈ relationSections, ∃ v,
    OrderedMap.find (Nat.repr r.id) (records document d) = some v ∧ HasEnds names r d v

variable {names : ℕ → String} {rels : List RelationEntry} {document : Json}

theorem recordsOf_nil (h : ∀ d ∈ relationSections, document.find d.typeStr = none) :
    RecordsOf names [] document where
  origin := by
    intro d hd e he
    rw [records, Json.membersAt, h d hd] at he
    cases he
  record := by simp

theorem hasEnds_recordFor {d : ProvRelationData} (hd : d ∈ relationSections) (properties : Json)
    (r : RelationEntry) :
    HasEnds names r d
      (recordFor d properties (names r.queryObjectId) (names r.otherObjectId)) := by
  have hends := relationSections_keys_ne d hd
  constructor
  · rw [recordFor, find_assign, if_neg hends, find_assign, if_pos rfl]
  · rw [recordFor, find_assign, if_pos rfl]

/-- A relation that is listed twice is written twice under the same key. -/
theorem RecordsOf.assign (h : RecordsOf names rels document) {r : RelationEntry}
    (hsame : ∀ q ∈ rels, q.id = r.id → q = r) {d : ProvRelationData} (hd : d ∈ relationSections)
    (properties : Json) :
    RecordsOf names (rels ++ [r]) (document.assignIn d.typeStr (Nat.repr r.id)
      (recordFor d properties (names r.queryObjectId) (names r.otherObjectId))) := by
  have hnew : HasEnds names r d _ := hasEnds_recordFor hd properties r
  constructor
  · intro c hc e he
    by_cases hcd : c = d
    · subst hcd
      rw [records_assignIn_self] at he
      rcases OrderedMap.mem_set he with rfl | he
      · exact ⟨r, by simp, hnew⟩
      · obtain ⟨q, hq, hends⟩ := h.origin c hc e he
        exact ⟨q, List.mem_append_left _ hq, hends⟩
    · rw [records_assignIn_ne hc hd hcd] at he
      obtain ⟨q, hq, hends⟩ := h.origin c hc e he
      exact ⟨q, List.mem_append_left _ hq, hends⟩
  · intro q hq
    by_cases hid : q.id = r.id
    · have hqr : q = r := by
        rcases List.mem_append.mp hq with hq | hq
        · exact hsame q hq hid
        · exact List.mem_singleton.mp hq
      subst hqr
      refine ⟨d, hd, _, ?_, hnew⟩
      rw [records_assignIn_self, OrderedMap.find_set, if_pos rfl]
    · have hold : q ∈ rels := by
        rcases List.mem_append.mp hq with hq | hq
        · exact hq
        · exact absurd (congrArg RelationEntry.id (List.mem_singleton.mp hq)) hid
      obtain ⟨c, hc, v, hv, hends⟩ := h.record q hold
      refine ⟨c, hc, v, ?_, hends⟩
      by_cases hcd : c = d
      · subst hcd
        have hkey : Nat.repr q.id ≠ Nat.repr r.id := fun he => hid (decimal_injective he)
        rw [records_assignIn_self, OrderedMap.find_set, if_neg hkey, hv]
      · rw [records_assignIn_ne hc hd hcd, hv]

theorem RecordsOf.perm {rels' : List RelationEntry} (h : RecordsOf names rels document)
    (hp : rels.Perm rels') : RecordsOf names rels' document where
  origin := fun d hd e he => by simpa only [hp.mem_iff] using h.origin d hd e he
  record := fun r hr => h.record r (hp.mem_iff.mpr hr)

theorem relationSection_of_type {type : ℤ} (h1 : 1 ≤ type) (h19 : type ≤ 19) :
    ∃ d ∈ relationSections, d.type = type := by
  interval_cases type <;> decide

theorem relationData_of_type {type : ℤ} (h1 : 1 ≤ type) (h19 : type ≤ 19) :
    ∃ d ∈ relationSections, relationData type = pure d := by
  obtain ⟨d, hd, rfl⟩ := relationSection_of_type h1 h19
  exact ⟨d, hd, relationData_section hd⟩

theorem ends_listed {t : Store} {b : ℕ} (hb : LinkedBundle t b) {r : RelationRow}
    (hr : r ∈ t.bundleRelations b) {id : ℕ} (hend : r.fromId = some id ∨ r.toId = some id) :
    id ∈ (t.bundleObjects b).map (·.id) := by
  obtain ⟨c, hc, rfl⟩ := List.mem_map.mp (hb.ends r hr id hend)
  exact List.mem_map_of_mem (mem_bundleObjects.mpr ⟨hc, r, hr, hend⟩)

section Export

variable {srv : Server} {I : Store → Prop}

theorem keeps_exportRelation_named {tbl : NameTable} {ids : List ℕ}
    (hnames : Names names ids tbl) {r : RelationEntry} (hquery : r.queryObjectId ∈ ids)
    (hother : r.otherObjectId ∈ ids) {d : ProvRelationData} (hd : relationData r.type = pure d)
    (document : Json) :
    Keeps I (exportRelation srv tbl document r) fun document' => ∃ properties,
      document' = document.assignIn d.typeStr (Nat.repr r.id)
        (recordFor d properties (names r.queryObjectId) (names r.otherObjectId)) := by
  refine maintains_bind (keeps_exportProperties (fun id _ => list_store id _) r.id)
    fun properties _ => ?_
  rw [hnames.endpoint srv hquery, hnames.endpoint srv hother, hd]
  exact maintains_pure ⟨properties, rfl⟩

variable {t : Store} {b : ℕ} (hsrv : Reliable srv) (ht : t.Reachable)

include ht

theorem bundleRelations_entry {r : RelationRow} (hr : r ∈ t.bundleRelations b) :
    ∃ e, RelationRow.entry r = some e ∧ r.fromId = some e.queryObjectId ∧
      r.toId = some e.otherObjectId ∧ r.type = some e.type := by
  obtain ⟨hmem, m, hm, -, -, hto⟩ := mem_bundleRelations.mp hr
  have hid : r.id ≠ 0 := by
    intro h0
    rw [h0] at hto
    exact (ht.columns.ends hm).2 hto
  obtain ⟨f, o, type, -, -, -, hf, ho, htype⟩ := ht.columns.relations r hmem hid
  exact ⟨⟨r.id, f, o, type⟩, by rw [RelationRow.entry, hf, ho, htype], hf, ho, htype⟩

theorem bundleRelations_readable (b : ℕ) :
    ∀ r ∈ t.bundleRelations b, (RelationRow.entry r).isSome := by
  intro r hr
  obtain ⟨e, he, -⟩ := bundleRelations_entry ht hr
  rw [he]
  rfl

theorem bundle_ne_zero (h : t.bundleRelations b ≠ []) : b ≠ 0 := by
  intro h0
  obtain ⟨r, hr⟩ := List.exists_mem_of_ne_nil _ h
  obtain ⟨-, m, hm, hfrom, -⟩ := mem_bundleRelations.mp hr
  rw [h0] at hfrom
  exact (ht.columns.ends hm).1 hfrom

theorem entry_inj {r r' : RelationRow} (hr : r ∈ t.relations) (hr' : r' ∈ t.relations)
    {e e' : RelationEntry} (he : RelationRow.entry r = some e)
    (he' : RelationRow.entry r' = some e') (hid : e.id = e'.id) : e = e' := by
  rw [entry_id he, entry_id he'] at hid
  have hrow := List.inj_on_of_nodup_map ht.valid.relation_ids hr hr' hid
  rw [hrow] at he
  exact Option.some.inj (he.symm.trans he')

include hsrv

theorem keeps_exportRelationsJson (hb : LinkedBundle t b) {tbl : NameTable} {objects : Json}
    (hnames : Names names ((t.bundleObjects b).map (·.id)) tbl)
    (hsections : ∀ d ∈ relationSections, objects.find d.typeStr = none) :
    Keeps (· = t) (exportRelationsJson srv [b] tbl objects)
      (RecordsOf names ((t.bundleRelations b).filterMap RelationRow.entry)) := by
  have hlist := succeeds_listing hsrv (bundle_ne_zero ht hb.nonempty) (t := t)
    (fun s => s.bundleRelations b) (bundleRelations_readable ht b)
  refine maintains_bind (keeps_of_succeeds hlist) fun rels hperm => ?_
  have horigin : ∀ e ∈ rels, ∃ r ∈ t.bundleRelations b, RelationRow.entry r = some e := by
    intro e he
    exact List.mem_filterMap.mp (hperm.mem_iff.mp he)
  have hsame : ∀ e ∈ rels, ∀ e' ∈ rels, e.id = e'.id → e = e' := by
    intro e he e' he' hid
    obtain ⟨r, hr, hre⟩ := horigin e he
    obtain ⟨r', hr', hre'⟩ := horigin e' he'
    exact entry_inj ht (mem_bundleRelations.mp hr).1 (mem_bundleRelations.mp hr').1 hre hre' hid
  refine maintains_weaken (maintains_fold_along (T := RecordsOf names) (recordsOf_nil hsections)
    fun done e rest document hxs hdone => ?_) fun document hdoc => hdoc.perm hperm
  have he : e ∈ rels := by simp [hxs]
  obtain ⟨r, hr, hre⟩ := horigin e he
  obtain ⟨e', he', hfrom, hto, htype⟩ := bundleRelations_entry ht hr
  obtain rfl : e = e' := Option.some.inj (hre.symm.trans he')
  obtain ⟨type, htype', h1, h19⟩ := hb.types r hr
  obtain rfl : e.type = type := Option.some.inj (htype.symm.trans htype')
  obtain ⟨d, hd, hdata⟩ := relationData_of_type h1 h19
  refine maintains_weaken (keeps_exportRelation_named (I := (· = t)) hnames
    (ends_listed hb hr (Or.inl hfrom)) (ends_listed hb hr (Or.inr hto)) hdata document) ?_
  rintro _ ⟨properties, rfl⟩
  exact hdone.assign (fun q hq => hsame q (by rw [hxs]; exact List.mem_append_left _ hq) e he) hd
    properties

theorem keeps_exportBundle (hb : LinkedBundle t b) :
    Keeps (· = t) (exportBundle srv ([], .null) b) fun out => ∃ objects,
      ObjectDocument ((t.bundleObjects b).filterMap ObjectRow.info) objects ∧
      (∀ u ∈ objectSections, out.2.membersAt u.2 = objects.membersAt u.2) ∧
      RecordsOf (nameOf t) ((t.bundleRelations b).filterMap RelationRow.entry) out.2 := by
  have hne : ∀ d ∈ relationSections, ∀ u ∈ objectSections, u.2 ≠ d.typeStr := by decide
  refine maintains_bind (keeps_exportObjectsJson hsrv ht (bundle_ne_zero ht hb.nonempty))
    fun out hout => ?_
  have hsections : ∀ d ∈ relationSections, out.2.find d.typeStr = none :=
    fun d hd => hout.2.only d.typeStr (hne d hd)
  have hrecords : Keeps (· = t) (exportRelationsJson srv [b] out.1 out.2) fun document =>
      (∀ u ∈ objectSections, document.membersAt u.2 = out.2.membersAt u.2) ∧
      RecordsOf (nameOf t) ((t.bundleRelations b).filterMap RelationRow.entry) document :=
    keeps_conj (keeps_exportRelationsJson_objects b out.1 out.2)
      (keeps_exportRelationsJson hsrv ht hb hout.1 hsections)
  exact maintains_bind hrecords fun document hd => maintains_pure ⟨out.2, hout.2, hd.1, hd.2⟩

end Export

structure JoinsNames (document : Json) : Prop where
  objects : AcceptsObjects document
  sections : ∀ d ∈ relationSections, (document.find d.typeStr).all Json.isObject
  endpoints : ∀ d ∈ relationSections, ∀ e ∈ records document d, ∀ key,
    key = d.sourceStr ∨ key = d.destStr → ∃ n, e.2.find key = some (.string n)
  scalar : ∀ d ∈ relationSections, ∀ e ∈ records document d, ∀ p ∈ e.2.members, p.2.IsScalar
  distinct : (declaredNames document).Nodup

theorem mem_relatedNames {n : String} : n ∈ relatedNames document ↔
    ∃ d ∈ relationSections, ∃ e ∈ records document d, ∃ key,
      (key = d.sourceStr ∨ key = d.destStr) ∧ endpointName e.2 key = n := by
  simp only [relatedNames, edges, List.mem_flatMap, List.mem_map, List.mem_cons, List.not_mem_nil,
    or_false]
  constructor
  · rintro ⟨d, hd, p, ⟨e, he, rfl⟩, rfl | rfl⟩
    · exact ⟨d, hd, e, he, d.sourceStr, Or.inl rfl, rfl⟩
    · exact ⟨d, hd, e, he, d.destStr, Or.inr rfl, rfl⟩
  · rintro ⟨d, hd, e, he, key, rfl | rfl, rfl⟩
    · exact ⟨d, hd, _, ⟨e, he, rfl⟩, Or.inl rfl⟩
    · exact ⟨d, hd, _, ⟨e, he, rfl⟩, Or.inr rfl⟩

theorem related_declared_of_graph {base t : Store} {b : ℕ} {decl : List (ℤ × String)}
    {tbl : LookupTable} {recs : List Record} (h : Graph base b decl tbl recs t)
    (ht : t.Reachable) (hbase : 0 < base.nextRelation) :
    ∀ n ∈ endpointNames recs, n ∈ decl.map Prod.snd := by
  intro n hn
  obtain ⟨r, hr, hn⟩ := List.mem_flatMap.mp hn
  obtain ⟨i, hi⟩ : ∃ i, pairAt tbl b i r ∈ pairsFrom tbl b base.nextRelation recs :=
    exists_mem_pairsFrom hr
  have hrow : (pairAt tbl b i r).1 ∈ t.relations := by
    rw [h.relations]
    exact List.mem_append_right _ (List.mem_flatMap.mpr ⟨_, hi, List.mem_cons_self⟩)
  obtain ⟨j, q, hj, -, he⟩ := mem_pairsFrom hi
  have hij : i = j := congrArg (fun p => p.1.id) he
  have hid : (pairAt tbl b i r).1.id ≠ 0 := by
    have hi : (pairAt tbl b i r).1.id = i := rfl
    omega
  obtain ⟨f, o, type, -, -, -, hf, ho, -⟩ := ht.columns.relations _ hrow hid
  rcases List.mem_cons.mp hn with rfl | hn
  · exact (h.only _ _ hf).1
  · rw [List.mem_singleton.mp hn]
    exact (h.only _ _ ho).1

/-- Without anchors and external objects such a document is imported exactly when it declares
every name that a record uses. -/
theorem importDocumentJson_ok_iff {parse : String → Option Json} {srv : Server}
    (hsrv : Reliable srv) {text : String} {members : List (String × Json)}
    (hp : parse text = some (.object members)) (hne : members ≠ [])
    (hdoc : JoinsNames (.object members)) {s : Store} (hs : s.Reachable) (bundleName : String)
    (outId : Option ℕ) (calls : ℕ) :
    (importDocumentJson parse srv text bundleName [] 0 outId ⟨s, calls⟩).1.1 = .ret .ok ↔
      ∀ n ∈ relatedNames (.object members), n ∈ declaredNames (.object members) := by
  constructor
  · intro hok n hn
    obtain ⟨b, hrun, -⟩ := importDocument_of_ok hok
    obtain ⟨-, tbl, hgraph⟩ := importDocument_graph hsrv hp hne hdoc.distinct hrun
    have hkeeps : Keeps (Grown s) (importDocument parse srv text bundleName [] 0) fun _ => True :=
      keeps_importDocument (importClosed_grown s) parse text bundleName [] 0
    have hgrown := (ensures_of_keeps hkeeps).of_run (grown_refl hs) hrun
    rw [← endpointNames_recordsOf] at hn
    have hdecl := related_declared_of_graph hgraph hgrown.reachable hs.valid.next_relation n hn
    rwa [declared_names] at hdecl
  · intro hdecl
    have hrelates : RelatesDeclared (.object members) := by
      refine ⟨hdoc.sections, fun d hd e he key hkey => ?_, hdoc.scalar⟩
      obtain ⟨n, hn⟩ := hdoc.endpoints d hd e he key hkey
      refine ⟨n, hn, hdecl n (mem_relatedNames.mpr ⟨d, hd, e, he, key, hkey, ?_⟩)⟩
      rw [endpointName, hn]
      rfl
    obtain ⟨b, w, hrun⟩ :=
      importDocument_accepts hsrv hp hne hdoc.objects hrelates hs bundleName calls
    rw [importDocumentJson, hrun]

/-- The document of an export that returns, before it is made a text. -/
def exportedDocument (srv : Server) (bundles : List ℕ) (w : World) : Option Json :=
  match fold (exportBundle srv) ([], .null) bundles w with
  | (.ok out, _) => some out.2
  | (.error _, _) => none

theorem exportedDocument_of_ok {dump : Json → String} {srv : Server} {bundles : List ℕ}
    {w w' : World} {text : String} (h : exportBundleJson dump srv bundles w = (.ok text, w')) :
    ∃ document, exportedDocument srv bundles w = some document ∧ text = dump document := by
  unfold exportBundleJson at h
  rw [bind_run] at h
  unfold exportedDocument
  rcases hr : fold (exportBundle srv) ([], .null) bundles w with ⟨r, t⟩
  rw [hr] at h
  cases r with
  | ok out =>
    cases h
    exact ⟨out.2, rfl, rfl⟩
  | error e => cases h

theorem exported_of_keeps {srv : Server} {b : ℕ} {t : Store} {R : NameTable × Json → Prop}
    (h : Keeps (· = t) (exportBundle srv ([], .null) b) R) {calls : ℕ}
    (hd : exportedDocument srv [b] ⟨t, calls⟩ = some document) :
    ∃ out, out.2 = document ∧ R out := by
  unfold exportedDocument fold at hd
  rw [bind_run] at hd
  rcases Triple.cases h (s := ⟨t, calls⟩) rfl with ⟨out, w, hr, hout⟩ | ⟨e, w, hr, -⟩
  · rw [hr] at hd
    cases hd
    exact ⟨out, rfl, hout.2⟩
  · rw [hr] at hd
    cases hd

structure Exported (t : Store) (b : ℕ) (document : Json) : Prop where
  joins : JoinsNames document
  nonempty : ∃ members, document = .object members ∧ members ≠ []
  related : ∀ n, n ∈ relatedNames document ↔ ∃ c ∈ t.bundleObjects b, nameOf t c.id = n
  declared : ∀ n, n ∈ declaredNames document ↔
    ∃ o ∈ (t.bundleObjects b).filterMap ObjectRow.info,
      (∃ u ∈ objectSections, o.type = u.1) ∧ objectName o = n

theorem section_of_type {type : ℤ} (h : EnsureOType type) (hne : type ≠ cplBundle) :
    ∃ u ∈ objectSections, type = u.1 := by
  simp only [EnsureOType, not_or, not_lt] at h
  obtain ⟨h1, h4⟩ := h
  interval_cases type
  · exact ⟨(cplEntity, cplEntityStr), by decide, rfl⟩
  · exact ⟨(cplActivity, cplActivityStr), by decide, rfl⟩
  · exact ⟨(cplAgent, cplAgentStr), by decide, rfl⟩
  · exact absurd rfl hne

theorem declared_iff {t : Store} {b : ℕ} {objects : Json}
    (hdistinct : (((t.bundleObjects b).filterMap ObjectRow.info).map objectName).Nodup)
    (hobjects : ObjectDocument ((t.bundleObjects b).filterMap ObjectRow.info) objects)
    (hsame : ∀ u ∈ objectSections, document.membersAt u.2 = objects.membersAt u.2) :
    (declaredNames document).Nodup ∧ ∀ n, n ∈ declaredNames document ↔
      ∃ o ∈ (t.bundleObjects b).filterMap ObjectRow.info,
        (∃ u ∈ objectSections, o.type = u.1) ∧ objectName o = n := by
  have hkeys : ∀ u ∈ objectSections, ∀ n, n ∈ (document.membersAt u.2).map Prod.fst ↔
      ∃ o ∈ (t.bundleObjects b).filterMap ObjectRow.info, o.type = u.1 ∧ objectName o = n := by
    intro u hu n
    rw [hsame u hu]
    exact hobjects.names u hu n
  constructor
  · have hpairs : objectSections.Pairwise fun u v => u.1 ≠ v.1 := by decide
    refine List.nodup_flatMap.mpr ⟨fun u hu => ?_, hpairs.imp_of_mem fun {u v} hu hv hne => ?_⟩
    · rw [hsame u hu]
      exact (hobjects.sorted u hu).nodup_keys
    · intro n hnu hnv
      obtain ⟨o, ho, hou, hon⟩ := (hkeys u hu n).mp hnu
      obtain ⟨o', ho', hov, hon'⟩ := (hkeys v hv n).mp hnv
      have hoo : o = o' := List.inj_on_of_nodup_map hdistinct ho ho' (hon.trans hon'.symm)
      rw [hoo] at hou
      exact hne (hou.symm.trans hov)
  · intro n
    rw [declaredNames, List.mem_flatMap]
    constructor
    · rintro ⟨u, hu, hn⟩
      obtain ⟨o, ho, htype, hname⟩ := (hkeys u hu n).mp hn
      exact ⟨o, ho, ⟨u, hu, htype⟩, hname⟩
    · rintro ⟨o, ho, ⟨u, hu, htype⟩, hname⟩
      exact ⟨u, hu, (hkeys u hu n).mpr ⟨o, ho, htype, hname⟩⟩

section Exported

variable {t : Store} {b : ℕ} (ht : t.Reachable) (hb : LinkedBundle t b)

include ht hb

theorem related_iff (h : RecordsOf (nameOf t)
    ((t.bundleRelations b).filterMap RelationRow.entry) document) (n : String) :
    n ∈ relatedNames document ↔ ∃ c ∈ t.bundleObjects b, nameOf t c.id = n := by
  rw [mem_relatedNames]
  constructor
  · rintro ⟨d, hd, e, he, key, hkey, rfl⟩
    obtain ⟨q, hq, hends⟩ := h.origin d hd e he
    obtain ⟨r, hr, hrq⟩ := List.mem_filterMap.mp hq
    obtain ⟨q', hq', hfrom, hto, -⟩ := bundleRelations_entry ht hr
    obtain rfl : q = q' := Option.some.inj (hrq.symm.trans hq')
    rcases hkey with rfl | rfl
    · obtain ⟨c, hc, hid⟩ := List.mem_map.mp (ends_listed hb hr (Or.inl hfrom))
      exact ⟨c, hc, by rw [endpointName, hends.source, hid]; rfl⟩
    · obtain ⟨c, hc, hid⟩ := List.mem_map.mp (ends_listed hb hr (Or.inr hto))
      exact ⟨c, hc, by rw [endpointName, hends.dest, hid]; rfl⟩
  · rintro ⟨c, hc, rfl⟩
    obtain ⟨-, r, hr, hend⟩ := mem_bundleObjects.mp hc
    obtain ⟨q, hq, hfrom, hto, -⟩ := bundleRelations_entry ht hr
    obtain ⟨d, hd, v, hv, hends⟩ := h.record q (List.mem_filterMap.mpr ⟨r, hr, hq⟩)
    refine ⟨d, hd, _, OrderedMap.mem_of_find hv, ?_⟩
    rcases hend with hend | hend
    · have hid : q.queryObjectId = c.id := Option.some.inj (hfrom.symm.trans hend)
      exact ⟨d.sourceStr, Or.inl rfl, by rw [endpointName, hends.source, hid]; rfl⟩
    · have hid : q.otherObjectId = c.id := Option.some.inj (hto.symm.trans hend)
      exact ⟨d.destStr, Or.inr rfl, by rw [endpointName, hends.dest, hid]; rfl⟩

theorem exported_nonempty (h : RecordsOf (nameOf t)
    ((t.bundleRelations b).filterMap RelationRow.entry) document) :
    ∃ members, document = .object members ∧ members ≠ [] := by
  obtain ⟨r, hr⟩ := List.exists_mem_of_ne_nil _ hb.nonempty
  obtain ⟨q, hq, -⟩ := bundleRelations_entry ht hr
  obtain ⟨d, -, v, hv, -⟩ := h.record q (List.mem_filterMap.mpr ⟨r, hr, hq⟩)
  cases document with
  | object members =>
    refine ⟨members, rfl, ?_⟩
    rintro rfl
    cases hv
  | _ => cases hv

theorem exported_of_some {srv : Server} (hsrv : Reliable srv) {calls : ℕ}
    (hd : exportedDocument srv [b] ⟨t, calls⟩ = some document) : Exported t b document := by
  obtain ⟨out, rfl, objects, hobjects, hsame, hrecords⟩ :=
    exported_of_keeps (keeps_exportBundle hsrv ht hb) hd
  obtain ⟨out', he, hshaped⟩ := exported_of_keeps (keeps_exportBundle_shaped b) hd
  rw [he] at hshaped
  obtain ⟨hdistinct, hdeclared⟩ := declared_iff hb.distinct hobjects hsame
  have haccepts : AcceptsObjects out.2 := by
    refine ⟨hshaped.sections _, ?_, fun u _ => hshaped.sections u.2,
      fun u _ => hshaped.members u.2⟩
    rw [Json.membersAt, hshaped.noPrefixes]
    simp
  refine ⟨⟨haccepts, fun d _ => hshaped.sections d.typeStr, ?_, ?_, hdistinct⟩,
    exported_nonempty ht hb hrecords, related_iff ht hb hrecords, hdeclared⟩
  · intro d hd e he key hkey
    obtain ⟨q, -, hends⟩ := hrecords.origin d hd e he
    rcases hkey with rfl | rfl
    · exact ⟨_, hends.source⟩
    · exact ⟨_, hends.dest⟩
  · intro d _ e he
    exact HoldsProperties.members (hshaped.members d.typeStr e he)

/-- Every name that the document uses is declared unless it is that of a bundle. -/
theorem related_declared_iff (h : Exported t b document) :
    (∀ n ∈ relatedNames document, n ∈ declaredNames document) ↔ NoBundleEnds t b := by
  have hread : ∀ c ∈ t.bundleObjects b, ∃ o ∈ (t.bundleObjects b).filterMap ObjectRow.info,
      objectName o = nameOf t c.id ∧ c.type = some o.type ∧ EnsureOType o.type := by
    intro c hc
    obtain ⟨hid, hinfo⟩ := bundleObjects_info ht hc
    obtain ⟨hmem, -⟩ := mem_bundleObjects.mp hc
    obtain ⟨p, n, type, htype, hp, hn, hct⟩ := ht.columns.objects c hmem hid
    obtain ⟨o, ho⟩ := Option.isSome_iff_exists.mp hinfo
    have hotype : o.type = type := by
      rw [ObjectRow.info, hp, hn, hct] at ho
      cases ho
      rfl
    refine ⟨o, List.mem_filterMap.mpr ⟨c, hc, ho⟩, (nameOf_row ht.valid hmem ho).symm, ?_, ?_⟩
    · rw [hct, hotype]
    · rwa [hotype]
  constructor
  · intro hall c hc hbundle
    obtain ⟨o, ho, hname, htype, -⟩ := hread c hc
    have hn := hall _ ((h.related _).mpr ⟨c, hc, rfl⟩)
    obtain ⟨o', ho', ⟨u, hu, hu'⟩, hname'⟩ := (h.declared _).mp hn
    have hoo : o' = o := List.inj_on_of_nodup_map hb.distinct ho' ho (hname'.trans hname.symm)
    have hne : ∀ u ∈ objectSections, u.1 ≠ cplBundle := by decide
    rw [hbundle, Option.some.injEq] at htype
    exact hne u hu (hu'.symm.trans ((congrArg ObjectInfo.type hoo).trans htype.symm))
  · intro hno n hn
    obtain ⟨c, hc, rfl⟩ := (h.related n).mp hn
    obtain ⟨o, ho, hname, htype, hensure⟩ := hread c hc
    have hne : o.type ≠ cplBundle := fun he => hno c hc (htype.trans (congrArg some he))
    refine (h.declared _).mpr ⟨o, ho, section_of_type hensure hne, hname⟩

end Exported

/-- The document of a closed bundle is imported, into any store, exactly when no relation of
the bundle ends in a bundle. -/
theorem reimport_ok_iff {parse : String → Option Json} {dump : Json → String}
    {srv importer : Server} (hsrv : Reliable srv) (himporter : Reliable importer) {t : Store}
    (ht : t.Reachable) {b : ℕ} (hb : ClosedBundle t b) {calls : ℕ} {text : String} {w : World}
    (hexport : exportBundleJson dump srv [b] ⟨t, calls⟩ = (.ok text, w))
    (hreads : ∀ document, exportedDocument srv [b] ⟨t, calls⟩ = some document →
      parse (dump document) = some document) {s : Store} (hs : s.Reachable) (bundleName : String)
    (outId : Option ℕ) (calls' : ℕ) :
    (importDocumentJson parse importer text bundleName [] 0 outId ⟨s, calls'⟩).1.1 = .ret .ok ↔
      NoBundleEnds t b := by
  obtain ⟨document, hdocument, rfl⟩ := exportedDocument_of_ok hexport
  have hexported := exported_of_some ht hb hsrv hdocument
  have hp := hreads document hdocument
  rw [← related_declared_iff ht hb hexported]
  obtain ⟨members, rfl, hne⟩ := hexported.nonempty
  exact importDocumentJson_ok_iff himporter hp hne hexported.joins hs bundleName outId calls'

def bundleStore (fromId toId : ℕ) (type : ℤ) : Store :=
  (((Store.fresh.insertObject "b" "" cplBundle 0).insertObject "" "e" cplEntity 1).insertRelation
    fromId toId type).insertRelation 1 1 bundleRelation

theorem bundleStore_reachable {f o : ℕ} {type : ℤ} (hf : f ≠ 0) (ho : o ≠ 0)
    (ht : EnsureRType type) : (bundleStore f o type).Reachable :=
  .addRelation 1 1 bundleRelation (by decide) (by decide) (by decide)
    (.addRelation f o type hf ho ht (.createObject _ _ _ _ (by decide)
      (.createObject _ _ _ _ (by decide) .fresh)))

theorem bundleStore_bundleRelations (f o : ℕ) {type : ℤ} (h : type ≠ bundleRelation) :
    (bundleStore f o type).bundleRelations 1 = [⟨1, some f, some o, some type⟩] := by
  simp [bundleStore, Store.bundleRelations, Store.memberships, Store.insertRelation,
    Store.insertObject, Store.fresh, h]

theorem bundleStore_closed {f o : ℕ} {type : ℤ} (hf : f = 1 ∨ f = 2) (ho : o = 1 ∨ o = 2)
    (h1 : 1 ≤ type) (h19 : type ≤ 19)
    (hdistinct : ((((bundleStore f o type).bundleObjects 1).filterMap ObjectRow.info).map
      objectName).Nodup) : ClosedBundle (bundleStore f o type) 1 := by
  have htype : type ≠ bundleRelation := by
    rintro rfl
    exact absurd h19 (by decide)
  have hstored : ∀ id, id = 1 ∨ id = 2 → id ∈ (bundleStore f o type).objects.map (·.id) := by
    rintro id (rfl | rfl) <;>
      simp [bundleStore, Store.insertRelation, Store.insertObject, Store.fresh]
  have hone := bundleStore_bundleRelations f o htype
  have hnone : (bundleStore f o type).objectProperties = [] ∧
      (bundleStore f o type).relationProperties = [] := ⟨rfl, rfl⟩
  refine ⟨by simp [hone], ?_, ?_, hdistinct, by simp [hnone.1], by simp [hnone.2]⟩
  · intro r hr
    rw [hone, List.mem_singleton] at hr
    exact ⟨type, by rw [hr], h1, h19⟩
  · intro r hr id hend
    rw [hone, List.mem_singleton] at hr
    subst hr
    rcases hend with hend | hend <;> cases hend
    · exact hstored _ hf
    · exact hstored _ ho

/-- The bundle holds an entity by a relation of type `InBundle`. -/
def heldDocument : Json := .object [("entity", .object [("e", .null)]),
  ("inBundle", .object [("1", .object [("prov:bundle", .string "b:"),
    ("prov:object", .string "e")])])]

def heldText (_ : Json) : String :=
  "\x7b\"entity\":\x7b\"e\":null\x7d,\"inBundle\":" ++
  "\x7b\"1\":\x7b\"prov:bundle\":\"b:\",\"prov:object\":\"e\"\x7d\x7d\x7d"

def heldParse (text : String) : Option Json :=
  if text = heldText .null then some heldDocument else none

/-- The export names the bundle as an end of its record but does not declare it. -/
theorem held_bundle_not_imported :
    (bundleStore 1 2 inBundle).Reachable ∧ ClosedBundle (bundleStore 1 2 inBundle) 1 ∧
      exportedDocument .ideal [1] ⟨bundleStore 1 2 inBundle, 0⟩ = some heldDocument ∧
      (exportBundleJson heldText .ideal [1] ⟨bundleStore 1 2 inBundle, 0⟩).1 =
        .ok (heldText heldDocument) ∧
      heldParse (heldText heldDocument) = some heldDocument ∧
      (importDocumentJson heldParse .ideal (heldText heldDocument) "c" [] 0 none
        ⟨bundleStore 1 2 inBundle, 0⟩).1.1 = .ret .internalError :=
  ⟨bundleStore_reachable (by decide) (by decide) (by decide),
    bundleStore_closed (Or.inl rfl) (Or.inr rfl) (by decide) (by decide) (by decide), rfl, rfl,
    if_pos rfl, by decide⟩

def derivedDocument : Json := .object [("entity", .object [("e", .null)]),
  ("wasDerivedFrom", .object [("1", .object [("prov:generatedEntity", .string "e"),
    ("prov:usedEntity", .string "e")])])]

def derivedText (_ : Json) : String :=
  "\x7b\"entity\":\x7b\"e\":null\x7d,\"wasDerivedFrom\":\x7b\"1\":" ++
  "\x7b\"prov:generatedEntity\":\"e\",\"prov:usedEntity\":\"e\"\x7d\x7d\x7d"

def derivedParse (text : String) : Option Json :=
  if text = derivedText .null then some derivedDocument else none

theorem derived_exported :
    exportedDocument .ideal [1] ⟨bundleStore 2 2 wasDerivedFrom, 0⟩ = some derivedDocument := rfl

theorem reimport_ok_iff_derived :
    (importDocumentJson derivedParse .ideal (derivedText derivedDocument) "c" [] 0 none
      ⟨bundleStore 2 2 wasDerivedFrom, 0⟩).1.1 = .ret .ok := by
  have hexport : exportBundleJson derivedText .ideal [1] ⟨bundleStore 2 2 wasDerivedFrom, 0⟩ =
      (.ok (derivedText derivedDocument), _) := rfl
  have hreads : ∀ document, exportedDocument .ideal [1] ⟨bundleStore 2 2 wasDerivedFrom, 0⟩ =
      some document → derivedParse (derivedText document) = some document := by
    intro document hdocument
    rw [derived_exported] at hdocument
    cases hdocument
    exact if_pos rfl
  have hreach : (bundleStore 2 2 wasDerivedFrom).Reachable :=
    bundleStore_reachable (by decide) (by decide) (by decide)
  have hclosed : ClosedBundle (bundleStore 2 2 wasDerivedFrom) 1 :=
    bundleStore_closed (Or.inr rfl) (Or.inr rfl) (by decide) (by decide) (by decide)
  exact (reimport_ok_iff Server.ideal_reliable Server.ideal_reliable hreach hclosed hexport hreads
    hreach "c" none 0).mpr (by unfold NoBundleEnds; decide)

end Reimport
