import ProvCpl.ExportedGraph

/-! # Bundles that move between stores

A bundle is exported from one store and its text is imported into another. What is compared is
what a bundle says in names: its objects by type and full name, and its relations by type and the
names at their ends, each as often as it is there. -/
namespace BundleTransfer

open CplTypes QualifiedName JsonValue ProvStore ProvServer ImportDocument ImportFrame
open ImportAccepts ImportGraph ExportDocument ExportShape RoundTrip BundleMembers Reimport
open ExportedGraph ValidateDocument EarlyExit

section Keyed

variable {α β κ ν : Type} [DecidableEq κ] [DecidableEq ν]

theorem count_keyed (key : α → κ) (val : α → ν) (l : List α) (k : κ) (v : ν) :
    (l.map fun a => (key a, val a)).count (k, v) =
      ((l.filter fun a => key a = k).map val).count v := by
  induction l with
  | nil => rfl
  | cons a l ih =>
    by_cases hk : key a = k
    · simp [List.count_cons, ih, hk]
    · simp [ih, hk]

/-- Lists that agree under every key agree. -/
theorem perm_of_filters {key : α → κ} {val : α → ν} {key' : β → κ} {val' : β → ν} {l : List α}
    {l' : List β} (h : ∀ k, ((l.filter fun a => key a = k).map val).Perm
      ((l'.filter fun b => key' b = k).map val')) :
    (l.map fun a => (key a, val a)).Perm (l'.map fun b => (key' b, val' b)) := by
  rw [List.perm_iff_count]
  rintro ⟨k, v⟩
  rw [count_keyed, count_keyed]
  exact (h k).count_eq v

end Keyed

def bundleObjectNames (t : Store) (b : ℕ) : List (ℤ × String) :=
  ((t.bundleObjects b).filterMap ObjectRow.info).map fun o => (o.type, objectName o)

def bundleTriples (t : Store) (b : ℕ) : List (ℤ × String × String) :=
  ((t.bundleRelations b).filterMap RelationRow.entry).map fun e =>
    (e.type, nameOf t e.queryObjectId, nameOf t e.otherObjectId)

structure SameContents (p q : Store × ℕ) : Prop where
  objects : (bundleObjectNames q.1 q.2).Perm (bundleObjectNames p.1 p.2)
  relations : (bundleTriples q.1 q.2).Perm (bundleTriples p.1 p.2)

theorem SameContents.refl (p : Store × ℕ) : SameContents p p :=
  ⟨List.Perm.refl _, List.Perm.refl _⟩

theorem SameContents.trans {p q r : Store × ℕ} (h : SameContents p q) (h' : SameContents q r) :
    SameContents p r :=
  ⟨h'.objects.trans h.objects, h'.relations.trans h.relations⟩

/-- A bundle that the document format can carry: its relations were put in once each and join
entities, agents and activities, whose names differ and survive the split at the colon. -/
structure Transferable (t : Store) (b : ℕ) : Prop where
  linked : LinkedBundle t b
  once : ((t.bundleRelations b).map (·.id)).Nodup
  noBundles : NoBundleEnds t b
  columns : ∀ c ∈ t.bundleObjects b, FitsColumns (nameOf t c.id)
  objectRows : ∀ c ∈ t.bundleObjects b, ∀ q ∈ t.objectProperties, q.id = c.id → Written q
  relationRows : ∀ r ∈ t.bundleRelations b, ∀ q ∈ t.relationProperties, q.id = r.id → Written q

section Source

variable {t : Store} {b : ℕ} (ht : t.Reachable)

include ht

theorem Transferable.exportable (h : Transferable t b) : Exportable t b (nameOf t) where
  bundle := bundle_ne_zero ht h.linked.nonempty
  objects := by
    intro c hc
    obtain ⟨hid, hinfo⟩ := bundleObjects_info ht hc
    obtain ⟨o, ho⟩ := Option.isSome_iff_exists.mp hinfo
    exact ⟨hid, o, ho, (nameOf_row ht.valid (mem_bundleObjects.mp hc).1 ho).symm⟩
  objectRows := h.objectRows
  relations := by
    intro r hr
    obtain ⟨e, he, hfrom, hto, htype⟩ := bundleRelations_entry ht hr
    have hid : r.id ≠ 0 := by
      intro h0
      rw [(ht.columns.reserved r (mem_bundleRelations.mp hr).1 h0).1] at hfrom
      cases hfrom
    obtain ⟨type, htype', h1, h19⟩ := h.linked.types r hr
    obtain rfl : e.type = type := Option.some.inj (htype.symm.trans htype')
    obtain ⟨d, hd, hde⟩ := relationSection_of_type h1 h19
    exact ⟨hid, e, he, ⟨d, hd, hde.symm⟩, ends_listed h.linked hr (Or.inl hfrom),
      ends_listed h.linked hr (Or.inr hto)⟩
  relationRows := h.relationRows
  relationIds := h.once

theorem mem_bundleObjectNames {type : ℤ} {n : String} :
    (type, n) ∈ bundleObjectNames t b ↔
      ∃ c ∈ t.bundleObjects b, c.type = some type ∧ nameOf t c.id = n := by
  have hrow : ∀ c o, c ∈ t.bundleObjects b → ObjectRow.info c = some o →
      c.type = some o.type ∧ nameOf t c.id = objectName o := by
    intro c o hc ho
    refine ⟨?_, nameOf_row ht.valid (mem_bundleObjects.mp hc).1 ho⟩
    unfold ObjectRow.info at ho
    split at ho
    · next hct =>
      cases ho
      exact hct
    · cases ho
  simp only [bundleObjectNames, List.mem_map, List.mem_filterMap, Prod.mk.injEq]
  constructor
  · rintro ⟨o, ⟨c, hc, ho⟩, rfl, rfl⟩
    exact ⟨c, hc, hrow c o hc ho⟩
  · rintro ⟨c, hc, hct, rfl⟩
    obtain ⟨o, ho⟩ := Option.isSome_iff_exists.mp (bundleObjects_info ht hc).2
    obtain ⟨htype, hname⟩ := hrow c o hc ho
    exact ⟨o, ⟨c, hc, ho⟩, Option.some.inj (htype.symm.trans hct), hname.symm⟩

theorem bundleTriples_ne_nil (h : t.bundleRelations b ≠ []) : bundleTriples t b ≠ [] := by
  obtain ⟨r, hr⟩ := List.exists_mem_of_ne_nil _ h
  obtain ⟨e, he, -⟩ := bundleRelations_entry ht hr
  exact List.ne_nil_of_mem (List.mem_map_of_mem (List.mem_filterMap.mpr ⟨r, hr, he⟩))

end Source

structure Carries (t : Store) (b : ℕ) (document : Json) : Prop where
  exported : Exported t b document
  objects : ∀ u ∈ objectSections, ∀ n, n ∈ (document.membersAt u.2).map Prod.fst ↔
    ∃ o ∈ (t.bundleObjects b).filterMap ObjectRow.info, o.type = u.1 ∧ objectName o = n
  relations : ∀ d ∈ relationSections, (edges document d).Perm
    ((((t.bundleRelations b).filterMap RelationRow.entry).filter fun e => e.type = d.type).map
      fun e => (nameOf t e.queryObjectId, nameOf t e.otherObjectId))

theorem carries_of_some {srv : Server} (hsrv : Reliable srv) {t : Store} (ht : t.Reachable)
    {b : ℕ} (h : Transferable t b) {calls : ℕ} {document : Json}
    (hd : exportedDocument srv [b] ⟨t, calls⟩ = some document) : Carries t b document := by
  have hne : ∀ d ∈ relationSections, ∀ u ∈ objectSections, d.typeStr ≠ u.2 := by decide
  obtain ⟨out, rfl, objects, hobjects, hrelations⟩ :=
    exported_of_keeps (keeps_of_succeeds (succeeds_exportBundle hsrv (h.exportable ht))) hd
  refine ⟨exported_of_some ht h.linked hsrv hd, fun u hu n => ?_, hrelations.relations⟩
  have hsame : out.2.membersAt u.2 = objects.membersAt u.2 := by
    rw [Json.membersAt, Json.membersAt, hrelations.only u.2 fun d hd => hne d hd u hu]
  rw [hsame]
  exact hobjects.names u hu n

section Target

variable {t base t' : Store} {b b' : ℕ} {document : Json} {tbl : LookupTable}
  (ht : t.Reachable) (h : Transferable t b) (hc : Carries t b document)
  (hs : StoredGraph base b' (declared document) tbl (recordsOf document) t')

include hs in
theorem find_nameOf {c : ObjectRow} (hmem : c ∈ t'.bundleObjects b') :
    OrderedMap.find (nameOf t' c.id) tbl = some c.id := by
  obtain ⟨hrow, n, hn, hf⟩ := hs.mem_objects.mp hmem
  obtain ⟨c', -, hf', hname⟩ := hs.endpoint hn
  have hid : c'.id = c.id := Option.some.inj (hf'.symm.trans hf)
  rw [← hid, hname, hf', hid]

include hs in
theorem imported_distinct (ht' : t'.Reachable) :
    (((t'.bundleObjects b').filterMap ObjectRow.info).map objectName).Nodup := by
  have hnames : ((t'.bundleObjects b').filterMap ObjectRow.info).map objectName =
      (t'.bundleObjects b').map fun c => nameOf t' c.id := by
    rw [List.map_filterMap, ← List.filterMap_eq_map]
    refine List.filterMap_congr fun c hmem => ?_
    obtain ⟨o, ho⟩ := Option.isSome_iff_exists.mp (bundleObjects_info ht' hmem).2
    have hname := nameOf_row ht'.valid (mem_bundleObjects.mp hmem).1 ho
    rw [ho, Option.map_some, ← hname]
    rfl
  rw [hnames]
  refine List.Nodup.map_on (fun c hmem c' hmem' he => ?_) (List.nodup_dedup _)
  have hf := find_nameOf hs hmem
  rw [he, find_nameOf hs hmem'] at hf
  exact List.inj_on_of_nodup_map ht'.valid.object_ids (mem_bundleObjects.mp hmem).1
    (mem_bundleObjects.mp hmem').1 (Option.some.inj hf).symm

include ht h hc hs in
theorem mem_imported_names {type : ℤ} {n : String} :
    (type, n) ∈ bundleObjectNames t' b' ↔ (type, n) ∈ bundleObjectNames t b := by
  have hlisted : ∀ s c, (type, n) ∈ bundleObjectNames s c ↔
      ∃ o ∈ (s.bundleObjects c).filterMap ObjectRow.info, o.type = type ∧ objectName o = n := by
    intro s c
    simp [bundleObjectNames]
  have hrelated : n ∈ endpointNames (recordsOf document) ↔
      ∃ c ∈ t.bundleObjects b, nameOf t c.id = n := by
    rw [endpointNames_recordsOf, hc.exported.related]
  rw [hlisted t' b', hs.listed_iff, hrelated]
  constructor
  · rintro ⟨hd, -⟩
    obtain ⟨u, hu, e, he, htype⟩ : ∃ u ∈ objectSections, ∃ e ∈ document.membersAt u.2,
        (u.1, e.1) = (type, n) := by
      simpa [declared] using hd
    cases htype
    exact (hlisted t b).mpr ((hc.objects u hu _).mp (List.mem_map_of_mem he))
  · intro hmem
    obtain ⟨c, hcb, hct, hname⟩ := (mem_bundleObjectNames ht).mp hmem
    refine ⟨?_, c, hcb, hname⟩
    obtain ⟨-, -, type', hensure, -, -, hct'⟩ :=
      ht.columns.objects c (mem_bundleObjects.mp hcb).1 (bundleObjects_info ht hcb).1
    obtain rfl : type = type' := Option.some.inj (hct.symm.trans hct')
    have hne : type ≠ cplBundle := fun he => h.noBundles c hcb (hct.trans (congrArg some he))
    obtain ⟨u, hu, rfl⟩ := section_of_type hensure hne
    exact (mem_declared hu).mpr ((hc.objects u hu n).mpr ((hlisted t b).mp hmem))

include ht h hc hs in
theorem imported_same (ht' : t'.Reachable) : SameContents (t, b) (t', b') where
  objects := by
    have hnodup : ∀ s c, (((s.bundleObjects c).filterMap ObjectRow.info).map objectName).Nodup →
        (bundleObjectNames s c).Nodup := by
      intro s c hn
      refine List.Nodup.of_map Prod.snd ?_
      rwa [bundleObjectNames, List.map_map]
    refine (List.perm_ext_iff_of_nodup (hnodup t' b' (imported_distinct hs ht'))
      (hnodup t b h.linked.distinct)).mpr ?_
    rintro ⟨type, n⟩
    exact mem_imported_names ht h hc hs
  relations := by
    refine perm_of_filters fun type => ?_
    rw [hs.listed_edges type]
    by_cases hd : ∃ d ∈ relationSections, d.type = type
    · obtain ⟨d, hd, rfl⟩ := hd
      rw [recordsOf_filter hd, List.map_map]
      exact hc.relations d hd
    · -- no record and no relation is of a type without a section
      have hrecords : (recordsOf document).filter (fun r => r.entry.type = type) = [] := by
        rw [List.filter_eq_nil_iff]
        intro r hr he
        exact hd ⟨r.entry, recordsOf_sections r hr, of_decide_eq_true he⟩
      have hentries : ((t.bundleRelations b).filterMap RelationRow.entry).filter
          (fun e => e.type = type) = [] := by
        rw [List.filter_eq_nil_iff]
        intro e he htype
        obtain ⟨r, hr, hre⟩ := List.mem_filterMap.mp he
        obtain ⟨-, e', he', ⟨d, hmem, hde⟩, -⟩ := (h.exportable ht).relations r hr
        obtain rfl : e = e' := Option.some.inj (hre.symm.trans he')
        exact hd ⟨d, hmem, hde.symm.trans (of_decide_eq_true htype)⟩
      rw [hrecords, hentries]
      exact List.Perm.refl _

include ht h hc hs in
theorem imported_nonempty (ht' : t'.Reachable) : t'.bundleRelations b' ≠ [] := by
  intro hnil
  have htriples := (imported_same ht h hc hs ht').relations
  simp only [bundleTriples, hnil, List.filterMap_nil, List.map_nil, List.nil_perm] at htriples
  exact bundleTriples_ne_nil ht h.linked.nonempty htriples

include hs in
theorem imported_ends {r : RelationRow} (hr : r ∈ t'.bundleRelations b') :
    (∃ d ∈ relationSections, r.type = some d.type) ∧
      ∀ id, r.fromId = some id ∨ r.toId = some id → id ∈ (t'.bundleObjects b').map (·.id) := by
  rw [hs.relations_eq] at hr
  obtain ⟨p, hp, rfl⟩ := List.mem_map.mp hr
  obtain ⟨i, q, -, hq, rfl⟩ := mem_pairsFrom hp
  refine ⟨⟨q.entry, hs.sections q hq, rfl⟩, fun id hend => ?_⟩
  have hlisted : ∀ n ∈ [q.source, q.dest], OrderedMap.find n tbl = some id →
      id ∈ (t'.bundleObjects b').map (·.id) := by
    intro n hn hf
    obtain ⟨c, hmem, hf', -⟩ := hs.endpoint (List.mem_flatMap.mpr ⟨q, hq, hn⟩)
    rw [Option.some.inj (hf.symm.trans hf')]
    exact List.mem_map_of_mem hmem
  rcases hend with hend | hend
  · exact hlisted _ (by simp) hend
  · exact hlisted _ (by simp) hend

include ht h hc hs in
/-- What has been carried over can be carried on. -/
theorem imported_transferable (ht' : t'.Reachable) (hexport : Exportable t' b' (nameOf t')) :
    Transferable t' b' := by
  have hmem : ∀ c ∈ t'.bundleObjects b', ∃ c' ∈ t.bundleObjects b,
      c'.type = c.type ∧ nameOf t c'.id = nameOf t' c.id := by
    intro c hcb
    obtain ⟨p, n, type, -, -, -, hct⟩ :=
      ht'.columns.objects c (mem_bundleObjects.mp hcb).1 (bundleObjects_info ht' hcb).1
    have hn := (mem_bundleObjectNames ht').mpr ⟨c, hcb, hct, rfl⟩
    obtain ⟨c', hc', hct', hname⟩ :=
      (mem_bundleObjectNames ht).mp ((mem_imported_names ht h hc hs).mp hn)
    exact ⟨c', hc', hct'.trans hct.symm, hname⟩
  refine ⟨⟨?_, ?_, ?_, imported_distinct hs ht'⟩, hexport.relationIds, ?_, ?_,
    hexport.objectRows, hexport.relationRows⟩
  · exact imported_nonempty ht h hc hs ht'
  · have hrange : ∀ d ∈ relationSections, 1 ≤ d.type ∧ d.type ≤ 19 := by decide
    intro r hr
    obtain ⟨⟨d, hd, htype⟩, -⟩ := imported_ends hs hr
    exact ⟨d.type, htype, hrange d hd⟩
  · intro r hr id hend
    obtain ⟨c, hcb, rfl⟩ := List.mem_map.mp ((imported_ends hs hr).2 id hend)
    exact List.mem_map_of_mem (mem_bundleObjects.mp hcb).1
  · intro c hcb hct
    obtain ⟨c', hc', htype, -⟩ := hmem c hcb
    exact h.noBundles c' hc' (htype.trans hct)
  · intro c hcb
    obtain ⟨c', hc', -, hname⟩ := hmem c hcb
    rw [← hname]
    exact h.columns c' hc'

include ht h hc hs in
theorem imported_noDangling (ht' : t'.Reachable) : t'.NoDangling := by
  have hbound : ∀ id ∈ (t'.bundleObjects b').map (·.id), id < t'.nextObject := by
    intro id hid
    obtain ⟨c, hcb, rfl⟩ := List.mem_map.mp hid
    exact ht'.valid.object_bound c (mem_bundleObjects.mp hcb).1
  have hbundle : b' < t'.nextObject := by
    obtain ⟨r, hr⟩ := List.exists_mem_of_ne_nil _ (imported_nonempty ht h hc hs ht')
    obtain ⟨e, -, hfrom, -⟩ := bundleRelations_entry ht' hr
    obtain ⟨c, hcb, -⟩ := List.mem_map.mp ((imported_ends hs hr).2 _ (Or.inl hfrom))
    have hlow := (hs.objectInfo hcb).1
    have hhigh := ht'.valid.object_bound c (mem_bundleObjects.mp hcb).1
    have hb := hs.bundle
    omega
  intro r hr
  rw [hs.graph.relations, List.mem_append] at hr
  have hobject := hs.graph.nextObject
  have hrelation := hs.graph.nextRelation
  rcases hr with hr | hr
  · obtain ⟨hfrom, hto⟩ := hs.noDangling r hr
    refine ⟨fun i hi => ?_, fun i hi => ?_⟩
    · have := hfrom i hi
      omega
    · have := hto i hi
      split_ifs at this ⊢ <;> omega
  · obtain ⟨p, hp, hr⟩ := List.mem_flatMap.mp hr
    have hlisted : p.1 ∈ t'.bundleRelations b' := by
      rw [hs.relations_eq]
      exact List.mem_map_of_mem hp
    obtain ⟨i, q, -, hq, rfl⟩ := mem_pairsFrom hp
    have htype := hs.types q hq
    have hends := (imported_ends hs hlisted).2
    rcases List.mem_cons.mp hr with rfl | hr
    · refine ⟨fun id hid => hbound id (hends id (Or.inl hid)), fun id hid => ?_⟩
      rw [if_neg (by simpa [pairAt] using htype)]
      exact hbound id (hends id (Or.inr hid))
    · rw [List.mem_singleton.mp hr]
      refine ⟨fun id hid => ?_, fun id hid => ?_⟩
      · cases hid
        exact hbundle
      · cases hid
        rw [if_pos (show (pairAt tbl b' i q).2.type = some bundleRelation from rfl)]
        exact ht'.valid.relation_bound _ (mem_bundleRelations.mp hlisted).1

end Target

/-- One move of a bundle: the servers on both sides, the JSON library, the store imported into
and the name given to the bundle there. -/
structure Hop where
  dump : Json → String
  parse : String → Option Json
  exporter : Server
  importer : Server
  base : Store
  bundleName : String
  exportCalls : ℕ
  importCalls : ℕ

def Hop.run (h : Hop) (p : Store × ℕ) : Option (Store × ℕ) :=
  match exportBundleJson h.dump h.exporter [p.2] ⟨p.1, h.exportCalls⟩ with
  | (.error _, _) => none
  | (.ok text, _) =>
    match importDocumentJson h.parse h.importer text h.bundleName [] 0 (some 0)
        ⟨h.base, h.importCalls⟩ with
    | ((.ret .ok, some b), w) => some (w.store, b)
    | _ => none

/-- The servers answer, the text of the document is read back, and the store imported into is
one that API calls can produce. -/
structure Hop.Sound (h : Hop) (p : Store × ℕ) : Prop where
  exporter : Reliable h.exporter
  importer : Reliable h.importer
  reads : ∀ document, exportedDocument h.exporter [p.2] ⟨p.1, h.exportCalls⟩ = some document →
    h.parse (h.dump document) = some document
  reachable : h.base.Reachable
  noDangling : h.base.NoDangling

/-- What every bundle on the way has, and what the store that receives it keeps. -/
structure Arrived (h : Hop) (p q : Store × ℕ) : Prop where
  reachable : q.1.Reachable
  noDangling : q.1.NoDangling
  transferable : Transferable q.1 q.2
  same : SameContents p q
  kept : FreshExtension h.base q.1

section Import

variable {t base : Store} {b b' calls : ℕ} {parse : String → Option Json} {srv : Server}
  {text bundleName : String} {members : List (String × Json)} {w' : World}
  (hrun : importDocument parse srv text bundleName [] 0 ⟨base, calls⟩ = (.ok b', w'))

include hrun

theorem imported_keeps {I : Store → Prop} (hI : ImportClosed I base.nextObject base.nextRelation)
    (hbase : I base) : I w'.store :=
  (ensures_of_keeps (keeps_importDocument hI parse text bundleName [] 0)).of_run hbase hrun

theorem imported_stored (hsrv : Reliable srv) (hp : parse text = some (.object members))
    (hne : members ≠ []) (ht : t.Reachable) (h : Transferable t b)
    (hc : Carries t b (.object members)) (hbase : base.Reachable) (hno : base.NoDangling) :
    ∃ tbl, StoredGraph base b' (declared (.object members)) tbl (recordsOf (.object members))
      w'.store := by
  obtain ⟨hb, tbl, hgraph⟩ :=
    importDocument_graph hsrv hp hne hc.exported.joins.distinct hrun
  have hgrown := imported_keeps hrun (importClosed_grown base) (grown_refl hbase)
  refine ⟨tbl, hgraph, hgrown.reachable.valid, hno, hb, ?_, recordsOf_sections, ?_⟩
  · rw [endpointNames_recordsOf, declared_names]
    exact (related_declared_iff ht h.linked hc.exported).mpr h.noBundles
  · intro d hd
    have hn : d.2 ∈ declaredNames (.object members) :=
      declared_names (.object members) ▸ List.mem_map_of_mem hd
    obtain ⟨o, ho, -, hname⟩ := (hc.exported.declared d.2).mp hn
    obtain ⟨c, hmem, hco⟩ := List.mem_filterMap.mp ho
    rw [← hname, ← nameOf_row ht.valid (mem_bundleObjects.mp hmem).1 hco]
    exact h.columns c hmem

end Import

/-- The text of a transferable bundle is imported, as a bundle of the same contents that can be
moved again. -/
theorem Hop.run_arrives {h : Hop} {p : Store × ℕ} (hp : p.1.Reachable)
    (ht : Transferable p.1 p.2) (hsound : h.Sound p) : ∃ q, h.run p = some q ∧ Arrived h p q := by
  obtain ⟨text, w, hexport, -⟩ := triple_returns
    (succeeds_exportBundleJson hsound.exporter (ht.exportable hp) h.dump)
    (s := ⟨p.1, h.exportCalls⟩) rfl
  obtain ⟨document, hdocument, rfl⟩ := exportedDocument_of_ok hexport
  have hcarries := carries_of_some hsound.exporter hp ht hdocument
  have hread := hsound.reads document hdocument
  obtain ⟨members, rfl, hne⟩ := hcarries.exported.nonempty
  have hok := (importDocumentJson_ok_iff hsound.importer hread hne hcarries.exported.joins
    hsound.reachable h.bundleName (some 0) h.importCalls).mpr
      ((related_declared_iff hp ht.linked hcarries.exported).mpr ht.noBundles)
  obtain ⟨b, w', hrun⟩ : ∃ b w', importDocument h.parse h.importer (h.dump (.object members))
      h.bundleName [] 0 ⟨h.base, h.importCalls⟩ = (.ok b, w') := by
    obtain ⟨b, hrun, -⟩ := importDocument_of_ok hok
    exact ⟨b, _, hrun⟩
  have hgrown := imported_keeps hrun (importClosed_grown h.base) (grown_refl hsound.reachable)
  have hreach := hgrown.reachable
  obtain ⟨tbl, hstored⟩ := imported_stored hrun hsound.importer hread hne hp ht hcarries
    hsound.reachable hsound.noDangling
  have hexportable := hstored.exportable hsound.reachable.valid.next_object
    hsound.reachable.valid.next_relation hgrown.objectRows hgrown.relationRows
  refine ⟨(w'.store, b), ?_, hreach, imported_noDangling hp ht hcarries hstored hreach,
    imported_transferable hp ht hcarries hstored hreach hexportable,
    imported_same hp ht hcarries hstored hreach,
    imported_keeps hrun (importClosed_fresh h.base) (FreshExtension.refl h.base)⟩
  simp only [Hop.run, hexport, importDocumentJson, hrun, Option.map_some]

def runHops : List Hop → Store × ℕ → Option (Store × ℕ)
  | [], p => some p
  | h :: hops, p => (h.run p).bind (runHops hops)

def SoundHops : List Hop → Store × ℕ → Prop
  | [], _ => True
  | h :: hops, p => h.Sound p ∧ ∀ q, h.run p = some q → SoundHops hops q

/-- Along any chain of stores a bundle arrives, with the contents that it started with. -/
theorem runHops_preserves_contents {hops : List Hop} {p : Store × ℕ} (hp : p.1.Reachable)
    (ht : Transferable p.1 p.2) (hsound : SoundHops hops p) :
    ∃ q, runHops hops p = some q ∧ q.1.Reachable ∧ Transferable q.1 q.2 ∧ SameContents p q := by
  induction hops generalizing p with
  | nil => exact ⟨p, rfl, hp, ht, SameContents.refl p⟩
  | cons h hops ih =>
    obtain ⟨q, hrun, harrived⟩ := Hop.run_arrives hp ht hsound.1
    obtain ⟨r, hrest, hr, htr, hsame⟩ :=
      ih harrived.reachable harrived.transferable (hsound.2 q hrun)
    refine ⟨r, ?_, hr, htr, harrived.same.trans hsame⟩
    rw [runHops, hrun, Option.bind_some, hrest]

def derivedHop : Hop where
  dump := derivedText
  parse := derivedParse
  exporter := .ideal
  importer := .ideal
  base := Store.fresh
  bundleName := "c"
  exportCalls := 0
  importCalls := 0

theorem derived_transferable : Transferable (bundleStore 2 2 wasDerivedFrom) 1 := by
  have hclosed : ClosedBundle (bundleStore 2 2 wasDerivedFrom) 1 :=
    bundleStore_closed (Or.inr rfl) (Or.inr rfl) (by decide) (by decide) (by decide)
  have hnone : (bundleStore 2 2 wasDerivedFrom).objectProperties = [] ∧
      (bundleStore 2 2 wasDerivedFrom).relationProperties = [] := ⟨rfl, rfl⟩
  have hobjects : (bundleStore 2 2 wasDerivedFrom).bundleObjects 1 =
      [⟨2, some "", some "e", some cplEntity, 1⟩] := by decide
  refine ⟨hclosed.linked, by decide, by unfold NoBundleEnds; decide, ?_, ?_, ?_⟩
  · have hname : nameOf (bundleStore 2 2 wasDerivedFrom) 2 = "e" := rfl
    rw [hobjects]
    intro c hc
    rw [List.mem_singleton.mp hc, hname]
    exact fitsColumns_of_noColon (by decide) (by decide) (by decide) (by decide) (by decide)
  · simp [hnone.1]
  · simp [hnone.2]

theorem runHops_preserves_contents_derived :
    ∃ q, runHops [derivedHop, derivedHop] (bundleStore 2 2 wasDerivedFrom, 1) = some q ∧
      q.1.Reachable ∧ Transferable q.1 q.2 ∧
      SameContents (bundleStore 2 2 wasDerivedFrom, 1) q := by
  have hreach : (bundleStore 2 2 wasDerivedFrom).Reachable :=
    bundleStore_reachable (by decide) (by decide) (by decide)
  have hsound : ∀ p, exportedDocument .ideal [p.2] ⟨p.1, 0⟩ = some derivedDocument →
      derivedHop.Sound p := by
    intro p hp
    refine ⟨Server.ideal_reliable, Server.ideal_reliable, fun document hd => ?_,
      Store.Reachable.fresh, Store.noDangling_fresh⟩
    obtain rfl : derivedDocument = document := Option.some.inj (hp.symm.trans hd)
    exact (if_pos rfl : derivedParse (derivedText derivedDocument) = some derivedDocument)
  refine runHops_preserves_contents hreach derived_transferable
    ⟨hsound _ derived_exported, fun q hq => ⟨hsound q ?_, fun _ _ => trivial⟩⟩
  have hrun : derivedHop.run (bundleStore 2 2 wasDerivedFrom, 1) = some _ := rfl
  obtain rfl := Option.some.inj (hrun.symm.trans hq)
  rfl

end BundleTransfer
