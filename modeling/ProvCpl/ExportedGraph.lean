import ProvCpl.Reimport

/-! # The graph of an exported document

The validator reads a graph of names off a document; the store holds a graph of ids. For a
bundle whose objects have different names the exporter carries the one over to the other, so
its documents are refused exactly for the cycles that the store holds. -/
namespace ExportedGraph

open CplTypes JsonValue ProvStore ProvServer ImportDocument ImportAccepts ImportGraph
open ExportDocument ExportShape RoundTrip BundleMembers Reimport ValidateDocument
open VertexNumbering

def BundleEdge (t : Store) (b i j : ℕ) : Prop :=
  ∃ r ∈ t.bundleRelations b, r.fromId = some i ∧ r.toId = some j

def bundleEdges (t : Store) (b : ℕ) : List (ℕ × ℕ) :=
  ((t.bundleRelations b).filterMap RelationRow.entry).map fun e =>
    (e.queryObjectId, e.otherObjectId)

variable {names : ℕ → String} {rels : List RelationEntry} {document : Json} {t : Store} {b : ℕ}

theorem nameEdge_iff (h : RecordsOf names rels document) (m n : String) :
    NameEdge document m n ↔
      ∃ q ∈ rels, names q.queryObjectId = m ∧ names q.otherObjectId = n := by
  constructor
  · rintro ⟨d, hd, e, he, hsource, hdest⟩
    obtain ⟨q, hq, hends⟩ := h.origin d hd e he
    refine ⟨q, hq, ?_, ?_⟩
    · exact Json.string.inj (Option.some.inj (hends.source.symm.trans hsource))
    · exact Json.string.inj (Option.some.inj (hends.dest.symm.trans hdest))
  · rintro ⟨q, hq, rfl, rfl⟩
    obtain ⟨d, hd, v, hv, hends⟩ := h.record q hq
    exact ⟨d, hd, _, OrderedMap.mem_of_find hv, hends.source, hends.dest⟩

theorem wellShaped_of_joins (h : JoinsNames document) : WellShaped document where
  sections := h.sections
  records := by
    intro d hd e he
    obtain ⟨n, hn⟩ := h.endpoints d hd e he d.sourceStr (Or.inl rfl)
    cases hv : e.2 with
    | object m => rfl
    | _ =>
      rw [hv] at hn
      cases hn
  sources := by
    intro d hd e he
    obtain ⟨n, hn⟩ := h.endpoints d hd e he d.sourceStr (Or.inl rfl)
    rw [hn]
    rfl
  dests := by
    intro d hd e he
    obtain ⟨n, hn⟩ := h.endpoints d hd e he d.destStr (Or.inr rfl)
    rw [hn]
    rfl

theorem hasSources_of_joins (h : JoinsNames document) : HasSources document := by
  intro d hd e he
  obtain ⟨n, hn⟩ := h.endpoints d hd e he d.sourceStr (Or.inl rfl)
  rw [hn]
  rfl

section Bundle

variable (ht : t.Reachable) (hb : LinkedBundle t b)

include ht

theorem mem_bundleEdges (i j : ℕ) : (i, j) ∈ bundleEdges t b ↔ BundleEdge t b i j := by
  constructor
  · intro h
    obtain ⟨e, he, hends⟩ := List.mem_map.mp h
    cases hends
    obtain ⟨r, hr, hre⟩ := List.mem_filterMap.mp he
    obtain ⟨e', he', hfrom, hto, -⟩ := bundleRelations_entry ht hr
    obtain rfl : e = e' := Option.some.inj (hre.symm.trans he')
    exact ⟨r, hr, hfrom, hto⟩
  · rintro ⟨r, hr, hi, hj⟩
    obtain ⟨e, he, hfrom, hto, -⟩ := bundleRelations_entry ht hr
    refine List.mem_map.mpr ⟨e, List.mem_filterMap.mpr ⟨r, hr, he⟩, ?_⟩
    rw [Option.some.inj (hfrom.symm.trans hi), Option.some.inj (hto.symm.trans hj)]

include hb

theorem nameOf_inj {i j : ℕ} (hi : i ∈ (t.bundleObjects b).map (·.id))
    (hj : j ∈ (t.bundleObjects b).map (·.id)) (h : nameOf t i = nameOf t j) : i = j := by
  have hread : ∀ c ∈ t.bundleObjects b, ∃ o ∈ (t.bundleObjects b).filterMap ObjectRow.info,
      o.id = c.id ∧ nameOf t c.id = objectName o := by
    intro c hc
    obtain ⟨o, ho⟩ := Option.isSome_iff_exists.mp (bundleObjects_info ht hc).2
    refine ⟨o, List.mem_filterMap.mpr ⟨c, hc, ho⟩, info_id ho, ?_⟩
    exact nameOf_row ht.valid (mem_bundleObjects.mp hc).1 ho
  obtain ⟨c, hc, rfl⟩ := List.mem_map.mp hi
  obtain ⟨c', hc', rfl⟩ := List.mem_map.mp hj
  obtain ⟨o, ho, hid, hname⟩ := hread c hc
  obtain ⟨o', ho', hid', hname'⟩ := hread c' hc'
  have hoo : o = o' :=
    List.inj_on_of_nodup_map hb.distinct ho ho' (hname.symm.trans (h.trans hname'))
  rw [← hid, ← hid', hoo]

/-- The names have a cycle where the ids have one. -/
theorem cyclic_names_iff
    (h : RecordsOf (nameOf t) ((t.bundleRelations b).filterMap RelationRow.entry) document) :
    Cyclic (NameEdge document) ↔ Cyclic (BundleEdge t b) := by
  have hnames : NameEdge document =
      EdgeRel ((bundleEdges t b).map fun e => (nameOf t e.1, nameOf t e.2)) := by
    funext m n
    rw [eq_iff_iff, nameEdge_iff h]
    simp [EdgeRel, bundleEdges]
  have hids : BundleEdge t b = EdgeRel (bundleEdges t b) := by
    funext i j
    exact propext (mem_bundleEdges ht i j).symm
  have hends : ∀ e ∈ bundleEdges t b, e.1 ∈ (t.bundleObjects b).map (·.id) ∧
      e.2 ∈ (t.bundleObjects b).map (·.id) := by
    intro e he
    obtain ⟨r, hr, hfrom, hto⟩ := (mem_bundleEdges ht e.1 e.2).mp he
    exact ⟨ends_listed hb hr (Or.inl hfrom), ends_listed hb hr (Or.inr hto)⟩
  rw [hnames, hids]
  exact cyclic_map_iff hends fun i j hi hj => nameOf_inj ht hb hi hj

theorem exported_records {srv : Server} (hsrv : Reliable srv) {calls : ℕ}
    (hd : exportedDocument srv [b] ⟨t, calls⟩ = some document) :
    RecordsOf (nameOf t) ((t.bundleRelations b).filterMap RelationRow.entry) document := by
  obtain ⟨out, rfl, objects, -, -, hrecords⟩ :=
    exported_of_keeps (keeps_exportBundle hsrv ht hb) hd
  exact hrecords

end Bundle

/-- The validator accepts what was exported of a bundle exactly when its relations form no
cycle, and calls it invalid otherwise. -/
theorem exported_valid_iff_acyclic {parse : String → Option Json} {dump : Json → String}
    {notADag : List (ℕ × ℕ) → ℕ → Bool} (hsort : SortsAcyclic notADag) {srv : Server}
    (hsrv : Reliable srv) {t : Store} (ht : t.Reachable) {b : ℕ} (hb : LinkedBundle t b)
    {calls : ℕ} {text : String} {w : World}
    (hexport : exportBundleJson dump srv [b] ⟨t, calls⟩ = (.ok text, w))
    (hreads : ∀ document, exportedDocument srv [b] ⟨t, calls⟩ = some document →
      parse (dump document) = some document) (stringOut : String) :
    ((validateJson parse notADag text stringOut).1 = .ret .ok ↔ ¬ Cyclic (BundleEdge t b)) ∧
      (Cyclic (BundleEdge t b) →
        (validateJson parse notADag text stringOut).1 = .ret .invalidJson) := by
  obtain ⟨document, hdocument, rfl⟩ := exportedDocument_of_ok hexport
  have hexported := exported_of_some ht hb hsrv hdocument
  have hcyclic := cyclic_names_iff ht hb (exported_records ht hb hsrv hdocument)
  have hp := hreads document hdocument
  obtain ⟨members, rfl, hne⟩ := hexported.nonempty
  rw [← hcyclic]
  rcases validateJson_code hsort hp hne (wellShaped_of_joins hexported.joins) stringOut with
    ⟨-, hc, hcode⟩ | ⟨hno, hcode⟩
  · exact ⟨⟨fun _ => hc, fun _ => hcode⟩, fun hcyc => absurd hcyc hc⟩
  · refine ⟨⟨fun hok => ?_, fun hc => ?_⟩, fun _ => hcode⟩
    · rw [hcode] at hok
      cases hok
    · exact absurd ⟨hasSources_of_joins hexported.joins, hc⟩ hno

/-- An entity that is derived from itself is exported but does not validate. -/
theorem exported_valid_iff_acyclic_derived :
    (validateJson derivedParse throwsOnCycle (derivedText derivedDocument) "").1 =
      .ret .invalidJson := by
  have hexport : exportBundleJson derivedText .ideal [1] ⟨bundleStore 2 2 wasDerivedFrom, 0⟩ =
      (.ok (derivedText derivedDocument), _) := rfl
  have hreads : ∀ document, exportedDocument .ideal [1] ⟨bundleStore 2 2 wasDerivedFrom, 0⟩ =
      some document → derivedParse (derivedText document) = some document := by
    intro document hdocument
    rw [derived_exported] at hdocument
    cases hdocument
    exact if_pos rfl
  have hreach : (bundleStore 2 2 wasDerivedFrom).Reachable :=
    bundleStore_reachable (by decide) (by decide) (by decide)
  have hclosed : ClosedBundle (bundleStore 2 2 wasDerivedFrom) 1 :=
    bundleStore_closed (Or.inr rfl) (Or.inr rfl) (by decide) (by decide) (by decide)
  have hedge : BundleEdge (bundleStore 2 2 wasDerivedFrom) 1 2 2 := by
    refine ⟨⟨1, some 2, some 2, some wasDerivedFrom⟩, ?_, rfl, rfl⟩
    rw [bundleStore_bundleRelations 2 2 (by decide)]
    exact List.mem_singleton_self _
  exact (exported_valid_iff_acyclic throwsOnCycle_sortsAcyclic Server.ideal_reliable hreach
    hclosed hexport hreads "").2 ⟨2, Relation.TransGen.single hedge⟩

end ExportedGraph
