import ProvCpl.ExportEntries

/-! # Which objects an exported document keeps apart

Entries and ends of records are keyed by full names, while the store has any number of objects
of one name, of one type or of several. -/
namespace ExportNames

open CplTypes QualifiedName JsonValue ProvStore ProvServer ServerSpecs ImportDocument
open ImportAccepts ImportGraph ExportDocument ExportShape RoundTrip BundleMembers Reimport
open ExportEntries EarlyExit

def HasSection (o : ObjectInfo) : Prop := ∃ u ∈ objectSections, o.type = u.1

instance (o : ObjectInfo) : Decidable (HasSection o) :=
  inferInstanceAs (Decidable (∃ u ∈ objectSections, _))

def exportedObjects (t : Store) (bundles : List ℕ) : List ObjectInfo :=
  (bundles.flatMap (objectInfos t)).filter HasSection

def exportedRelations (t : Store) (bundles : List ℕ) : List RelationEntry :=
  bundles.flatMap (relationEntries t)

/-- The document has an entry under the type and the full name of the object. -/
def Occupies (document : Json) (o : ObjectInfo) (sectionKey name : String) : Prop :=
  (∃ u ∈ objectSections, o.type = u.1 ∧ sectionKey = u.2) ∧ name = objectName o ∧
    (document.entryAt sectionKey name).isSome

/-- The string at an end of a record designates the entries of its name: among the exported
objects, those of one object and of no other. -/
def Designates (document record : Json) (key : String) (objs : List ObjectInfo) (id : ℕ) :
    Prop :=
  ∃ n, record.find key = some (.string n) ∧
    ∀ q ∈ objs, (∃ sectionKey, Occupies document q sectionKey n) ↔ q.id = id

structure KeepsApart (objs : List ObjectInfo) (rels : List RelationEntry) (document : Json) :
    Prop where
  entries : ∀ o ∈ objs, ∀ o' ∈ objs, o.id ≠ o'.id → ∃ s n s' n',
    Occupies document o s n ∧ Occupies document o' s' n' ∧ (s, n) ≠ (s', n')
  ends : ∀ e ∈ rels, e.queryObjectId ∈ objs.map (·.id) → e.otherObjectId ∈ objs.map (·.id) →
    ∃ d, Described e.type d ∧ ∃ record,
      document.entryAt d.typeStr (Nat.repr e.id) = some record ∧
      Designates document record d.sourceStr objs e.queryObjectId ∧
      Designates document record d.destStr objs e.otherObjectId

def Joined (objs : List ObjectInfo) (rels : List RelationEntry) (id : ℕ) : Prop :=
  ∃ e ∈ rels, e.queryObjectId ∈ objs.map (·.id) ∧ e.otherObjectId ∈ objs.map (·.id) ∧
    (e.queryObjectId = id ∨ e.otherObjectId = id)

/-- Different objects of one full name have different types and no relations. -/
def NamesApart (objs : List ObjectInfo) (rels : List RelationEntry) : Prop :=
  ∀ o ∈ objs, ∀ o' ∈ objs, o.id ≠ o'.id → objectName o = objectName o' →
    o.type ≠ o'.type ∧ ¬ Joined objs rels o.id

instance (objs : List ObjectInfo) (rels : List RelationEntry) (id : ℕ) :
    Decidable (Joined objs rels id) :=
  inferInstanceAs (Decidable (∃ e ∈ rels, _ ∧ _ ∧ (_ ∨ _)))

instance (objs : List ObjectInfo) (rels : List RelationEntry) :
    Decidable (NamesApart objs rels) :=
  inferInstanceAs (Decidable (∀ o ∈ objs, ∀ o' ∈ objs, _ → _ → _ ∧ ¬ Joined objs rels o.id))

theorem mem_exportedObjects {t : Store} {bundles : List ℕ} {o : ObjectInfo} :
    o ∈ exportedObjects t bundles ↔ o ∈ bundles.flatMap (objectInfos t) ∧ HasSection o := by
  simp [exportedObjects]

theorem exportedObjects_row {t : Store} {bundles : List ℕ} {o : ObjectInfo}
    (ho : o ∈ exportedObjects t bundles) :
    ∃ c ∈ t.objects, ObjectRow.info c = some o ∧ c.id = o.id := by
  obtain ⟨b, -, ho⟩ := List.mem_flatMap.mp (mem_exportedObjects.mp ho).1
  obtain ⟨c, hc, hco⟩ := List.mem_filterMap.mp ho
  exact ⟨c, (mem_bundleObjects.mp hc).1, hco, (info_id hco).symm⟩

theorem exportedObjects_inj {t : Store} (ht : t.Valid) {bundles : List ℕ} {o o' : ObjectInfo}
    (ho : o ∈ exportedObjects t bundles) (ho' : o' ∈ exportedObjects t bundles)
    (hid : o.id = o'.id) : o = o' := by
  obtain ⟨c, hc, hco, hcid⟩ := exportedObjects_row ho
  obtain ⟨c', hc', hco', hcid'⟩ := exportedObjects_row ho'
  have hrow : c = c' :=
    List.inj_on_of_nodup_map ht.object_ids hc hc' (hcid.trans (hid.trans hcid'.symm))
  rw [hrow] at hco
  exact Option.some.inj (hco.symm.trans hco')

theorem nameOf_exported {t : Store} (ht : t.Valid) {bundles : List ℕ} {o : ObjectInfo}
    (ho : o ∈ exportedObjects t bundles) : nameOf t o.id = objectName o := by
  obtain ⟨c, hc, hco, hcid⟩ := exportedObjects_row ho
  rw [← hcid, nameOf_row ht hc hco]

section Written

variable {t : Store} {bundles : List ℕ} {document : Json}
  (hdoc : Entries t (nameOf t) (bundles.flatMap (objectInfos t)) (exportedRelations t bundles)
    document)

include hdoc

theorem occupies_exported {o : ObjectInfo} (ho : o ∈ exportedObjects t bundles) :
    ∃ u ∈ objectSections, o.type = u.1 ∧ Occupies document o u.2 (objectName o) := by
  obtain ⟨hmem, u, hu, htype⟩ := mem_exportedObjects.mp ho
  obtain ⟨q, -, -, -, properties, -, hentry⟩ := hdoc.objects o hmem u hu htype
  exact ⟨u, hu, htype, ⟨u, hu, htype, rfl⟩, rfl, by rw [hentry]; rfl⟩

/-- An end designates no object whose name another exported object has. -/
theorem KeepsApart.names
    (h : KeepsApart (exportedObjects t bundles) (exportedRelations t bundles) document) :
    NamesApart (exportedObjects t bundles) (exportedRelations t bundles) := by
  intro o ho o' ho' hid hname
  constructor
  · intro htype
    obtain ⟨s, n, s', n', ⟨⟨u, hu, hut, rfl⟩, rfl, -⟩, ⟨⟨v, hv, hvt, rfl⟩, rfl, -⟩, hne⟩ :=
      h.entries o ho o' ho' hid
    apply hne
    have hsection : u.2 = v.2 :=
      (objectSections_inj u hu v hv).mp (hut.symm.trans (htype.trans hvt))
    rw [hsection, hname]
  · rintro ⟨e, he, hquery, hother, hend⟩
    obtain ⟨d, -, record, -, hsource, hdest⟩ := h.ends e he hquery hother
    obtain ⟨u', -, -, hocc'⟩ := occupies_exported hdoc ho'
    have hclash : ∀ {key : String}, ¬ Designates document record key
        (exportedObjects t bundles) o.id := by
      rintro key ⟨n, -, hn⟩
      obtain ⟨s, hs⟩ := (hn o ho).mpr rfl
      have hn' : n = objectName o' := hs.2.1.trans hname
      exact hid ((hn o' ho').mp ⟨u'.2, hn' ▸ hocc'⟩).symm
    rcases hend with hend | hend
    · exact hclash (hend ▸ hsource)
    · exact hclash (hend ▸ hdest)

theorem NamesApart.only (ht : t.Reachable)
    (h : NamesApart (exportedObjects t bundles) (exportedRelations t bundles))
    {e : RelationEntry} (he : e ∈ exportedRelations t bundles)
    (hquery : e.queryObjectId ∈ (exportedObjects t bundles).map (·.id))
    (hother : e.otherObjectId ∈ (exportedObjects t bundles).map (·.id)) {id : ℕ}
    (hend : e.queryObjectId = id ∨ e.otherObjectId = id)
    (hid : id ∈ (exportedObjects t bundles).map (·.id)) :
    ∀ q ∈ exportedObjects t bundles,
      (∃ s, Occupies document q s (nameOf t id)) ↔ q.id = id := by
  intro q hq
  obtain ⟨o, ho, rfl⟩ := List.mem_map.mp hid
  rw [nameOf_exported ht.valid ho]
  constructor
  · rintro ⟨s, -, hname, -⟩
    by_contra hne
    exact (h o ho q hq (Ne.symm hne) hname).2 ⟨e, he, hquery, hother, hend⟩
  · intro hqo
    obtain rfl := exportedObjects_inj ht.valid hq ho hqo
    obtain ⟨u, -, -, hocc⟩ := occupies_exported hdoc ho
    exact ⟨u.2, hocc⟩

theorem NamesApart.keeps (ht : t.Reachable)
    (h : NamesApart (exportedObjects t bundles) (exportedRelations t bundles)) :
    KeepsApart (exportedObjects t bundles) (exportedRelations t bundles) document := by
  constructor
  · intro o ho o' ho' hid
    obtain ⟨u, hu, hut, hocc⟩ := occupies_exported hdoc ho
    obtain ⟨v, hv, hvt, hocc'⟩ := occupies_exported hdoc ho'
    refine ⟨u.2, objectName o, v.2, objectName o', hocc, hocc', ?_⟩
    intro hplace
    rw [Prod.mk.injEq] at hplace
    apply (h o ho o' ho' hid hplace.2).1
    rw [hut, hvt, (objectSections_inj u hu v hv).mpr hplace.1]
  · intro e he hquery hother
    obtain ⟨d, hd, properties, -, hentry⟩ := hdoc.relations e he
    have hkeys := rdataArray_keys_ne d hd.mem
    refine ⟨d, hd, _, hentry, ⟨nameOf t e.queryObjectId, ?_, ?_⟩,
      ⟨nameOf t e.otherObjectId, ?_, ?_⟩⟩
    · rw [recordFor, find_assign, if_neg hkeys, find_assign, if_pos rfl]
    · exact h.only hdoc ht he hquery hother (Or.inl rfl) hquery
    · rw [recordFor, find_assign, if_pos rfl]
    · exact h.only hdoc ht he hquery hother (Or.inr rfl) hother

theorem keepsApart_iff (ht : t.Reachable) :
    KeepsApart (exportedObjects t bundles) (exportedRelations t bundles) document ↔
      NamesApart (exportedObjects t bundles) (exportedRelations t bundles) :=
  ⟨fun h => h.names hdoc, fun h => h.keeps hdoc ht⟩

end Written

/-- Two entities of the same name, derived from each other within the bundle 1. -/
def twinStore : Store :=
  ((((Store.fresh.insertObject "" "b" cplBundle 0).insertObject "" "e" cplEntity 1).insertObject
    "" "e" cplEntity 2).insertRelation 2 3 wasDerivedFrom).insertRelation 1 1 bundleRelation

theorem twinStore_reachable : twinStore.Reachable :=
  .addRelation 1 1 bundleRelation (by decide) (by decide) (by decide)
    (.addRelation 2 3 wasDerivedFrom (by decide) (by decide) (by decide)
      (.createObject "" "e" cplEntity 2 (by decide)
        (.createObject "" "e" cplEntity 1 (by decide)
          (.createObject "" "b" cplBundle 0 (by decide) .fresh))))

/-- Both entities are written to one entry, and the record joins it to itself. -/
theorem twins_share_entry : twinStore.Reachable ∧
    (exportedObjects twinStore [1]).map (·.id) = [2, 3] ∧
    (exportBundleJson derivedText .ideal [1] ⟨twinStore, 0⟩).1 =
      .ok (derivedText derivedDocument) ∧
    exportedDocument .ideal [1] ⟨twinStore, 0⟩ = some derivedDocument ∧
    ¬ KeepsApart (exportedObjects twinStore [1]) (exportedRelations twinStore [1])
      derivedDocument := by
  have hdocument : exportedDocument .ideal [1] ⟨twinStore, 0⟩ = some derivedDocument := rfl
  refine ⟨twinStore_reachable, by decide, rfl, hdocument, ?_⟩
  have hdoc := entries_of_exported Server.ideal_reliable twinStore_reachable hdocument
  rw [keepsApart_iff hdoc twinStore_reachable]
  decide

/-- A document that an export returns keeps the objects apart exactly when no two of one name
have one type or are joined. -/
theorem export_keepsApart_iff {srv : Server} (hsrv : Reliable srv) {t : Store}
    (ht : t.Reachable) {bundles : List ℕ} {calls : ℕ} {dump : Json → String} {text : String}
    {w' : World} (h : exportBundleJson dump srv bundles ⟨t, calls⟩ = (.ok text, w')) :
    ∃ document, exportedDocument srv bundles ⟨t, calls⟩ = some document ∧ text = dump document ∧
      (KeepsApart (exportedObjects t bundles) (exportedRelations t bundles) document ↔
        NamesApart (exportedObjects t bundles) (exportedRelations t bundles)) := by
  obtain ⟨document, hdocument, htext⟩ := exportedDocument_of_ok h
  refine ⟨document, hdocument, htext, ?_⟩
  exact keepsApart_iff (entries_of_exported hsrv ht hdocument) ht

/-- An entity and an agent of one name that no relation joins to another object, but that the
bundle holds. -/
def sectionsStore : Store :=
  ((((((Store.fresh.insertObject "" "b" cplBundle 0).insertObject "" "e" cplEntity 1).insertObject
    "" "e" cplAgent 2).insertRelation 1 2 inBundle).insertRelation 1 3 inBundle).insertRelation
      1 1 bundleRelation).insertRelation 1 2 bundleRelation

theorem sectionsStore_reachable : sectionsStore.Reachable :=
  .addRelation 1 2 bundleRelation (by decide) (by decide) (by decide)
    (.addRelation 1 1 bundleRelation (by decide) (by decide) (by decide)
      (.addRelation 1 3 inBundle (by decide) (by decide) (by decide)
        (.addRelation 1 2 inBundle (by decide) (by decide) (by decide)
          (.createObject "" "e" cplAgent 2 (by decide)
            (.createObject "" "e" cplEntity 1 (by decide)
              (.createObject "" "b" cplBundle 0 (by decide) .fresh))))))

theorem export_keepsApart_iff_sections : ∃ document,
    exportedDocument .ideal [1] ⟨sectionsStore, 0⟩ = some document ∧
      KeepsApart (exportedObjects sectionsStore [1]) (exportedRelations sectionsStore [1])
        document := by
  have hrun : exportBundleJson derivedText .ideal [1] ⟨sectionsStore, 0⟩ =
      (.ok (derivedText .null), (exportBundleJson derivedText .ideal [1] ⟨sectionsStore, 0⟩).2) :=
    Prod.ext rfl rfl
  obtain ⟨document, hdocument, -, hiff⟩ :=
    export_keepsApart_iff Server.ideal_reliable sectionsStore_reachable hrun
  exact ⟨document, hdocument, hiff.mpr (by decide)⟩

end ExportNames
