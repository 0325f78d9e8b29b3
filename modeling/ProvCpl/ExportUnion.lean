import ProvCpl.ExportAgreement
import ProvCpl.ExportNames

/-! # The export of several bundles

The bundles of a list share the name table and the document. What an object or a relation adds
does not depend on the bundle in which it is met, so the document has the entries of the single
exports, in whatever order and how often the bundles are listed, as long as the order in which
the database lists the properties of one owner does not matter. -/
namespace ExportUnion

open CplTypes QualifiedName JsonValue ProvStore ProvServer ServerSpecs ImportDocument
open ImportFrame ImportAccepts ImportGraph ExportDocument ExportShape RoundTrip BundleMembers
open Reimport ExportEntries ExportNames MergeOrder ExportAgreement EarlyExit

/-- A section that has been written to. -/
def IsSection (v : Json) : Prop := ∃ m, m ≠ [] ∧ OrderedMap.Sorted m ∧ v = .object m

/-- Null, or an object of such sections. -/
structure Sectioned (j : Json) : Prop extends Assigned j where
  sections : ∀ e ∈ j.members, IsSection e.2

theorem sectioned_null : Sectioned .null :=
  { assigned_null with sections := by simp [Json.members] }

theorem Sectioned.assignIn {j : Json} (h : Sectioned j) (s k : String) (v : Json) :
    Sectioned (j.assignIn s k v) := by
  have hold : OrderedMap.Sorted ((j.find s).getD .null).members := by
    rw [find_eq_members]
    cases hfind : OrderedMap.find s j.members with
    | none => exact List.Pairwise.nil
    | some w =>
      obtain ⟨m, -, hm, hw⟩ := h.sections _ (OrderedMap.mem_of_find hfind)
      dsimp only at hw
      rw [Option.getD_some, hw]
      exact hm
  refine ⟨h.toAssigned.assign s _, fun e he => ?_⟩
  rcases OrderedMap.mem_set he with rfl | he
  · exact ⟨_, OrderedMap.set_ne_nil _ _ _, OrderedMap.sorted_set _ _ hold, rfl⟩
  · exact h.sections e he

theorem Sectioned.find_isSome {j : Json} (h : Sectioned j) (s : String) :
    (j.find s).isSome ↔ ∃ k v, j.entryAt s k = some v := by
  unfold Json.entryAt Json.membersAt
  cases hfind : j.find s with
  | none => simp
  | some w =>
    rw [find_eq_members] at hfind
    obtain ⟨m, hne, hm, hw⟩ := h.sections _ (OrderedMap.mem_of_find hfind)
    dsimp only at hw
    obtain ⟨e, he⟩ := List.exists_mem_of_ne_nil m hne
    rw [hw]
    simp only [Option.isSome_some, Option.map_some, Option.getD_some, members_object, true_iff]
    exact ⟨e.1, e.2, OrderedMap.find_of_mem hm.nodup_keys he⟩

theorem Sectioned.ext {j j' : Json} (h : Sectioned j) (h' : Sectioned j')
    (hentry : ∀ s k, j.entryAt s k = j'.entryAt s k) : j = j' := by
  have hsome : ∀ s, (j.find s).isSome ↔ (j'.find s).isSome := by
    intro s
    rw [h.find_isSome, h'.find_isSome]
    simp only [hentry]
  apply h.toAssigned.ext h'.toAssigned
  intro s
  have hs := hsome s
  have he := hentry s
  unfold Json.entryAt Json.membersAt at he
  rw [find_eq_members, find_eq_members] at hs
  simp only [find_eq_members] at he ⊢
  cases hw : OrderedMap.find s j.members with
  | none =>
    rw [hw] at hs
    cases hw' : OrderedMap.find s j'.members with
    | none => rfl
    | some w' =>
      rw [hw'] at hs
      simp at hs
  | some w =>
    rw [hw] at hs he
    cases hw' : OrderedMap.find s j'.members with
    | none =>
      rw [hw'] at hs
      simp at hs
    | some w' =>
      rw [hw'] at he
      obtain ⟨m, -, hm, rfl⟩ := h.sections _ (OrderedMap.mem_of_find hw)
      obtain ⟨m', -, hm', rfl⟩ := h'.sections _ (OrderedMap.mem_of_find hw')
      rw [hm.ext hm' he]

def HasObject (srv : Server) (t : Store) (objs : List ObjectInfo) (s k : String) (v : Json) :
    Prop :=
  ∃ o ∈ objs, ∃ u ∈ objectSections, o.type = u.1 ∧ s = u.2 ∧ k = objectName o ∧
    Merges srv t.objectProperties o.id v

def HasRelation (srv : Server) (t : Store) (rels : List RelationEntry) (s k : String)
    (v : Json) : Prop :=
  ∃ e ∈ rels, ∃ d, Described e.type d ∧ s = d.typeStr ∧ k = Nat.repr e.id ∧
    ∃ properties, Merges srv t.relationProperties e.id properties ∧
      v = recordFor d properties (nameOf t e.queryObjectId) (nameOf t e.otherObjectId)

/-- The server gives one value for each object and each relation of the bundle. -/
structure Settled (srv : Server) (t : Store) (b : ℕ) : Prop where
  objects : ∀ o ∈ objectInfos t b, HasSection o → ∀ p p',
    Merges srv t.objectProperties o.id p → Merges srv t.objectProperties o.id p' → p = p'
  relations : ∀ e ∈ relationEntries t b, ∀ d, Described e.type d → ∀ p p',
    Merges srv t.relationProperties e.id p → Merges srv t.relationProperties e.id p' →
      ∀ source dest, recordFor d p source dest = recordFor d p' source dest

structure Exactly (srv : Server) (t : Store) (objs : List ObjectInfo)
    (rels : List RelationEntry) (document : Json) : Prop where
  sectioned : Sectioned document
  entries : ∀ s k v, document.entryAt s k = some v ↔
    HasObject srv t objs s k v ∨ HasRelation srv t rels s k v

theorem exactly_nil (srv : Server) (t : Store) : Exactly srv t [] [] .null where
  sectioned := sectioned_null
  entries := by
    intro s k v
    simp [HasObject, HasRelation, Json.entryAt, Json.membersAt, Json.find]

section Exactly

variable {srv : Server} {t : Store} {objs : List ObjectInfo} {rels : List RelationEntry}
  {document : Json}

theorem Exactly.congr {objs' : List ObjectInfo} {rels' : List RelationEntry}
    (h : Exactly srv t objs rels document) (ho : ∀ o, o ∈ objs ↔ o ∈ objs')
    (hr : ∀ e, e ∈ rels ↔ e ∈ rels') : Exactly srv t objs' rels' document where
  sectioned := h.sectioned
  entries := by
    intro s k v
    rw [h.entries]
    simp only [HasObject, HasRelation, ho, hr]

theorem Exactly.unique {document' : Json} (h : Exactly srv t objs rels document)
    (h' : Exactly srv t objs rels document') : document = document' := by
  apply h.sectioned.ext h'.sectioned
  intro s k
  ext v
  rw [h.entries, h'.entries]

theorem hasObject_append {s k : String} {v : Json} {o : ObjectInfo} :
    HasObject srv t (objs ++ [o]) s k v ↔
      HasObject srv t objs s k v ∨ HasObject srv t [o] s k v := by
  simp only [HasObject, List.mem_append, or_and_right, exists_or]

theorem hasRelation_append {s k : String} {v : Json} {e : RelationEntry} :
    HasRelation srv t (rels ++ [e]) s k v ↔
      HasRelation srv t rels s k v ∨ HasRelation srv t [e] s k v := by
  simp only [HasRelation, List.mem_append, or_and_right, exists_or]

theorem hasObject_singleton {s k : String} {v : Json} {o : ObjectInfo} :
    HasObject srv t [o] s k v ↔ ∃ u ∈ objectSections, o.type = u.1 ∧ s = u.2 ∧
      k = objectName o ∧ Merges srv t.objectProperties o.id v := by
  simp only [HasObject, List.mem_singleton, exists_eq_left]

theorem hasRelation_singleton {s k : String} {v : Json} {e : RelationEntry} :
    HasRelation srv t [e] s k v ↔ ∃ d, Described e.type d ∧ s = d.typeStr ∧
      k = Nat.repr e.id ∧ ∃ properties, Merges srv t.relationProperties e.id properties ∧
        v = recordFor d properties (nameOf t e.queryObjectId) (nameOf t e.otherObjectId) := by
  simp only [HasRelation, List.mem_singleton, exists_eq_left]

/-- An object of the type and the name of an earlier one is that object. -/
theorem Exactly.assignObject (h : Exactly srv t objs rels document) {o : ObjectInfo}
    {properties : Json} (hp : Merges srv t.objectProperties o.id properties)
    (hone : HasSection o → ∀ p, Merges srv t.objectProperties o.id p → properties = p)
    (hdistinct : ∀ q ∈ objs, q.type = o.type → objectName q = objectName o → q.id = o.id) :
    Exactly srv t (objs ++ [o]) rels
      (assignObject document o.type (objectName o) properties) := by
  rcases assignObject_cases document o.type (objectName o) properties with
    ⟨u, hu, htype, he⟩ | ⟨hother, he⟩ <;> rw [he]
  · refine ⟨h.sectioned.assignIn _ _ _, fun s k v => ?_⟩
    rw [entryAt_assignIn, hasObject_append, hasObject_singleton]
    by_cases hplace : s = u.2 ∧ k = objectName o
    · rw [if_pos hplace]
      obtain ⟨rfl, rfl⟩ := hplace
      constructor
      · intro hv
        exact Or.inl (Or.inr ⟨u, hu, htype, rfl, rfl, Option.some.inj hv ▸ hp⟩)
      · have hsame : ∀ q : ObjectInfo, q.id = o.id →
            Merges srv t.objectProperties q.id v → some properties = some v := by
          intro q hid hq
          rw [hid] at hq
          rw [hone ⟨u, hu, htype⟩ v hq]
        rintro ((⟨q, hq, w, hw, hwt, hs, hk, hv⟩ | ⟨w, hw, hwt, hs, hk, hv⟩) |
          ⟨e, -, d, hd, hs, -⟩)
        · have huw := (objectSections_inj u hu w hw).mpr hs
          exact hsame q (hdistinct q hq (hwt.trans (huw.symm.trans htype.symm)) hk.symm) hv
        · exact hsame o rfl hv
        · exact absurd hs (typeStr_ne d hd.mem u hu)
    · rw [if_neg hplace, h.entries]
      refine or_congr_left (or_iff_left ?_).symm
      rintro ⟨w, hw, hwt, hs, hk, -⟩
      have huw := (objectSections_inj w hw u hu).mp (hwt.symm.trans htype)
      exact hplace ⟨hs.trans huw, hk⟩
  · refine ⟨h.sectioned, fun s k v => ?_⟩
    rw [h.entries, hasObject_append, hasObject_singleton]
    refine or_congr_left (or_iff_left ?_).symm
    rintro ⟨w, hw, hwt, -⟩
    exact hother w hw hwt

theorem Exactly.assignRecord (h : Exactly srv t objs rels document) {e : RelationEntry}
    {properties : Json} (hp : Merges srv t.relationProperties e.id properties)
    {d : ProvRelationData} (hd : Described e.type d)
    (hone : ∀ p, Merges srv t.relationProperties e.id p → ∀ source dest,
      recordFor d properties source dest = recordFor d p source dest)
    (hsame : ∀ q ∈ rels, q.id = e.id → q = e) :
    Exactly srv t objs (rels ++ [e]) (document.assignIn d.typeStr (Nat.repr e.id)
      (recordFor d properties (nameOf t e.queryObjectId) (nameOf t e.otherObjectId))) := by
  refine ⟨h.sectioned.assignIn _ _ _, fun s k v => ?_⟩
  rw [entryAt_assignIn, hasRelation_append, hasRelation_singleton]
  by_cases hplace : s = d.typeStr ∧ k = Nat.repr e.id
  · rw [if_pos hplace]
    obtain ⟨rfl, rfl⟩ := hplace
    constructor
    · intro hv
      exact Or.inr (Or.inr ⟨d, hd, rfl, rfl, properties, hp, (Option.some.inj hv).symm⟩)
    · have hrecord : ∀ q : RelationEntry, q = e → ∀ c, Described q.type c → ∀ p,
          Merges srv t.relationProperties q.id p →
          v = recordFor c p (nameOf t q.queryObjectId) (nameOf t q.otherObjectId) →
          some (recordFor d properties (nameOf t e.queryObjectId) (nameOf t e.otherObjectId)) =
            some v := by
        rintro q rfl c hc p hmerge rfl
        obtain rfl := hd.unique hc
        rw [hone p hmerge]
      rintro (⟨o, -, u, hu, -, hs, -⟩ | ⟨q, hq, c, hc, -, hk, p, hread, hv⟩ |
        ⟨c, hc, -, -, p, hread, hv⟩)
      · exact absurd hs.symm (typeStr_ne d hd.mem u hu)
      · exact hrecord q (hsame q hq (decimal_injective hk.symm)) c hc p hread hv
      · exact hrecord e rfl c hc p hread hv
  · rw [if_neg hplace, h.entries]
    refine or_congr_right (or_iff_left ?_).symm
    rintro ⟨c, hc, hs, hk, -⟩
    exact hplace ⟨by rw [hs, hc.unique hd], hk⟩

end Exactly

/-- What an export of the bundle that returns has met; no server has a part in it. -/
structure Exports (t : Store) (b : ℕ) : Prop where
  bundle : b ≠ 0
  objects : ∀ o ∈ objectInfos t b, Readable t.objectProperties o.id
  described : ∀ e ∈ relationEntries t b, ∃ d, Described e.type d
  relations : ∀ e ∈ relationEntries t b, Readable t.relationProperties e.id
  ends : ∀ e ∈ relationEntries t b, e.queryObjectId ∈ (objectInfos t b).map (·.id) ∧
    e.otherObjectId ∈ (objectInfos t b).map (·.id)

section Single

variable {srv : Server} {t : Store} (hsrv : Reliable srv)

include hsrv

theorem keeps_objects_read (b : ℕ) (out : NameTable × Json) :
    Keeps (· = t) (exportObjectsJson srv [b] out) fun _ => b ≠ 0 ∧
      ∀ o ∈ objectInfos t b, Readable t.objectProperties o.id := by
  refine maintains_bind (keeps_listing hsrv fun s => s.bundleObjects b) fun infos hinfos => ?_
  refine maintains_weaken (maintains_fold (T := fun done _ => ∀ o ∈ done,
    Readable t.objectProperties o.id) (by simp) fun done o out' _ hdone => ?_) fun _ hfinal => ?_
  · refine maintains_bind (keeps_merges (readsInOrder hsrv Store.objectProperties o.id))
      fun p hp => maintains_pure ?_
    exact List.forall_mem_append.mpr ⟨hdone, List.forall_mem_singleton.mpr hp.1⟩
  · constructor
    · exact hinfos.2
    · intro o ho
      exact hfinal o (hinfos.1.mem_iff.mpr ho)

theorem keeps_relations_read (b : ℕ) (tbl : NameTable) (document : Json) :
    Keeps (· = t) (exportRelationsJson srv [b] tbl document) fun _ =>
      ∀ e ∈ relationEntries t b, Readable t.relationProperties e.id := by
  refine maintains_bind (keeps_listing hsrv fun s => s.bundleRelations b) fun es hes => ?_
  refine maintains_weaken (maintains_fold (T := fun done _ => ∀ e ∈ done,
    Readable t.relationProperties e.id) (by simp) fun done e document' _ hdone => ?_)
    fun _ hfinal => ?_
  · refine maintains_bind (keeps_merges (readsInOrder hsrv Store.relationProperties e.id))
      fun p hp => ?_
    have hall : ∀ q ∈ done ++ [e], Readable t.relationProperties q.id :=
      List.forall_mem_append.mpr ⟨hdone, List.forall_mem_singleton.mpr hp.1⟩
    refine maintains_bind (keeps_exportEndpoint (I := (· = t)) _ _) fun source _ => ?_
    refine maintains_bind (keeps_relationData (I := (· = t)) _) fun d _ => ?_
    refine maintains_bind (keeps_exportEndpoint (I := (· = t)) _ _) fun dest _ => ?_
    exact maintains_ite (fun _ => keeps_leave (I := (· = t))) fun _ => maintains_pure hall
  · intro e he
    exact hfinal e (hes.1.mem_iff.mpr he)

theorem keeps_exports (ht : t.Reachable) (b : ℕ) :
    Keeps (· = t) (exportBundle srv ([], .null) b) fun _ => Exports t b := by
  have hnamed : Names (nameOf t) (([] : List ObjectInfo).map (·.id)) [] := fun _ => rfl
  have hobjects := keeps_conj (keeps_objects_read hsrv (t := t) b ([], .null))
    (keeps_exportObjectsJson_entries hsrv ht hnamed (entries_nil t (nameOf t)) b)
  refine maintains_bind hobjects ?_
  rintro out ⟨⟨hb, hread⟩, hnames, hdoc⟩
  have hids : ∀ o ∈ objectInfos t b,
      o.id ∈ (([] : List ObjectInfo) ++ objectInfos t b).map (·.id) :=
    fun o ho => List.mem_map_of_mem ho
  have hends : ∀ e ∈ relationEntries t b, Resolved t out.1 e →
      nameOf t e.queryObjectId = endName t out.1 e.queryObjectId ∧
        nameOf t e.otherObjectId = endName t out.1 e.otherObjectId := by
    intro e he hres
    have hmem := ends_mem_of_resolved ht hnames hids he hres
    exact ⟨endName_of_names hnames hmem.1, endName_of_names hnames hmem.2⟩
  have hrelations := keeps_conj (keeps_relations_read hsrv (t := t) b out.1 out.2)
    (keeps_exportRelationsJson_entries hsrv ht hdoc (by simp) b hends)
  refine maintains_bind hrelations ?_
  rintro document ⟨hrels, hentries, hres⟩
  apply maintains_pure
  constructor
  · exact hb
  · exact hread
  · intro e he
    obtain ⟨d, hd, -⟩ := hentries.relations e he
    exact ⟨d, hd⟩
  · exact hrels
  · intro e he
    exact ends_mem_of_resolved ht hnames hids he (hres e he)

theorem succeeds_objects_exactly (ht : t.Reachable) {b : ℕ} (h : Exports t b)
    (hsettled : Settled srv t b) {objs : List ObjectInfo} {rels : List RelationEntry}
    {out : NameTable × Json}
    (hnames : Names (nameOf t) (objs.map (·.id)) out.1) (hdoc : Exactly srv t objs rels out.2)
    (hdistinct : ∀ q ∈ objs ++ objectInfos t b, ∀ o ∈ objectInfos t b, q.type = o.type →
      objectName q = objectName o → q.id = o.id) :
    Succeeds (· = t) (exportObjectsJson srv [b] out) fun out' =>
      Names (nameOf t) ((objs ++ objectInfos t b).map (·.id)) out'.1 ∧
        Exactly srv t (objs ++ objectInfos t b) rels out'.2 := by
  refine maintains_bind (succeeds_listing hsrv h.bundle (fun s => s.bundleObjects b)
    fun r hr => (bundleObjects_info ht hr).2) fun infos hinfos => ?_
  refine maintains_weaken (maintains_fold (T := fun done out' =>
    Names (nameOf t) ((objs ++ done).map (·.id)) out'.1 ∧ Exactly srv t (objs ++ done) rels out'.2 ∧
      ∀ o ∈ done, o ∈ objectInfos t b) ⟨by rwa [List.append_nil], by rwa [List.append_nil], by simp⟩
    fun done o out' ho hdone => ?_) fun out' hfinal => ?_
  · have hmem : o ∈ objectInfos t b := hinfos.mem_iff.mp ho
    obtain ⟨c, hc, hco⟩ := List.mem_filterMap.mp hmem
    have hread := h.objects o hmem
    have hname := nameOf_row ht.valid (mem_bundleObjects.mp hc).1 hco
    rw [← info_id hco] at hname
    refine maintains_bind (succeeds_merges (readsRows_object hsrv hread.owner)
      (readsInOrder hsrv Store.objectProperties o.id) hread) fun p hp => maintains_pure ?_
    rw [← List.append_assoc]
    refine ⟨?_, hdone.2.1.assignObject hp (fun hs q hq => hsettled.objects o hmem hs p q hp hq) ?_,
      ?_⟩
    · rw [List.map_append, ← hname]
      exact hdone.1.emplace o.id
    · intro q hq
      apply hdistinct q _ o hmem
      rcases List.mem_append.mp hq with hq | hq
      · exact List.mem_append_left _ hq
      · exact List.mem_append_right _ (hdone.2.2 q hq)
    · exact List.forall_mem_append.mpr ⟨hdone.2.2, List.forall_mem_singleton.mpr hmem⟩
  · constructor
    · refine hfinal.1.perm ?_
      rw [List.map_append, List.map_append]
      exact (hinfos.map _).append_left _
    · refine hfinal.2.1.congr (fun o => ?_) fun _ => Iff.rfl
      simp only [List.mem_append, hinfos.mem_iff, objectInfos]

theorem succeeds_relations_exactly (ht : t.Reachable) {b : ℕ} (h : Exports t b)
    (hsettled : Settled srv t b) {objs : List ObjectInfo} {rels : List RelationEntry}
    {tbl : NameTable} {document : Json}
    {ids : List ℕ} (hnames : Names (nameOf t) ids tbl)
    (hids : ∀ o ∈ objectInfos t b, o.id ∈ ids) (hdoc : Exactly srv t objs rels document)
    (hrels : ∀ e ∈ rels, ∃ r ∈ t.relations, RelationRow.entry r = some e) :
    Succeeds (· = t) (exportRelationsJson srv [b] tbl document)
      (Exactly srv t objs (rels ++ relationEntries t b)) := by
  have hend : ∀ id ∈ (objectInfos t b).map (·.id),
      exportEndpoint srv tbl id = pure (nameOf t id, false) := by
    intro id hid
    obtain ⟨o, ho, rfl⟩ := List.mem_map.mp hid
    exact hnames.endpoint srv (hids o ho)
  refine maintains_bind (succeeds_listing hsrv h.bundle (fun s => s.bundleRelations b)
    (bundleRelations_readable ht b)) fun es hes => ?_
  refine maintains_weaken (maintains_fold_along (T := fun done document' =>
    Exactly srv t objs (rels ++ done) document') (by rwa [List.append_nil])
    fun done e rest document' hxs hdone => ?_) fun document' hfinal => ?_
  · have he : e ∈ es := by simp [hxs]
    have hmem : e ∈ relationEntries t b := hes.mem_iff.mp he
    obtain ⟨d, hd⟩ := h.described e hmem
    have hread := h.relations e hmem
    have hdone' : ∀ q ∈ done, q ∈ relationEntries t b := by
      intro q hq
      exact hes.mem_iff.mp (by simp [hxs, hq])
    have hsame := entries_unique ht hrels hdone' hmem
    unfold exportRelation
    rw [hend _ (h.ends e hmem).1, hend _ (h.ends e hmem).2, hd.relationData]
    refine maintains_bind (succeeds_merges (readsRows_relation hsrv hread.owner)
      (readsInOrder hsrv Store.relationProperties e.id) hread) fun p hp => ?_
    have hnext := hdone.assignRecord hp hd
      (fun q hq => hsettled.relations e hmem d hd p q hp hq) hsame
    rw [List.append_assoc] at hnext
    exact maintains_pure hnext
  · refine hfinal.congr (fun _ => Iff.rfl) fun e => ?_
    simp only [List.mem_append, hes.mem_iff, relationEntries]

/-- Two objects of these bundles with one type and one full name are one object. -/
def Distinct (t : Store) (bundles : List ℕ) : Prop :=
  ∀ b ∈ bundles, ∀ o ∈ objectInfos t b, ∀ c ∈ bundles, ∀ q ∈ objectInfos t c,
    o.type = q.type → objectName o = objectName q → o.id = q.id

theorem succeeds_fold_exactly (ht : t.Reachable) {bundles : List ℕ}
    (h : ∀ b ∈ bundles, Exports t b) (hsettled : ∀ b ∈ bundles, Settled srv t b)
    (hd : Distinct t bundles) :
    Succeeds (· = t) (fold (exportBundle srv) ([], .null) bundles) fun out =>
      Exactly srv t (bundles.flatMap (objectInfos t)) (bundles.flatMap (relationEntries t))
        out.2 := by
  refine maintains_weaken (maintains_fold_along (T := fun done (out : NameTable × Json) =>
    Names (nameOf t) ((done.flatMap (objectInfos t)).map (·.id)) out.1 ∧
      Exactly srv t (done.flatMap (objectInfos t)) (done.flatMap (relationEntries t)) out.2)
    ⟨fun _ => rfl, exactly_nil srv t⟩ fun done b rest out hxs hdone => ?_) fun _ hfinal => hfinal.2
  have hb : b ∈ bundles := by simp [hxs]
  have hsub : ∀ c ∈ done, c ∈ bundles := by
    intro c hc
    simp [hxs, hc]
  have hdistinct : ∀ q ∈ done.flatMap (objectInfos t) ++ objectInfos t b, ∀ o ∈ objectInfos t b,
      q.type = o.type → objectName q = objectName o → q.id = o.id := by
    intro q hq o ho
    rcases List.mem_append.mp hq with hq | hq
    · obtain ⟨c, hc, hq⟩ := List.mem_flatMap.mp hq
      exact hd c (hsub c hc) q hq b hb o ho
    · exact hd b hb q hq b hb o ho
  have hrels := entries_stored t done
  rw [List.flatMap_append, List.flatMap_append, List.flatMap_singleton, List.flatMap_singleton]
  refine maintains_bind (succeeds_objects_exactly hsrv ht (h b hb) (hsettled b hb) hdone.1 hdone.2
    hdistinct) fun out' hout' => ?_
  have hids : ∀ o ∈ objectInfos t b,
      o.id ∈ (done.flatMap (objectInfos t) ++ objectInfos t b).map (·.id) :=
    fun o ho => List.mem_map_of_mem (List.mem_append_right _ ho)
  refine maintains_bind (succeeds_relations_exactly hsrv ht (h b hb) (hsettled b hb) hout'.1 hids
    hout'.2 hrels) fun document hdocument => ?_
  exact maintains_pure ⟨hout'.1, hdocument⟩

theorem exported_exactly (ht : t.Reachable) {bundles : List ℕ}
    (h : ∀ b ∈ bundles, Exports t b) (hsettled : ∀ b ∈ bundles, Settled srv t b)
    (hd : Distinct t bundles) (dump : Json → String)
    (calls : ℕ) : ∃ document, exportedDocument srv bundles ⟨t, calls⟩ = some document ∧
      (exportBundleJson dump srv bundles ⟨t, calls⟩).1 = .ok (dump document) ∧
      Exactly srv t (bundles.flatMap (objectInfos t)) (bundles.flatMap (relationEntries t))
        document := by
  obtain ⟨out, w, hrun, -, hout⟩ := triple_returns
    (succeeds_fold_exactly hsrv ht h hsettled hd) (s := ⟨t, calls⟩) rfl
  refine ⟨out.2, ?_, ?_, hout⟩
  · rw [exportedDocument, hrun]
  · rw [exportBundleJson, bind_run, hrun]
    rfl

theorem exports_of_ok (ht : t.Reachable) {dump : Json → String} {b calls : ℕ} {text : String}
    {w : World} (h : exportBundleJson dump srv [b] ⟨t, calls⟩ = (.ok text, w)) :
    Exports t b := by
  rcases Triple.cases (keeps_exports hsrv ht b) (s := ⟨t, calls⟩) rfl with
    ⟨out, u, -, hu⟩ | ⟨e, u, hr, -⟩
  · exact hu.2
  · rw [exportBundleJson, fold, bind_run, bind_run, hr] at h
    cases h

end Single

/-- The document has each section and each entry of the others, and no more. -/
structure UnionOf (documents : List Json) (document : Json) : Prop where
  sectioned : Sectioned document
  sections : ∀ s, (document.find s).isSome ↔ ∃ d ∈ documents, (d.find s).isSome
  entries : ∀ s k v, document.entryAt s k = some v ↔ ∃ d ∈ documents, d.entryAt s k = some v

theorem unionOf_exactly {srv : Server} {t : Store} {bundles : List ℕ} {documents : ℕ → Json}
    {document : Json} (hsingle : ∀ b ∈ bundles,
      Exactly srv t (objectInfos t b) (relationEntries t b) (documents b))
    (h : Exactly srv t (bundles.flatMap (objectInfos t)) (bundles.flatMap (relationEntries t))
      document) : UnionOf (bundles.map documents) document := by
  have hentries : ∀ s k v, document.entryAt s k = some v ↔
      ∃ d ∈ bundles.map documents, d.entryAt s k = some v := by
    intro s k v
    rw [h.entries]
    constructor
    · rintro (⟨o, ho, hrest⟩ | ⟨e, he, hrest⟩)
      · obtain ⟨b, hb, ho⟩ := List.mem_flatMap.mp ho
        exact ⟨documents b, List.mem_map_of_mem hb,
          ((hsingle b hb).entries s k v).mpr (Or.inl ⟨o, ho, hrest⟩)⟩
      · obtain ⟨b, hb, he⟩ := List.mem_flatMap.mp he
        exact ⟨documents b, List.mem_map_of_mem hb,
          ((hsingle b hb).entries s k v).mpr (Or.inr ⟨e, he, hrest⟩)⟩
    · rintro ⟨_, hd, hv⟩
      obtain ⟨b, hb, rfl⟩ := List.mem_map.mp hd
      rcases ((hsingle b hb).entries s k v).mp hv with ⟨o, ho, hrest⟩ | ⟨e, he, hrest⟩
      · exact Or.inl ⟨o, List.mem_flatMap.mpr ⟨b, hb, ho⟩, hrest⟩
      · exact Or.inr ⟨e, List.mem_flatMap.mpr ⟨b, hb, he⟩, hrest⟩
  refine ⟨h.sectioned, fun s => ?_, hentries⟩
  rw [h.sectioned.find_isSome]
  constructor
  · rintro ⟨k, v, hv⟩
    obtain ⟨d, hd, hv⟩ := (hentries s k v).mp hv
    obtain ⟨b, hb, rfl⟩ := List.mem_map.mp hd
    exact ⟨_, hd, ((hsingle b hb).sectioned.find_isSome s).mpr ⟨k, v, hv⟩⟩
  · rintro ⟨d, hd, hs⟩
    obtain ⟨b, hb, rfl⟩ := List.mem_map.mp hd
    obtain ⟨k, v, hv⟩ := ((hsingle b hb).sectioned.find_isSome s).mp hs
    exact ⟨k, v, (hentries s k v).mpr ⟨_, hd, hv⟩⟩

/-- Every export of one of the bundles gives its document, and every export of a list of them, in
whatever order and however often, gives the union of these. -/
def ExportsUnion (dump : Json → String) (srv : Server) (t : Store) (bundles : List ℕ) : Prop :=
  ∃ (documents : ℕ → Json) (document : Json),
    (∀ b ∈ bundles, ∀ calls, exportedDocument srv [b] ⟨t, calls⟩ = some (documents b)) ∧
    UnionOf (bundles.map documents) document ∧
    ∀ list : List ℕ, (∀ b, b ∈ list ↔ b ∈ bundles) → ∀ calls,
      exportedDocument srv list ⟨t, calls⟩ = some document ∧
        (exportBundleJson dump srv list ⟨t, calls⟩).1 = .ok (dump document)

theorem Distinct.single {t : Store} {bundles : List ℕ} (h : Distinct t bundles) {b : ℕ}
    (hb : b ∈ bundles) : Distinct t [b] := by
  intro c hc o ho c' hc' q hq
  rw [List.mem_singleton] at hc hc'
  subst hc hc'
  exact h _ hb o ho _ hb q hq

theorem exported_single {srv : Server} (hsrv : Reliable srv) {t : Store} (ht : t.Reachable)
    {b : ℕ} (h : Exports t b) (hsettled : Settled srv t b) (hd : Distinct t [b]) (calls : ℕ) :
    ∃ document, exportedDocument srv [b] ⟨t, calls⟩ = some document ∧
      Exactly srv t (objectInfos t b) (relationEntries t b) document := by
  have hexports : ∀ c ∈ [b], Exports t c := by simpa using h
  have hall : ∀ c ∈ [b], Settled srv t c := by simpa using hsettled
  obtain ⟨document, hdocument, -, hexactly⟩ :=
    exported_exactly hsrv ht hexports hall hd (fun _ => "") calls
  rw [List.flatMap_singleton, List.flatMap_singleton] at hexactly
  exact ⟨document, hdocument, hexactly⟩

theorem exportsUnion_of_settled (dump : Json → String) {srv : Server} (hsrv : Reliable srv)
    {t : Store} (ht : t.Reachable) {bundles : List ℕ} (hexports : ∀ b ∈ bundles, Exports t b)
    (hsettled : ∀ b ∈ bundles, Settled srv t b) (hdistinct : Distinct t bundles) :
    ExportsUnion dump srv t bundles := by
  have hone : ∀ b ∈ bundles, ∀ calls, ∃ document,
      exportedDocument srv [b] ⟨t, calls⟩ = some document ∧
        Exactly srv t (objectInfos t b) (relationEntries t b) document :=
    fun b hb => exported_single hsrv ht (hexports b hb) (hsettled b hb) (hdistinct.single hb)
  have hchoice : ∀ b, ∃ document, b ∈ bundles →
      Exactly srv t (objectInfos t b) (relationEntries t b) document := by
    intro b
    by_cases hb : b ∈ bundles
    · obtain ⟨document, -, hexactly⟩ := hone b hb 0
      exact ⟨document, fun _ => hexactly⟩
    · exact ⟨.null, fun h => absurd h hb⟩
  choose documents hdocuments using hchoice
  obtain ⟨document, -, -, hexactly⟩ := exported_exactly hsrv ht hexports hsettled hdistinct dump 0
  refine ⟨documents, document, ?_, unionOf_exactly hdocuments hexactly, ?_⟩
  · intro b hb calls
    obtain ⟨single, hsingle, hone⟩ := hone b hb calls
    rw [hsingle, hone.unique (hdocuments b hb)]
  · intro list hlist calls
    have hdistinct' : Distinct t list := by
      intro b hb o ho c hc q hq
      exact hdistinct b ((hlist b).mp hb) o ho c ((hlist c).mp hc) q hq
    obtain ⟨document', hdocument', htext, hexactly'⟩ := exported_exactly hsrv ht
      (fun b hb => hexports b ((hlist b).mp hb)) (fun b hb => hsettled b ((hlist b).mp hb))
      hdistinct' dump calls
    have hsame : document' = document := by
      refine hexactly'.unique (hexactly.congr (fun o => ?_) fun e => ?_)
      · simp only [List.mem_flatMap, hlist]
      · simp only [List.mem_flatMap, hlist]
    subst hsame
    exact ⟨hdocument', htext⟩

/-- No two properties of one owner clash, for the objects and the relations that are written. -/
structure OneValuePerName (t : Store) (bundles : List ℕ) : Prop where
  objects : ∀ o ∈ exportedObjects t bundles, OneValue t.objectProperties o.id []
  relations : ∀ e ∈ exportedRelations t bundles, ∀ d, Described e.type d →
    OneValue t.relationProperties e.id [d.sourceStr, d.destStr]

/-- Records differ only in members that their ends do not write over. -/
theorem recordFor_eq_iff {d : ProvRelationData} {p p' : Json} (hp : Assigned p)
    (hp' : Assigned p') (source dest : String) :
    recordFor d p source dest = recordFor d p' source dest ↔
      ∀ k, k ∉ [d.sourceStr, d.destStr] → p.find k = p'.find k := by
  have hfind : ∀ (q : Json) (k : String), (recordFor d q source dest).find k =
      if k = d.destStr then some (.string dest)
      else if k = d.sourceStr then some (.string source) else q.find k := by
    intro q k
    rw [recordFor, find_assign, find_assign]
  constructor
  · intro h k hk
    simp only [List.mem_cons, List.not_mem_nil, or_false, not_or] at hk
    have hk' := congrArg (Json.find · k) h
    simpa only [hfind, if_neg hk.1, if_neg hk.2] using hk'
  · intro h
    apply ((hp.assign _ _).assign _ _).ext ((hp'.assign _ _).assign _ _)
    intro k
    rw [← recordFor, ← recordFor, hfind, hfind]
    split_ifs with hdest hsource
    · rfl
    · rfl
    · exact h k (by simp [hdest, hsource])

theorem OneValuePerName.settled {t : Store} {bundles : List ℕ} (h : OneValuePerName t bundles)
    (srv : Server) {b : ℕ} (hb : b ∈ bundles) : Settled srv t b where
  objects := by
    intro o ho hs p p' hp hp'
    have hmem := mem_exportedObjects.mpr ⟨List.mem_flatMap.mpr ⟨b, hb, ho⟩, hs⟩
    exact hp.assigned.ext hp'.assigned fun k =>
      (h.objects o hmem).find_eq hp hp' (List.not_mem_nil)
  relations := by
    intro e he d hd p p' hp hp' source dest
    have hmem := List.mem_flatMap.mpr ⟨b, hb, he⟩
    rw [recordFor_eq_iff hp.assigned hp'.assigned]
    intro k hk
    exact (h.relations e hmem d hd).find_eq hp hp' hk

theorem settled_steadily (a : Arrangement) (t : Store) (b : ℕ) : Settled (steadily a) t b where
  objects := fun _ _ _ _ _ hp hp' => hp.unique hp'
  relations := by
    intro e _ d _ p p' hp hp' source dest
    rw [hp.unique hp']

section Necessary

variable {dump : Json → String} {t : Store} {bundles : List ℕ} (ht : t.Reachable)
  (hexports : ∀ b ∈ bundles, Exports t b) (hdistinct : Distinct t bundles)
  (hunion : ∀ srv, Reliable srv → ExportsUnion dump srv t bundles)

include ht hexports hdistinct hunion

/-- A server may switch between any two orders, so both give one document. -/
theorem same_document {b : ℕ} (hb : b ∈ bundles) (a a' : Arrangement) : ∃ document,
    Exactly (steadily a) t (objectInfos t b) (relationEntries t b) document ∧
      Exactly (steadily a') t (objectInfos t b) (relationEntries t b) document := by
  obtain ⟨n, hfirst, hsecond⟩ := exists_switching a a' t [b]
  obtain ⟨documents, -, hdocuments, -⟩ := hunion _ (switching_reliable a a' n)
  rw [hdocuments b hb] at hfirst hsecond
  obtain ⟨document, hdocument, hexactly⟩ := exported_single (steadily_reliable a) ht
    (hexports b hb) (settled_steadily a t b) (hdistinct.single hb) 0
  obtain ⟨document', hdocument', hexactly'⟩ := exported_single (steadily_reliable a') ht
    (hexports b hb) (settled_steadily a' t b) (hdistinct.single hb) n
  rw [hdocument] at hfirst
  rw [hdocument'] at hsecond
  obtain rfl := Option.some.inj hfirst
  obtain rfl := Option.some.inj hsecond
  exact ⟨documents b, hexactly, hexactly'⟩

theorem oneValuePerName_of_union : OneValuePerName t bundles := by
  constructor
  · intro o ho
    obtain ⟨hmem, u, hu, htype⟩ := mem_exportedObjects.mp ho
    obtain ⟨b, hb, ho⟩ := List.mem_flatMap.mp hmem
    apply oneValue_of_orders
    intro a a' p p' hp hp' k _
    obtain ⟨document, h, h'⟩ := same_document ht hexports hdistinct hunion hb a a'
    have hentry := (h.entries _ _ _).mpr (Or.inl ⟨o, ho, u, hu, htype, rfl, rfl, hp⟩)
    have hentry' := (h'.entries _ _ _).mpr (Or.inl ⟨o, ho, u, hu, htype, rfl, rfl, hp'⟩)
    rw [Option.some.inj (hentry.symm.trans hentry')]
  · intro e he d hd
    obtain ⟨b, hb, he⟩ := List.mem_flatMap.mp he
    apply oneValue_of_orders
    intro a a' p p' hp hp'
    obtain ⟨document, h, h'⟩ := same_document ht hexports hdistinct hunion hb a a'
    have hentry := (h.entries _ _ _).mpr (Or.inr ⟨e, he, d, hd, rfl, rfl, p, hp, rfl⟩)
    have hentry' := (h'.entries _ _ _).mpr (Or.inr ⟨e, he, d, hd, rfl, rfl, p', hp', rfl⟩)
    exact (recordFor_eq_iff hp.assigned hp'.assigned _ _).mp
      (Option.some.inj (hentry.symm.trans hentry'))

end Necessary

/-- The strings `("p", "k")` and `("", "p:k")` of entity 2 are one member of its entry. -/
def clashingStore : Store :=
  { bundleStore 2 2 wasDerivedFrom with
    objectProperties := [⟨2, "p", "k", "v", stringProperty⟩, ⟨2, "", "p:k", "w", stringProperty⟩] }

theorem clashingStore_reachable : clashingStore.Reachable :=
  .addObjectProperty ⟨2, "", "p:k", "w", stringProperty⟩ (by decide)
    (.addObjectProperty ⟨2, "p", "k", "v", stringProperty⟩ (by decide)
      (bundleStore_reachable (by decide) (by decide) (by decide)) rfl) rfl

def asStored : Arrangement := ⟨fun l => l, fun l => List.Perm.refl l⟩

def reversed : Arrangement := ⟨List.reverse, fun l => l.reverse_perm⟩

/-- The document of the clashing store with the string that was listed last. -/
def clashingDocument (v : String) : Json := .object [
  ("entity", .object [("e", .object [("p:k", .string v)])]),
  ("wasDerivedFrom", .object [("1", .object [("prov:generatedEntity", .string "e"),
    ("prov:usedEntity", .string "e")])])]

def clashingText (j : Json) : String :=
  "\x7b\"entity\":\x7b\"e\":\x7b\"p:k\":\"" ++
  (((j.entryAt "entity" "e").bind fun e => (e.find "p:k").bind Json.getString).getD "") ++
  "\"\x7d\x7d,\"wasDerivedFrom\":\x7b\"1\":" ++
  "\x7b\"prov:generatedEntity\":\"e\",\"prov:usedEntity\":\"e\"\x7d\x7d\x7d"

/-- The bundle is exported in eight queries; listed twice it is exported with the other string if
the rows then come in the other order. -/
theorem repetition_differs : clashingStore.Reachable ∧ Distinct clashingStore [1] ∧
    Reliable (switching asStored reversed 8) ∧
    (exportBundleJson clashingText (switching asStored reversed 8) [1] ⟨clashingStore, 0⟩).1 =
      .ok (clashingText (clashingDocument "w")) ∧
    (exportBundleJson clashingText (switching asStored reversed 8) [1, 1] ⟨clashingStore, 0⟩).1 =
      .ok (clashingText (clashingDocument "v")) ∧
    clashingText (clashingDocument "w") ≠ clashingText (clashingDocument "v") ∧
    ¬ ExportsUnion clashingText (switching asStored reversed 8) clashingStore [1] := by
  refine ⟨clashingStore_reachable, ?_, switching_reliable _ _ _, rfl, rfl, by decide, ?_⟩
  · unfold Distinct
    decide
  · rintro ⟨documents, document, -, -, hlists⟩
    have hone := (hlists [1] (by simp) 0).1
    have htwo := (hlists [1, 1] (by simp) 0).1
    have hfirst : exportedDocument (switching asStored reversed 8) [1] ⟨clashingStore, 0⟩ =
        some (clashingDocument "w") := rfl
    have hsecond : exportedDocument (switching asStored reversed 8) [1, 1] ⟨clashingStore, 0⟩ =
        some (clashingDocument "v") := rfl
    rw [hfirst] at hone
    rw [hsecond] at htwo
    have hsame := (Option.some.inj hone).trans (Option.some.inj htwo).symm
    simp [clashingDocument] at hsame

/-- Whatever order the database lists rows in, the export of several bundles is the union of
their exports, in whatever order and however often the bundles are listed: exactly when no two
properties of one owner clash. -/
theorem exportsUnion_iff (dump : Json → String) {t : Store} (ht : t.Reachable)
    {bundles : List ℕ} (hsingle : ∀ b ∈ bundles, ∃ srv calls text w, Reliable srv ∧
      exportBundleJson dump srv [b] ⟨t, calls⟩ = (.ok text, w)) (hdistinct : Distinct t bundles) :
    (∀ srv, Reliable srv → ExportsUnion dump srv t bundles) ↔ OneValuePerName t bundles := by
  have hexports : ∀ b ∈ bundles, Exports t b := by
    intro b hb
    obtain ⟨srv, calls, text, w, hsrv, h⟩ := hsingle b hb
    exact exports_of_ok hsrv ht h
  constructor
  · intro hunion
    exact oneValuePerName_of_union ht hexports hdistinct hunion
  · intro h srv hsrv
    exact exportsUnion_of_settled dump hsrv ht hexports (fun b hb => h.settled srv hb) hdistinct

/-- Bundles 1 and 2 share entity 3, which is derived from itself and has two properties. -/
def sharedStore : Store :=
  { (((((Store.fresh.insertObject "" "b" cplBundle 0).insertObject "" "c" cplBundle 1).insertObject
      "" "e" cplEntity 2).insertRelation 3 3 wasDerivedFrom).insertRelation 1 1
      bundleRelation).insertRelation 2 1 bundleRelation with
    objectProperties := [⟨3, "p", "k", "v", stringProperty⟩, ⟨3, "", "k", "1", booleanProperty⟩] }

theorem sharedStore_reachable : sharedStore.Reachable :=
  .addObjectProperty ⟨3, "", "k", "1", booleanProperty⟩ (by decide)
    (.addObjectProperty ⟨3, "p", "k", "v", stringProperty⟩ (by decide)
      (.addRelation 2 1 bundleRelation (by decide) (by decide) (by decide)
        (.addRelation 1 1 bundleRelation (by decide) (by decide) (by decide)
          (.addRelation 3 3 wasDerivedFrom (by decide) (by decide) (by decide)
            (.createObject "" "e" cplEntity 2 (by decide)
              (.createObject "" "c" cplBundle 1 (by decide)
                (.createObject "" "b" cplBundle 0 (by decide) .fresh)))))) rfl) rfl

def sharedText (_ : Json) : String :=
  "\x7b\"entity\":\x7b\"e\":\x7b\"k\":true,\"p:k\":\"v\"\x7d\x7d," ++
  "\"wasDerivedFrom\":\x7b\"1\":" ++
  "\x7b\"prov:generatedEntity\":\"e\",\"prov:usedEntity\":\"e\"\x7d\x7d\x7d"

theorem sharedStore_oneValue : OneValuePerName sharedStore [1, 2] := by
  have htypes : ∀ r ∈ sharedStore.objectProperties, ∀ q ∈ sharedStore.objectProperties,
      r.type = q.type → r = q := by decide
  constructor
  · intro o _ r hr q hq _ _ htype k v u hv hu
    rw [htypes r hr q hq htype, hu] at hv
    exact Or.inl (congrArg Prod.snd (Option.some.inj hv)).symm
  · intro e _ d _ r hr
    cases hr

theorem exportsUnion_iff_shared : ExportsUnion sharedText .ideal sharedStore [1, 2] := by
  have hsingle : ∀ b ∈ [1, 2], ∃ srv calls text w, Reliable srv ∧
      exportBundleJson sharedText srv [b] ⟨sharedStore, calls⟩ = (.ok text, w) := by
    intro b hb
    rcases List.mem_cons.mp hb with rfl | hb
    · exact ⟨.ideal, 0, _, _, Server.ideal_reliable, rfl⟩
    · obtain rfl := List.mem_singleton.mp hb
      exact ⟨.ideal, 0, _, _, Server.ideal_reliable, rfl⟩
  have hdistinct : Distinct sharedStore [1, 2] := by
    unfold Distinct
    decide
  exact (exportsUnion_iff sharedText sharedStore_reachable hsingle hdistinct).mpr
    sharedStore_oneValue .ideal Server.ideal_reliable

end ExportUnion
