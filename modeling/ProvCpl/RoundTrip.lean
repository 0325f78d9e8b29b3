import ProvCpl.ExportDocument

/-! # Import followed by export

The two halves meet at the rows that an import stores. The join over the memberships of the
bundle gives back the relations in the order of the records, and the objects that these join
are the rows of the declared names. -/
namespace RoundTrip

open CplTypes QualifiedName JsonValue ProvStore ProvServer ServerSpecs ImportDocument
open ImportFrame ImportAccepts ImportGraph ExportDocument InsertOnce ValidateDocument EarlyExit

theorem flatMap_eq_of_unique {α β : Type} {g : α → List β} {d : α} :
    ∀ {l : List α}, l.Nodup → d ∈ l → (∀ c ∈ l, c ≠ d → g c = []) → l.flatMap g = g d
  | c :: l, hn, hd, h => by
    obtain ⟨hc, hl⟩ := List.nodup_cons.mp hn
    rw [List.flatMap_cons]
    rcases List.mem_cons.mp hd with rfl | hd
    · have hrest : l.flatMap g = [] := List.flatMap_eq_nil_iff.mpr fun x hx =>
        h x (List.mem_cons_of_mem _ hx) fun he => hc (he ▸ hx)
      rw [hrest, List.append_nil]
    · have hne : c ≠ d := fun he => hc (he ▸ hd)
      rw [h c List.mem_cons_self hne, List.nil_append]
      exact flatMap_eq_of_unique hl hd fun x hx => h x (List.mem_cons_of_mem _ hx)

theorem recordsOf_filter {document : Json} {d : ProvRelationData} (hd : d ∈ relationSections) :
    (recordsOf document).filter (fun r => r.entry.type = d.type) =
      (records document d).map (recordOf d) := by
  have hnodup : relationSections.Nodup := relationSections_typeStr_nodup.of_map
  have hall : ∀ c, c.type = d.type → ((records document c).map (recordOf c)).filter
      (fun r => r.entry.type = d.type) = (records document c).map (recordOf c) := fun c hc =>
    List.filter_eq_self.mpr fun r hr => by
      obtain ⟨e, -, rfl⟩ := List.mem_map.mp hr
      exact decide_eq_true hc
  rw [recordsOf, List.filter_flatMap, flatMap_eq_of_unique hnodup hd, hall d rfl]
  intro c hc hne
  rw [List.filter_eq_nil_iff]
  intro r hr
  obtain ⟨e, -, rfl⟩ := List.mem_map.mp hr
  exact fun he => hne (relationSections_inj hc hd (Or.inr (of_decide_eq_true he)))

section Rows

variable {base t : Store} {b : ℕ} {decl : List (ℤ × String)} {tbl : LookupTable}
  {recs : List Record}

theorem mem_pairsFrom {p : RelationRow × RelationRow} :
    ∀ {recs : List Record} {n : ℕ}, p ∈ pairsFrom tbl b n recs →
      ∃ i r, n ≤ i ∧ r ∈ recs ∧ p = pairAt tbl b i r
  | r :: rs, n, hp => by
    rcases List.mem_cons.mp hp with rfl | hp
    · exact ⟨n, r, Nat.le_refl n, List.mem_cons_self, rfl⟩
    · obtain ⟨i, q, hi, hq, he⟩ := mem_pairsFrom hp
      exact ⟨i, q, by omega, List.mem_cons_of_mem _ hq, he⟩

theorem map_fst_sublist_pairRows (pairs : List (RelationRow × RelationRow)) :
    (pairs.map Prod.fst).Sublist (pairRows pairs) := by
  induction pairs with
  | nil => exact List.Sublist.refl _
  | cons p ps ih => exact (ih.cons p.2).cons_cons p.1

theorem exists_mem_pairsFrom {r : Record} :
    ∀ {recs : List Record} {n : ℕ}, r ∈ recs → ∃ i, pairAt tbl b i r ∈ pairsFrom tbl b n recs
  | q :: rs, n, hr => by
    rcases List.mem_cons.mp hr with rfl | hr
    · exact ⟨n, List.mem_cons_self⟩
    · obtain ⟨i, hi⟩ := exists_mem_pairsFrom (n := n + 2) hr
      exact ⟨i, List.mem_cons_of_mem _ hi⟩

theorem filter_pairRows (htype : ∀ r ∈ recs, r.entry.type ≠ bundleRelation) (n : ℕ) :
    (pairRows (pairsFrom tbl b n recs)).filter
      (fun r => r.fromId = some b ∧ r.type = some bundleRelation) =
      (pairsFrom tbl b n recs).map Prod.snd := by
  induction recs generalizing n with
  | nil => rfl
  | cons r rs ih =>
    have ih := ih (fun q hq => htype q (List.mem_cons_of_mem r hq)) (n + 2)
    have hr := htype r List.mem_cons_self
    simp only [pairsFrom, pairRows, List.flatMap_cons, List.cons_append, List.nil_append,
      List.map_cons] at ih ⊢
    rw [List.filter_cons_of_neg (by simp [pairAt, hr]), List.filter_cons_of_pos (by simp [pairAt]),
      ih]

theorem memberships_eq (hg : Graph base b decl tbl recs t) (hd : base.NoDangling)
    (hb : b = base.nextObject) (htype : ∀ r ∈ recs, r.entry.type ≠ bundleRelation) :
    t.memberships b = (pairsFrom tbl b base.nextRelation recs).map Prod.snd := by
  have hbase : base.relations.filter
      (fun r => r.fromId = some b ∧ r.type = some bundleRelation) = [] := by
    rw [List.filter_eq_nil_iff]
    intro r hr he
    have hlt := (hd r hr).1 b (of_decide_eq_true he).1
    omega
  rw [Store.memberships, hg.relations, List.filter_append, hbase, List.nil_append,
    filter_pairRows htype]

/-- The join over the memberships gives the relations of the records, in their order. -/
theorem bundleRelations_eq (hg : Graph base b decl tbl recs t) (ht : t.Valid)
    (hd : base.NoDangling) (hb : b = base.nextObject)
    (htype : ∀ r ∈ recs, r.entry.type ≠ bundleRelation) :
    t.bundleRelations b = (pairsFrom tbl b base.nextRelation recs).map Prod.fst := by
  rw [Store.bundleRelations, memberships_eq hg hd hb htype, List.flatMap_map,
    ← List.flatMap_pure_eq_map]
  refine List.flatMap_congr fun p hp => ?_
  obtain ⟨i, r, -, -, rfl⟩ := mem_pairsFrom hp
  have hmem : (pairAt tbl b i r).1 ∈ t.relations := ?_
  · have hone := filter_key_eq ht.relation_ids hmem
    simpa [pairAt, eq_comm] using hone
  rw [hg.relations]
  exact List.mem_append_right _ (List.mem_flatMap.mpr ⟨_, hp, List.mem_cons_self⟩)

theorem mem_bundleObjects {c : ObjectRow} : c ∈ t.bundleObjects b ↔
    c ∈ t.objects ∧ ∃ r ∈ t.bundleRelations b, r.fromId = some c.id ∨ r.toId = some c.id := by
  simp only [Store.bundleObjects, List.mem_dedup, List.mem_flatMap, List.mem_filter,
    decide_eq_true_eq]
  constructor
  · rintro ⟨r, hr, hc, h⟩
    exact ⟨hc, r, hr, h⟩
  · rintro ⟨hc, r, hr, h⟩
    exact ⟨r, hr, hc, h⟩

def endpointNames (recs : List Record) : List String := recs.flatMap fun r => [r.source, r.dest]

/-- The objects of the bundle are the rows of the names at the ends of its records. -/
theorem mem_bundleObjects_iff (hg : Graph base b decl tbl recs t) (ht : t.Valid)
    (hd : base.NoDangling) (hb : b = base.nextObject)
    (htype : ∀ r ∈ recs, r.entry.type ≠ bundleRelation) {c : ObjectRow} :
    c ∈ t.bundleObjects b ↔ c ∈ t.objects ∧
      ∃ n ∈ endpointNames recs, OrderedMap.find n tbl = some c.id := by
  rw [mem_bundleObjects, bundleRelations_eq hg ht hd hb htype]
  simp only [endpointNames, List.mem_flatMap, List.mem_map, List.mem_cons, List.not_mem_nil,
    or_false]
  refine and_congr_right fun _ => ⟨?_, ?_⟩
  · rintro ⟨q, ⟨p, hp, rfl⟩, h⟩
    obtain ⟨i, r, -, hr, rfl⟩ := mem_pairsFrom hp
    rcases h with h | h
    · exact ⟨r.source, ⟨r, hr, Or.inl rfl⟩, h⟩
    · exact ⟨r.dest, ⟨r, hr, Or.inr rfl⟩, h⟩
  · rintro ⟨n, ⟨r, hr, hn⟩, h⟩
    obtain ⟨i, hi⟩ : ∃ i, pairAt tbl b i r ∈ pairsFrom tbl b base.nextRelation recs :=
      exists_mem_pairsFrom hr
    refine ⟨_, ⟨_, hi, rfl⟩, ?_⟩
    rcases hn with rfl | rfl
    · exact Or.inl h
    · exact Or.inr h

end Rows

/-- Names that are shorter than their columns and come back from them unchanged. -/
structure FitsColumns (n : String) : Prop where
  storable : StorableName n
  nsPrefix : (nameToTokens n).1.length < cplPrefixLen
  name : (nameToTokens n).2.length < cplNameLen

theorem fitsColumns_of_noColon {n : String} (hne : n ≠ "") (h0 : '\x00' ∉ n.toList)
    (hn : '\n' ∉ n.toList) (hc : ':' ∉ n.toList) (hl : n.length < cplNameLen) :
    FitsColumns n := by
  refine ⟨⟨h0, hn, Or.inl ⟨hne, hc⟩⟩, ?_, ?_⟩ <;> rw [nameToTokens_of_noColon hc]
  · exact (by decide : "".length < cplPrefixLen)
  · exact hl

theorem namedRow_info {d : ℤ × String} {r : ObjectRow} (h : NamedRow d r)
    (hn : FitsColumns d.2) :
    ∃ o, ObjectRow.info r = some o ∧ objectName o = d.2 ∧ o.type = d.1 := by
  have hnul := nameToTokens_noNul hn.storable.noNul
  refine ⟨⟨r.id, r.creationTime, (nameToTokens d.2).1, (nameToTokens d.2).2, d.1⟩, ?_,
    fullName_nameToTokens hn.storable, rfl⟩
  rw [ObjectRow.info, h.nsPrefix, h.name, h.type, cStr_of_noNul hnul.1, cStr_of_noNul hnul.2]
  dsimp only
  rw [fetchText_of_short (Nat.lt_succ_of_lt hn.nsPrefix),
    fetchText_of_short (Nat.lt_succ_of_lt hn.name)]

/-- The name under which the object of an id is written. -/
def nameOf (t : Store) (id : ℕ) : String :=
  (((t.objects.find? fun r => r.id = id).bind ObjectRow.info).map objectName).getD ""

theorem find?_row {t : Store} (ht : t.Valid) {r : ObjectRow} (hr : r ∈ t.objects) :
    (t.objects.find? fun q => q.id = r.id) = some r := by
  cases hf : t.objects.find? (fun q => q.id = r.id) with
  | none => simpa using List.find?_eq_none.mp hf r hr
  | some q =>
    have hid : q.id = r.id := by simpa using List.find?_some hf
    rw [List.inj_on_of_nodup_map ht.object_ids (List.mem_of_find?_eq_some hf) hr hid]

theorem nameOf_row {t : Store} (ht : t.Valid) {r : ObjectRow} (hr : r ∈ t.objects)
    {o : ObjectInfo} (ho : ObjectRow.info r = some o) : nameOf t r.id = objectName o := by
  rw [nameOf, find?_row ht hr, Option.bind_some, ho]
  rfl

structure StoredGraph (base : Store) (b : ℕ) (decl : List (ℤ × String)) (tbl : LookupTable)
    (recs : List Record) (t : Store) : Prop where
  graph : Graph base b decl tbl recs t
  valid : t.Valid
  noDangling : base.NoDangling
  bundle : b = base.nextObject
  ends : ∀ n ∈ endpointNames recs, n ∈ decl.map Prod.snd
  sections : ∀ r ∈ recs, r.entry ∈ relationSections
  columns : ∀ d ∈ decl, FitsColumns d.2

section StoredGraph

variable {base t : Store} {b : ℕ} {decl : List (ℤ × String)} {tbl : LookupTable}
  {recs : List Record} (h : StoredGraph base b decl tbl recs t)

include h

theorem StoredGraph.types : ∀ r ∈ recs, r.entry.type ≠ bundleRelation :=
  fun r hr => (relationSections_ensureRType r.entry (h.sections r hr)).2

theorem StoredGraph.relations_eq :
    t.bundleRelations b = (pairsFrom tbl b base.nextRelation recs).map Prod.fst :=
  bundleRelations_eq h.graph h.valid h.noDangling h.bundle h.types

theorem StoredGraph.mem_objects {c : ObjectRow} : c ∈ t.bundleObjects b ↔
    c ∈ t.objects ∧ ∃ n ∈ endpointNames recs, OrderedMap.find n tbl = some c.id :=
  mem_bundleObjects_iff h.graph h.valid h.noDangling h.bundle h.types

theorem StoredGraph.namedRow {d : ℤ × String} (hd : d ∈ decl) {c : ObjectRow}
    (hc : c ∈ t.objects) (hf : OrderedMap.find d.2 tbl = some c.id) : NamedRow d c := by
  obtain ⟨r, hr, hr', hn⟩ := h.graph.named d hd
  have hid : r.id = c.id := Option.some.inj (hr'.symm.trans hf)
  rwa [List.inj_on_of_nodup_map h.valid.object_ids hr hc hid] at hn

theorem StoredGraph.endpoint {n : String} (hn : n ∈ endpointNames recs) :
    ∃ c ∈ t.bundleObjects b, OrderedMap.find n tbl = some c.id ∧ nameOf t c.id = n := by
  obtain ⟨d, hd, rfl⟩ := List.mem_map.mp (h.ends n hn)
  obtain ⟨c, hc, hf, hrow⟩ := h.graph.named d hd
  obtain ⟨o, ho, hname, -⟩ := namedRow_info hrow (h.columns d hd)
  exact ⟨c, h.mem_objects.mpr ⟨hc, d.2, hn, hf⟩, hf, (nameOf_row h.valid hc ho).trans hname⟩

theorem StoredGraph.objectInfo {c : ObjectRow} (hc : c ∈ t.bundleObjects b) :
    base.nextObject ≤ c.id ∧ ∃ o d, ObjectRow.info c = some o ∧ objectName o = nameOf t c.id ∧
      d ∈ decl ∧ d.2 ∈ endpointNames recs ∧ objectName o = d.2 ∧ o.type = d.1 := by
  obtain ⟨hmem, n, hn, hf⟩ := h.mem_objects.mp hc
  obtain ⟨d, hd, rfl⟩ := List.mem_map.mp (h.ends n hn)
  obtain ⟨o, ho, hname, htype⟩ := namedRow_info (h.namedRow hd hmem hf) (h.columns d hd)
  exact ⟨(h.graph.only _ _ hf).2, o, d, ho, (nameOf_row h.valid hmem ho).symm, hd, hn, hname,
    htype⟩

/-- What is listed of the objects: the declared names at the ends of records. -/
theorem StoredGraph.listed_iff {type : ℤ} {n : String} :
    (∃ o ∈ (t.bundleObjects b).filterMap ObjectRow.info, o.type = type ∧ objectName o = n) ↔
      (type, n) ∈ decl ∧ n ∈ endpointNames recs := by
  constructor
  · rintro ⟨o, ho, rfl, rfl⟩
    obtain ⟨c, hc, hinfo⟩ := List.mem_filterMap.mp ho
    obtain ⟨-, o', d, ho', -, hd, hn, hname, htype⟩ := h.objectInfo hc
    obtain rfl : o = o' := Option.some.inj (hinfo.symm.trans ho')
    rw [hname, htype]
    exact ⟨hd, hn⟩
  · rintro ⟨hd, hn⟩
    obtain ⟨c, hc, hf, -⟩ := h.endpoint hn
    have hmem := (h.mem_objects.mp hc).1
    obtain ⟨o, ho, hname, htype⟩ := namedRow_info (h.namedRow hd hmem hf) (h.columns _ hd)
    exact ⟨o, List.mem_filterMap.mpr ⟨c, hc, ho⟩, htype, hname⟩

theorem StoredGraph.listed_edges (type : ℤ) :
    (((t.bundleRelations b).filterMap RelationRow.entry).filter fun e => e.type = type).map
        (fun e => (nameOf t e.queryObjectId, nameOf t e.otherObjectId)) =
      (recs.filter fun r => r.entry.type = type).map fun r => (r.source, r.dest) := by
  have hends : ∀ r ∈ recs, ∃ f o, OrderedMap.find r.source tbl = some f ∧
      OrderedMap.find r.dest tbl = some o ∧ nameOf t f = r.source ∧ nameOf t o = r.dest := by
    intro r hr
    obtain ⟨c, -, hf, hc⟩ := h.endpoint (n := r.source) (List.mem_flatMap.mpr ⟨r, hr, by simp⟩)
    obtain ⟨c', -, ho, hc'⟩ := h.endpoint (n := r.dest) (List.mem_flatMap.mpr ⟨r, hr, by simp⟩)
    exact ⟨c.id, c'.id, hf, ho, hc, hc'⟩
  rw [h.relations_eq]
  generalize base.nextRelation = n
  clear h
  induction recs generalizing n with
  | nil => rfl
  | cons r rs ih =>
    obtain ⟨f, o, hf, ho, hnf, hno⟩ := hends r List.mem_cons_self
    have ih := ih (fun q hq => hends q (List.mem_cons_of_mem r hq)) (n + 2)
    have hentry : RelationRow.entry (pairAt tbl b n r).1 = some ⟨n, f, o, r.entry.type⟩ := by
      simp only [pairAt, hf, ho, RelationRow.entry]
    simp only [pairsFrom, List.map_cons, List.filterMap_cons, hentry]
    by_cases ht : r.entry.type = type
    · rw [List.filter_cons_of_pos (by simpa using ht), List.filter_cons_of_pos (by simpa using ht),
        List.map_cons, List.map_cons, ih, hnf, hno]
    · rw [List.filter_cons_of_neg (by simpa using ht), List.filter_cons_of_neg (by simpa using ht),
        ih]

theorem StoredGraph.exportable (hobject : 0 < base.nextObject)
    (hrelation : 0 < base.nextRelation)
    (hop : ∀ q ∈ t.objectProperties, base.nextObject ≤ q.id → Written q)
    (hrp : ∀ q ∈ t.relationProperties, base.nextRelation ≤ q.id → Written q) :
    Exportable t b (nameOf t) := by
  have hrow : ∀ r ∈ t.bundleRelations b, ∃ i q, base.nextRelation ≤ i ∧ q ∈ recs ∧
      r = (pairAt tbl b i q).1 := fun r hr => by
    rw [h.relations_eq] at hr
    obtain ⟨p, hp, rfl⟩ := List.mem_map.mp hr
    obtain ⟨i, q, hi, hq, rfl⟩ := mem_pairsFrom hp
    exact ⟨i, q, hi, hq, rfl⟩
  refine ⟨by rw [h.bundle]; omega, fun r hr => ?_, fun r hr q hq hid => ?_, fun r hr => ?_,
    fun r hr q hq hid => ?_, ?_⟩
  · obtain ⟨hid, o, -, ho, hname, -⟩ := h.objectInfo hr
    exact ⟨by omega, o, ho, hname⟩
  · exact hop q hq (hid ▸ (h.objectInfo hr).1)
  · obtain ⟨i, q, hi, hq, rfl⟩ := hrow r hr
    obtain ⟨c, hc, hf, -⟩ := h.endpoint (n := q.source) (List.mem_flatMap.mpr ⟨q, hq, by simp⟩)
    obtain ⟨c', hc', ho, -⟩ := h.endpoint (n := q.dest) (List.mem_flatMap.mpr ⟨q, hq, by simp⟩)
    refine ⟨by simp only [pairAt]; omega, ⟨i, c.id, c'.id, q.entry.type⟩, ?_,
      ⟨q.entry, h.sections q hq, rfl⟩, List.mem_map_of_mem hc, List.mem_map_of_mem hc'⟩
    simp only [pairAt, hf, ho, RelationRow.entry]
  · obtain ⟨i, p, hi, -, rfl⟩ := hrow r hr
    exact hrp q hq (hid ▸ hi)
  · have hsub := (map_fst_sublist_pairRows (pairsFrom tbl b base.nextRelation recs)).trans
      (List.sublist_append_right base.relations _)
    rw [← h.graph.relations, ← h.relations_eq] at hsub
    exact h.valid.relation_ids.sublist (hsub.map _)

end StoredGraph

/-- Since `base`, only calls of the importer have changed the store. -/
structure Grown (base t : Store) : Prop where
  reachable : t.Reachable
  nextObject : base.nextObject ≤ t.nextObject
  nextRelation : base.nextRelation ≤ t.nextRelation
  objectRows : ∀ q ∈ t.objectProperties, base.nextObject ≤ q.id → Written q
  relationRows : ∀ q ∈ t.relationProperties, base.nextRelation ≤ q.id → Written q

theorem grown_refl {s : Store} (hs : s.Reachable) : Grown s s where
  reachable := hs
  nextObject := Nat.le_refl _
  nextRelation := Nat.le_refl _
  objectRows := fun q hq hid => by
    obtain ⟨r, hr, he⟩ := List.mem_map.mp (hs.valid.objectProperty_owner q hq)
    have := hs.valid.object_bound r hr
    omega
  relationRows := fun q hq hid => by
    obtain ⟨r, hr, he⟩ := List.mem_map.mp (hs.valid.relationProperty_owner q hq)
    have := hs.valid.relation_bound r hr
    omega

theorem importClosed_grown (base : Store) :
    ImportClosed (Grown base) base.nextObject base.nextRelation where
  next := fun _ h => ⟨h.nextObject, h.nextRelation⟩
  object := fun _ p n t now ht h => { h with
    reachable := .createObject p n t now ht h.reachable
    nextObject := Nat.le_succ_of_le h.nextObject }
  relation := fun _ f o t hf ho ht h => { h with
    reachable := .addRelation f o t hf ho ht h.reachable
    nextRelation := Nat.le_succ_of_le h.nextRelation }
  objectProperty := fun _ _ r _ h0 hw he h => by
    have hreach := h.reachable.addObjectProperty r h0 he
    obtain ⟨-, rfl⟩ := insertObjectProperty_eq he
    refine { h with reachable := hreach, objectRows := fun q hq hid => ?_ }
    rcases mem_insertOnce hq with hq | rfl
    · exact h.objectRows q hq hid
    · exact hw
  relationProperty := fun _ _ r _ h0 hw he h => by
    have hreach := h.reachable.addRelationProperty r h0 he
    obtain ⟨-, rfl⟩ := insertRelationProperty_eq he
    refine { h with reachable := hreach, relationRows := fun q hq hid => ?_ }
    rcases mem_insertOnce hq with hq | rfl
    · exact h.relationRows q hq hid
    · exact hw
  prefixRow := fun _ _ r _ h0 he h => by
    have hreach := h.reachable.addPrefix r h0 he
    obtain ⟨-, rfl⟩ := insertPrefix_eq he
    exact { h with reachable := hreach }

structure RoundTripDocument (document : Json) : Prop where
  objects : DeclaresObjects document
  relations : RelatesDeclared document
  noInBundle : document.find "inBundle" = none
  distinct : (declaredNames document).Nodup
  columns : ∀ n ∈ declaredNames document, FitsColumns n

def relatedNames (document : Json) : List String :=
  relationSections.flatMap fun d => (edges document d).flatMap fun p => [p.1, p.2]

/-- Both have the same relations, and `out` has the related objects of `document`. -/
structure SameGraph (document out : Json) : Prop where
  relations : ∀ d ∈ relationSections, (edges out d).Perm (edges document d)
  objects : ∀ t ∈ objectSections, ((out.membersAt t.2).map Prod.fst).Perm
    (((document.membersAt t.2).map Prod.fst).filter (· ∈ relatedNames document))
  sections : ∀ k, (out.find k).isSome →
    k ∈ objectSections.map Prod.snd ∨ k ∈ relationSections.map (·.typeStr)
  noInBundle : out.find "inBundle" = none

theorem endpointNames_recordsOf (document : Json) :
    endpointNames (recordsOf document) = relatedNames document := by
  simp only [endpointNames, recordsOf, relatedNames, edges, List.flatMap_assoc, List.flatMap_map,
    recordOf]

theorem mem_declared {document : Json} {t : ℤ × String} (ht : t ∈ objectSections) {n : String} :
    (t.1, n) ∈ declared document ↔ n ∈ (document.membersAt t.2).map Prod.fst := by
  simp only [declared, List.mem_flatMap, List.mem_map, Prod.mk.injEq]
  constructor
  · rintro ⟨u, hu, e, he, htype, rfl⟩
    rw [(objectSections_inj u hu t ht).mp htype] at he
    exact ⟨e, he, rfl⟩
  · rintro ⟨e, he, rfl⟩
    exact ⟨t, ht, e, he, rfl, rfl⟩

theorem recordsOf_sections {document : Json} :
    ∀ r ∈ recordsOf document, r.entry ∈ relationSections := by
  intro r hr
  obtain ⟨d, hd, hr⟩ := List.mem_flatMap.mp hr
  obtain ⟨e, -, rfl⟩ := List.mem_map.mp hr
  exact hd

theorem recordsOf_ends {document : Json} (h : RelatesDeclared document) :
    ∀ n ∈ endpointNames (recordsOf document), n ∈ declaredNames document := by
  intro n hn
  obtain ⟨r, hr, hn⟩ := List.mem_flatMap.mp hn
  obtain ⟨d, hd, hr⟩ := List.mem_flatMap.mp hr
  obtain ⟨e, he, rfl⟩ := List.mem_map.mp hr
  have hends : ∀ key, key = d.sourceStr ∨ key = d.destStr →
      endpointName e.2 key ∈ declaredNames document := fun key hkey => by
    obtain ⟨m, hm, hdecl⟩ := h.endpoints d hd e he key hkey
    rwa [endpointName, hm]
  rcases List.mem_cons.mp hn with rfl | hn
  · exact hends _ (Or.inl rfl)
  · rw [List.mem_singleton.mp hn]
    exact hends _ (Or.inr rfl)

/-- The document written for a stored graph has the graph of the document imported. -/
theorem sameGraph_of_exported {document out objects : Json} {base t : Store} {b : ℕ}
    {tbl : LookupTable} (hdoc : RoundTripDocument document)
    (h : StoredGraph base b (declared document) tbl (recordsOf document) t)
    (hobjects : ObjectDocument ((t.bundleObjects b).filterMap ObjectRow.info) objects)
    (hrelations : RelationDocument objects (nameOf t)
      ((t.bundleRelations b).filterMap RelationRow.entry) out) : SameGraph document out where
  relations := fun d hd => by
    have hout := hrelations.relations d hd
    rw [h.listed_edges d.type, recordsOf_filter hd, List.map_map] at hout
    exact hout
  objects := fun u hu => by
    have hne : ∀ d ∈ relationSections, ∀ u ∈ objectSections, d.typeStr ≠ u.2 := by decide
    have hsame : out.membersAt u.2 = objects.membersAt u.2 := by
      rw [Json.membersAt, Json.membersAt, hrelations.only u.2 fun d hd => hne d hd u hu]
    have hdistinct := hdoc.distinct
    rw [declaredNames, List.nodup_flatMap] at hdistinct
    rw [hsame]
    refine (List.perm_ext_iff_of_nodup (hobjects.sorted u hu).nodup_keys
      ((hdistinct.1 u hu).filter _)).mpr fun n => ?_
    rw [List.mem_filter, ← mem_declared hu, decide_eq_true_eq, ← endpointNames_recordsOf,
      ← h.listed_iff]
    exact hobjects.names u hu n
  sections := fun k hk => by
    by_contra hno
    rw [not_or, List.mem_map, List.mem_map] at hno
    have hnone : out.find k = none := by
      rw [hrelations.only k fun d hd he => hno.2 ⟨d, hd, he⟩]
      exact hobjects.only k fun u hu he => hno.1 ⟨u, hu, he⟩
    rw [hnone] at hk
    cases hk
  noInBundle := by
    cases hf : out.find "inBundle" with
    | none => rfl
    | some v =>
      let d : ProvRelationData :=
        ⟨inBundle, "inBundle", "prov:bundle", cplBundle, "prov:object", cplEntity⟩
      have hd : d ∈ relationSections := by decide
      obtain ⟨e, he, ht⟩ := hrelations.sections d hd (by rw [hf]; rfl)
      have hlisted := h.listed_edges d.type
      rw [recordsOf_filter hd, records, Json.membersAt, hdoc.noInBundle] at hlisted
      exact absurd (decide_eq_true ht)
        (List.filter_eq_nil_iff.mp (List.map_eq_nil_iff.mp hlisted) e he)

/-- A document that is imported into any reachable store comes back from the export of its
bundle with the same relations, and with the objects that these join. -/
theorem export_of_import_same_graph {parse : String → Option Json} (dump : Json → String)
    {srv : Server} (hsrv : Reliable srv) {jsonString : String} {members : List (String × Json)}
    (hp : parse jsonString = some (.object members)) (hne : members ≠ [])
    (hdoc : RoundTripDocument (.object members)) {s : Store} (hs : s.Reachable)
    (hd : s.NoDangling) (calls : ℕ) (bundleName : String) (outId : ℕ) :
    ∃ b w out w', importDocumentJson parse srv jsonString bundleName [] 0 (some outId)
        ⟨s, calls⟩ = ((.ret .ok, some b), w) ∧
      exportBundleJson dump srv [b] w = (.ok (dump out), w') ∧
      SameGraph (.object members) out := by
  obtain ⟨b, w, hrun⟩ :=
    importDocument_accepts hsrv hp hne hdoc.objects.accepts hdoc.relations hs bundleName calls
  obtain ⟨hb, tbl, hgraph⟩ := importDocument_graph hsrv hp hne hdoc.distinct hrun
  have hkeeps : Keeps (Grown s)
      (importDocument parse srv jsonString bundleName [] 0) fun _ => True :=
    keeps_importDocument (importClosed_grown s) parse jsonString bundleName [] 0
  have hgrown : Grown s w.store := (ensures_of_keeps hkeeps).of_run (grown_refl hs) hrun
  have hstored : StoredGraph s b (declared (.object members)) tbl
      (recordsOf (.object members)) w.store := by
    refine ⟨hgraph, hgrown.reachable.valid, hd, hb, ?_, recordsOf_sections, ?_⟩
    · rw [declared_names]
      exact recordsOf_ends hdoc.relations
    · intro d hmem
      exact hdoc.columns d.2 (declared_names _ ▸ List.mem_map_of_mem hmem)
  have hexport := hstored.exportable hs.valid.next_object hs.valid.next_relation
    hgrown.objectRows hgrown.relationRows
  obtain ⟨text, w', hrun', -, objects, out, rfl, hobjects, hrelations⟩ :=
    triple_returns (succeeds_exportBundleJson hsrv hexport dump) (s := w) rfl
  refine ⟨b, w, out, w', ?_, hrun', sameGraph_of_exported hdoc hstored hobjects hrelations⟩
  rw [importDocumentJson, hrun]
  rfl

theorem usage_roundTrip : RoundTripDocument (.object usageMembers) where
  objects := by decide
  relations := by
    have hval : (validateJson usageParse (fun _ _ => false) usageText "").1 = .ret .ok := by
      decide
    exact relatesDeclared_of_checked usage_wellFormed (by decide) (by decide)
      (validateJson_checks (if_pos rfl) (by decide) hval)
  noInBundle := by decide
  distinct := by decide
  columns := by
    have hnames : declaredNames (.object usageMembers) = ["e", "a"] := by decide
    rw [hnames]
    simp only [List.mem_cons, List.not_mem_nil, or_false, forall_eq_or_imp, forall_eq]
    exact ⟨fitsColumns_of_noColon (by decide) (by decide) (by decide) (by decide) (by decide),
      fitsColumns_of_noColon (by decide) (by decide) (by decide) (by decide) (by decide)⟩

def usageOutput (_ : Json) : String :=
  "\x7b\"activity\":\x7b\"a\":null\x7d,\"entity\":\x7b\"e\":null\x7d," ++
  "\"used\":\x7b\"1\":\x7b\"prov:activity\":\"a\",\"prov:entity\":\"e\"\x7d\x7d\x7d"

theorem export_of_import_same_graph_usage : ∃ b w out w',
    importDocumentJson usageParse .ideal usageText "b" [] 0 (some 0) ⟨Store.fresh, 0⟩ =
        ((.ret .ok, some b), w) ∧
      exportBundleJson usageOutput .ideal [b] w = (.ok (usageOutput out), w') ∧
      SameGraph (.object usageMembers) out :=
  export_of_import_same_graph usageOutput Server.ideal_reliable (if_pos rfl) (by decide)
    usage_roundTrip Store.Reachable.fresh Store.noDangling_fresh 0 "b" 0

end RoundTrip
