import ProvCpl.PropertyFilters
import ProvCpl.StoreKnowledge

/-! # Reports that stay

Rows are only added and the first row of a key stays the only one. So what some server reports
is still reported after any calls of any clients, by every server that answers. -/
namespace StableReports

open CplTypes QualifiedName ProvStore ProvServer ServerSpecs EarlyExit PreparedQueries
open PropertyFilters StoreHistory ApiEffects StoreKnowledge SqlSelect
open PropertyWrites (Owner)

/-- Whatever the one server reports, the other reports. A relation or object that is looked up
is still found, though perhaps another one is found first. -/
structure StillReports (reader : Server) (w : World) (later : Server) (w' : World) : Prop where
  objectInfo : ∀ id i, (reader.getObjectInfo id w).1 = (.ok, some i) →
    (later.getObjectInfo id w').1 = (.ok, some i)
  objectProperty : ∀ id p k type es,
    (reader.getObjectProperties id (some p) (some k) type w).1 = (.ok, es) →
      (later.getObjectProperties id (some p) (some k) type w').1 = (.ok, es)
  relationProperty : ∀ id p k type es,
    (reader.getRelationProperties id (some p) (some k) type w).1 = (.ok, es) →
      (later.getRelationProperties id (some p) (some k) type w').1 = (.ok, es)
  objectProperties : ∀ id p k type, ∀ e ∈ (reader.getObjectProperties id p k type w).1.2,
    e ∈ (later.getObjectProperties id p k type w').1.2
  relationProperties : ∀ id p k type, ∀ e ∈ (reader.getRelationProperties id p k type w).1.2,
    e ∈ (later.getRelationProperties id p k type w').1.2
  objectRelations : ∀ id direction, ∀ e ∈ (reader.getObjectRelations id direction w).1.2,
    e ∈ (later.getObjectRelations id direction w').1.2
  bundleObjects : ∀ id, ∀ e ∈ (reader.getBundleObjects id w).1.2,
    e ∈ (later.getBundleObjects id w').1.2
  bundleRelations : ∀ id, ∀ e ∈ (reader.getBundleRelations id w).1.2,
    e ∈ (later.getBundleRelations id w').1.2
  allObjects : ∀ p flags type, ∀ e ∈ (reader.getAllObjects p flags type w).1.2,
    e ∈ (later.getAllObjects p flags type w').1.2
  prefixes : ∀ id, ∀ e ∈ (reader.listPrefixes id w).1.2, e ∈ (later.listPrefixes id w').1.2
  objectsNamed : ∀ p n type flags, ∀ e ∈ (reader.lookupObjectExt p n type flags w).1.2,
    e ∈ (later.lookupObjectExt p n type flags w').1.2
  objectsByProperty : ∀ p k v type, ∀ e ∈ (reader.lookupObjectByProperty p k v type w).1.2,
    e ∈ (later.lookupObjectByProperty p k v type w').1.2
  objectFound : ∀ p n type, (reader.lookupObject p n type w).1.1 = .ok →
    (later.lookupObject p n type w').1.1 = .ok
  relationFound : ∀ f o type, (reader.lookupRelation f o type w).1.1 = .ok →
    (later.lookupRelation f o type w').1.1 = .ok
  ancestor : ∀ o q, (reader.cplOdbcHasImmediateAncestor o q w).1 = (.ok, some 1) →
    (later.cplOdbcHasImmediateAncestor o q w').1 = (.ok, some 1)

/-- The server is attached and the client learns the answer. -/
structure Answering (srv : Server) (w : World) : Prop where
  attached : srv.attached = true
  answered : (srv.outcome w.calls).failure = none

section Queries

variable {α β ρ : Type} {reader later : Server} {w w' : World}

theorem query_cases (read : ℕ → Store → ReturnCode × α) (nothing : α) :
    (reader.query read nothing w).1 = read w.calls w.store ∨
      ∃ f : Failure, (reader.query read nothing w).1 = (f.code, nothing) := by
  unfold Server.query
  cases (reader.outcome w.calls).failure with
  | none => exact Or.inl rfl
  | some f => exact Or.inr ⟨f, rfl⟩

theorem query_answering (h : Answering later w') (read : ℕ → Store → ReturnCode × α)
    (nothing : α) : (later.query read nothing w').1 = read w'.calls w'.store := by
  rw [Server.query, h.answered]

theorem ensureInitialized_answering (h : Answering later w') (nothing : ReturnCode → α)
    (c : Call World α) : later.ensureInitialized nothing c w' = c w' := by
  rw [Server.ensureInitialized, if_pos h.attached]

theorem list_answering (h : Answering later w') {id : ℕ} (h0 : id ≠ 0)
    (c : Call World (ReturnCode × List α)) : later.list id c w' = c w' := by
  have hid : ¬ id = cplNone := h0
  rw [Server.list, ensureInitialized_answering h, if_neg hid]

theorem list_reported {id : ℕ} {c : Call World (ReturnCode × List α)} {out : ReturnCode × List α}
    (hout : out.1 = .ok ∨ ∃ e, e ∈ out.2) (h : (reader.list id c w).1 = out) :
    id ≠ 0 ∧ (c w).1 = out := by
  subst h
  unfold Server.list Server.ensureInitialized at hout ⊢
  split at hout
  · next ha =>
    rw [if_pos ha]
    dsimp only at hout ⊢
    split at hout
    · rcases hout with h | ⟨e, he⟩
      · cases h
      · cases he
    · next hid => exact ⟨hid, by rw [if_neg hid]⟩
  · rcases hout with h | ⟨e, he⟩
    · cases h
    · cases he

theorem ensured_stays (h : Answering later w') {c c' : Call World (ReturnCode × List α)}
    (hc : ∀ e ∈ (c w).1.2, e ∈ (c' w').1.2) {e : α}
    (he : e ∈ (reader.ensureInitialized (fun r => (r, [])) c w).1.2) :
    e ∈ (later.ensureInitialized (fun r => (r, [])) c' w').1.2 := by
  rw [ensureInitialized_answering h]
  unfold Server.ensureInitialized at he
  split at he
  · exact hc e he
  · cases he

theorem list_stays (h : Answering later w') {c c' : Call World (ReturnCode × List α)}
    (hc : ∀ e ∈ (c w).1.2, e ∈ (c' w').1.2) {id : ℕ} {e : α}
    (he : e ∈ (reader.list id c w).1.2) : e ∈ (later.list id c' w').1.2 := by
  refine ensured_stays h (fun e he => ?_) he
  split at he
  · cases he
  · next hid =>
    rw [if_neg hid]
    exact hc e he

theorem mem_listing {f : ρ → Option β} {rows rows' : List ρ} (hsub : ∀ r ∈ rows, r ∈ rows')
    (hread : ∀ r ∈ rows', (f r).isSome) {e : β} (he : e ∈ (listing (readAll f rows)).2) :
    e ∈ (listing (readAll f rows')).2 := by
  rw [readAll_eq_filterMap fun r hr => hread r (hsub r hr), listing_rows] at he
  rw [readAll_eq_filterMap hread, listing_rows]
  obtain ⟨r, hr, hre⟩ := List.mem_filterMap.mp he
  exact List.mem_filterMap.mpr ⟨r, hsub r hr, hre⟩

theorem rows_stay {f : ρ → Option β} (rows : Store → List ρ) (h : Answering later w')
    (hsub : ∀ r ∈ rows w.store, r ∈ rows w'.store) (hread : ∀ r ∈ rows w'.store, (f r).isSome)
    {e : β} (he : e ∈ (reader.query
      (fun n s => listing (readAll f (reader.scan n (rows s)))) [] w).1.2) :
    e ∈ (later.query (fun n s => listing (readAll f (later.scan n (rows s)))) [] w').1.2 := by
  rw [query_answering h]
  rcases query_cases (fun n s => listing (readAll f (reader.scan n (rows s)))) [] with hq | ⟨x, hq⟩
  · rw [hq] at he
    refine mem_listing (fun r hr => ?_) (fun r hr => ?_) he
    · exact (later.scan_perm _ _).mem_iff.mpr (hsub r ((reader.scan_perm _ _).mem_iff.mp hr))
    · exact hread r ((later.scan_perm _ _).mem_iff.mp hr)
  · rw [hq] at he
    cases he

theorem entries_stay {f : ρ → β} (rows : Store → List ρ) (h : Answering later w')
    (hsub : ∀ r ∈ rows w.store, r ∈ rows w'.store) {e : β} (he : e ∈ (reader.query
      (fun n s => listing (some ((reader.scan n (rows s)).map f))) [] w).1.2) :
    e ∈ (later.query (fun n s => listing (some ((later.scan n (rows s)).map f))) [] w').1.2 := by
  rw [query_answering h]
  rcases query_cases (fun n s => listing (some ((reader.scan n (rows s)).map f))) []
    with hq | ⟨x, hq⟩
  · rw [hq, listing_rows, ((reader.scan_perm _ _).map f).mem_iff] at he
    rw [listing_rows, ((later.scan_perm _ _).map f).mem_iff]
    exact List.map_subset f hsub he
  · rw [hq] at he
    cases he

theorem selected_stay {query : Select × List Value} {read : List Value → Option β}
    {report : List (List Value) → ReturnCode × List β}
    (hreport : ∀ rows, (report rows).2 = rows.filterMap read) (hlimit : query.1.limit = none)
    (h : Answering later w') {rows rows' : List Row}
    (hm : query.1.matching (database w.store) query.2 = some rows)
    (hm' : query.1.matching (database w'.store) query.2 = some rows')
    (hsub : ∀ r ∈ rows, r ∈ rows') {e : β} (he : e ∈ (reader.select query report [] w).1.2) :
    e ∈ (later.select query report [] w').1.2 := by
  rw [(select_answers query h.answered hm').2, hreport, Select.cut, hlimit,
    (((later.scan_perm _ _).map _).filterMap _).mem_iff]
  cases hf : (reader.outcome w.calls).failure with
  | none =>
    rw [(select_answers query hf hm).2, hreport, Select.cut, hlimit,
      (((reader.scan_perm _ _).map _).filterMap _).mem_iff] at he
    obtain ⟨v, hv, hread⟩ := List.mem_filterMap.mp he
    exact List.mem_filterMap.mpr ⟨v, List.map_subset _ hsub hv, hread⟩
  | some x =>
    simp only [Server.select, Server.query, hf] at he
    cases he

end Queries

section Rows

variable {s t : Store} {id : ℕ}

theorem mem_filter_grows {ρ : Type} {rows rows' : List ρ} (h : rows <+: rows') (P : ρ → Prop)
    [DecidablePred P] : ∀ r ∈ rows.filter (fun r => P r), r ∈ rows'.filter (fun r => P r) :=
  fun _ hr => (h.sublist.filter _).subset hr

theorem propertiesOf_grows {rows rows' : List PropertyRow} (h : rows <+: rows')
    (p k : Option String) (type : ℤ) :
    ∀ r ∈ propertiesOf rows id p k type, r ∈ propertiesOf rows' id p k type := by
  unfold propertiesOf
  split <;> exact mem_filter_grows h _

theorem bundleRelations_grows (h : Grows s t) :
    ∀ r ∈ s.bundleRelations id, r ∈ t.bundleRelations id := by
  intro r hr
  obtain ⟨m, hm, hr⟩ := List.mem_flatMap.mp hr
  exact List.mem_flatMap.mpr
    ⟨m, mem_filter_grows h.relations _ m hm, mem_filter_grows h.relations _ r hr⟩

theorem bundleObjects_grows (h : Grows s t) :
    ∀ c ∈ s.bundleObjects id, c ∈ t.bundleObjects id := by
  intro c hc
  obtain ⟨r, hr, hc⟩ := List.mem_flatMap.mp (List.mem_dedup.mp hc)
  exact List.mem_dedup.mpr (List.mem_flatMap.mpr
    ⟨r, bundleRelations_grows h r hr, mem_filter_grows h.objects _ c hc⟩)

theorem info_isSome (h : t.Reachable) {c : ObjectRow} (hc : c ∈ t.objects) (h0 : c.id ≠ 0) :
    (ObjectRow.info c).isSome := by
  obtain ⟨p, n, type, -, hp, hn, ht⟩ := h.columns.objects c hc h0
  simp [ObjectRow.info, hp, hn, ht]

theorem relation_columns (h : t.Reachable) {r : RelationRow} (hr : r ∈ t.relations)
    (hend : r.fromId.isSome ∨ r.toId.isSome) : ∃ f o type, f ≠ 0 ∧ o ≠ 0 ∧
      r.fromId = some f ∧ r.toId = some o ∧ r.type = some type := by
  have hid : r.id ≠ 0 := by
    intro h0
    obtain ⟨hf, ho⟩ := h.columns.reserved r hr h0
    simp [hf, ho] at hend
  obtain ⟨f, o, type, hf0, ho0, -, hf, ho, ht⟩ := h.columns.relations r hr hid
  exact ⟨f, o, type, hf0, ho0, hf, ho, ht⟩

theorem bundleRelation_isSome (h : t.Reachable) {r : RelationRow}
    (hr : r ∈ t.bundleRelations id) : (RelationRow.entry r).isSome := by
  obtain ⟨m, hm, hr⟩ := List.mem_flatMap.mp hr
  obtain ⟨hmem, hfrom, -⟩ := by simpa [Store.memberships] using hm
  obtain ⟨hrel, hto⟩ := by simpa using hr
  obtain ⟨-, o, -, -, ho0, -, ho, -⟩ := relation_columns h hmem (Or.inl (by simp [hfrom]))
  have hid : r.id ≠ 0 := by
    intro h0
    rw [ho, h0] at hto
    exact ho0 (Option.some.inj hto)
  obtain ⟨f, q, type, -, -, -, hf, hq, ht⟩ := h.columns.relations r hrel hid
  simp [RelationRow.entry, hf, hq, ht]

theorem bundleObject_isSome (h : t.Reachable) {c : ObjectRow} (hc : c ∈ t.bundleObjects id) :
    (ObjectRow.info c).isSome := by
  obtain ⟨r, hr, hc⟩ := List.mem_flatMap.mp (List.mem_dedup.mp hc)
  obtain ⟨m, -, hr⟩ := List.mem_flatMap.mp hr
  obtain ⟨hrel, -⟩ := by simpa using hr
  obtain ⟨hobj, hend⟩ := by simpa using hc
  refine info_isSome h hobj fun h0 => ?_
  obtain ⟨hf, ho⟩ := h.columns.ends hrel
  rw [h0] at hend
  exact hend.elim hf ho

theorem eq_of_sameKey (h : t.Reachable) (o : Owner) {q r : PropertyRow} (hq : q ∈ o.rows t)
    (hr : r ∈ o.rows t) (hs : SameKey q r) : q = r := by
  obtain ⟨h1, h2, h3, h4⟩ := hs
  obtain ⟨i, p, k, v, y⟩ := q
  obtain ⟨i', p', k', v', y'⟩ := r
  dsimp only at h1 h2 h3 h4
  subst h1 h2 h3 h4
  have hkeyed := keyed_of_reachable h
  cases o with
  | object =>
    have hv := List.inj_on_of_nodup_map hkeyed (mem_contents_objectProperty hq)
      (mem_contents_objectProperty hr) rfl
    simpa [objectPropertyFact] using hv
  | relation =>
    have hv := List.inj_on_of_nodup_map hkeyed (mem_contents_relationProperty hq)
      (mem_contents_relationProperty hr) rfl
    simpa [relationPropertyFact] using hv

theorem rows_nodup (h : t.Reachable) (o : Owner) : (o.rows t).Nodup := by
  have hn : (contents t).Nodup := (keyed_of_reachable h).of_map _
  simp only [contents, List.nodup_append] at hn
  cases o with
  | object => exact hn.1.1.2.1.of_map _
  | relation => exact hn.1.2.1.of_map _

theorem propertiesOf_key (h : t.Reachable) (o : Owner) {r : PropertyRow} (hr : r ∈ o.rows t) :
    propertiesOf (o.rows t) r.id (some r.nsPrefix) (some r.name) r.type = [r] := by
  refine List.perm_singleton.mp ((List.perm_ext_iff_of_nodup ?_ (List.nodup_singleton r)).mpr ?_)
  · exact (rows_nodup h o).filter _
  · intro q
    simp only [propertiesOf, List.mem_filter, decide_eq_true_eq, List.mem_singleton]
    constructor
    · rintro ⟨hq, hkey⟩
      exact eq_of_sameKey h o hq hr hkey
    · rintro rfl
      exact ⟨hr, rfl, rfl, rfl, rfl⟩

end Rows

theorem getProperties_eq (srv : Server) (o : Owner) (id : ℕ) (p k : Option String) (type : ℤ) :
    getProperties srv o id p k type = srv.list id (srv.query (fun n s => listing (some
      ((srv.scan n (propertiesOf (o.rows s) id p k type)).map propertyEntry))) []) := by
  cases o <;> rfl

theorem rows_grow {s t : Store} (hg : Grows s t) (o : Owner) : o.rows s <+: o.rows t := by
  cases o with
  | object => exact hg.objectProperties
  | relation => exact hg.relationProperties

theorem relationFound_iff {srv : Server} {w : World} (h : Answering srv w) {f o : ℕ} {type : ℤ} :
    (srv.lookupRelation f o type w).1.1 = .ok ↔ (f ≠ 0 ∧ o ≠ 0 ∧ EnsureRType type) ∧
      ∃ r ∈ w.store.relations, r.fromId = some f ∧ r.toId = some o ∧ r.type = some type := by
  rw [Server.lookupRelation, ensureInitialized_answering h]
  by_cases hargs : f ≠ 0 ∧ o ≠ 0 ∧ EnsureRType type
  · have hchecks : ¬ (f = cplNone ∨ o = cplNone ∨ ¬ EnsureRType type) := by
      simpa [cplNone] using hargs
    rw [if_neg hchecks, Server.cplOdbcLookupRelation,
      (select_answers _ h.answered (matching_lookupRelation f o)).2]
    simp only [hargs, ne_eq, not_false_eq_true, and_self, true_and]
    have hscan := srv.scan_perm w.calls ((w.store.relations.filter fun r =>
      r.fromId = some f ∧ r.toId = some o ∧ r.type = some type).map relationCells)
    cases hl : srv.scan w.calls ((w.store.relations.filter fun r =>
      r.fromId = some f ∧ r.toId = some o ∧ r.type = some type).map relationCells) with
    | nil =>
      rw [hl] at hscan
      have hnone : ∀ r ∈ w.store.relations,
          ¬ (r.fromId = some f ∧ r.toId = some o ∧ r.type = some type) := by
        simpa using List.filter_eq_nil_iff.mp (List.map_eq_nil_iff.mp hscan.symm.eq_nil)
      refine iff_of_false (by decide) ?_
      rintro ⟨r, hr, hends⟩
      exact hnone r hr hends
    | cons c rest =>
      rw [hl] at hscan
      obtain ⟨r, hr, rfl⟩ := List.mem_map.mp (hscan.mem_iff.mp List.mem_cons_self)
      obtain ⟨hmem, hends⟩ := by simpa only [List.mem_filter, decide_eq_true_eq] using hr
      exact iff_of_true rfl ⟨r, hmem, hends⟩
  · have hchecks : f = cplNone ∨ o = cplNone ∨ ¬ EnsureRType type := by
      by_contra hc
      exact hargs (by simpa [cplNone] using hc)
    rw [if_pos hchecks]
    simp [hargs]

section Later

variable {reader later : Server} {w w' : World} (h : Answering later w')
  (hg : Grows w.store w'.store)

include h hg

theorem properties_stay (o : Owner) {id : ℕ} {p k : Option String} {type : ℤ} {e : PropertyEntry}
    (he : e ∈ (getProperties reader o id p k type w).1.2) :
    e ∈ (getProperties later o id p k type w').1.2 := by
  rw [getProperties_eq] at he ⊢
  refine list_stays h (fun e he => ?_) he
  exact entries_stay (fun s => propertiesOf (o.rows s) id p k type) h
    (propertiesOf_grows (rows_grow hg o) p k type) he

theorem prefixes_stay {id : ℕ} {e : PrefixEntry} (he : e ∈ (reader.listPrefixes id w).1.2) :
    e ∈ (later.listPrefixes id w').1.2 := by
  refine list_stays h (fun e he => ?_) he
  refine selected_stay (fun _ => listing_rows _) rfl h matching_prefixes matching_prefixes ?_ he
  exact List.map_subset _ (mem_filter_grows hg.prefixes _)

theorem objectsByProperty_stay {p k v : Option String} {type : ℤ} {id : ℕ}
    (he : id ∈ (reader.lookupObjectByProperty p k v type w).1.2) :
    id ∈ (later.lookupObjectByProperty p k v type w').1.2 := by
  refine ensured_stays h (fun id he => ?_) he
  rcases p with _ | p <;> rcases k with _ | k <;> rcases v with _ | v <;> try cases he
  refine selected_stay (fun _ => reportIds_snd _) rfl h (matching_lookupByProperty p k v)
    (matching_lookupByProperty p k v) ?_ he
  exact List.map_subset _ (mem_filter_grows hg.objectProperties _)

section Read

variable (hw' : w'.store.Reachable)

include hw'

theorem bundleObjects_stay {id : ℕ} {e : ObjectInfo}
    (he : e ∈ (reader.getBundleObjects id w).1.2) : e ∈ (later.getBundleObjects id w').1.2 :=
  list_stays h (fun _ he =>
    rows_stay (·.bundleObjects id) h (bundleObjects_grows hg)
      (fun _ hc => bundleObject_isSome hw' hc) he) he

theorem bundleRelations_stay {id : ℕ} {e : RelationEntry}
    (he : e ∈ (reader.getBundleRelations id w).1.2) :
    e ∈ (later.getBundleRelations id w').1.2 :=
  list_stays h (fun _ he =>
    rows_stay (·.bundleRelations id) h (bundleRelations_grows hg)
      (fun _ hr => bundleRelation_isSome hw' hr) he) he

theorem allObjects_stay {p : Option String} {flags type : ℤ} {e : ObjectInfo}
    (he : e ∈ (reader.getAllObjects p flags type w).1.2) :
    e ∈ (later.getAllObjects p flags type w').1.2 := by
  refine ensured_stays h (fun e he => ?_) he
  refine rows_stay (·.objectsWithPrefix p type) h
    (mem_filter_grows hg.objects _) (fun c hc => ?_) he
  obtain ⟨hc, hpos, -⟩ := by simpa [Store.objectsWithPrefix] using hc
  exact info_isSome hw' hc (Nat.pos_iff_ne_zero.mp hpos)

theorem objectRelations_stay {id : ℕ} {direction : ℤ} {e : RelationEntry}
    (he : e ∈ (reader.getObjectRelations id direction w).1.2) :
    e ∈ (later.getObjectRelations id direction w').1.2 := by
  refine list_stays h (fun e he => ?_) he
  dsimp only at he ⊢
  split at he
  · cases he
  · next hd =>
    rw [if_neg hd]
    change e ∈ (reader.cplOdbcGetObjectRelations id direction w).1.2 at he
    change e ∈ (later.cplOdbcGetObjectRelations id direction w').1.2
    have hfrom : ∀ r ∈ w'.store.relationsFrom id,
        (RelationRow.seenFrom id (·.toId) r).isSome := by
      intro r hr
      obtain ⟨hr, hend⟩ := by simpa [Store.relationsFrom] using hr
      obtain ⟨-, o, t, -, -, -, ho, ht⟩ := relation_columns hw' hr (Or.inl (by simp [hend]))
      simp [RelationRow.seenFrom, ho, ht]
    have hto : ∀ r ∈ w'.store.relationsTo id,
        (RelationRow.seenFrom id (·.fromId) r).isSome := by
      intro r hr
      obtain ⟨hr, hend⟩ := by simpa [Store.relationsTo] using hr
      obtain ⟨f, -, t, -, -, hf, -, ht⟩ := relation_columns hw' hr (Or.inr (by simp [hend]))
      simp [RelationRow.seenFrom, hf, ht]
    by_cases ha : direction = cplDAncestors
    · simp only [Server.cplOdbcGetObjectRelations, if_pos ha] at he ⊢
      exact rows_stay (·.relationsFrom id) h (mem_filter_grows hg.relations _)
        hfrom he
    · simp only [Server.cplOdbcGetObjectRelations, if_neg ha] at he ⊢
      exact rows_stay (·.relationsTo id) h (mem_filter_grows hg.relations _)
        hto he

end Read

theorem objectsNamed_stay {p n : Option String} {type flags : ℤ} {e : IdTimestamp}
    (he : e ∈ (reader.lookupObjectExt p n type flags w).1.2) :
    e ∈ (later.lookupObjectExt p n type flags w').1.2 := by
  refine ensured_stays h (fun e he => ?_) he
  rcases p with _ | p <;> rcases n with _ | n <;> try cases he
  have hstamps : ∀ (srv : Server) (w : World),
      (cplLookupObjectExt srv.cplOdbcLookupObjectExt (some p) (some n) type flags w).1.2 =
        (srv.query (fun m s => listing (some ((srv.scan m (s.objectsNamed p n type)).map fun r =>
          (⟨r.id, r.creationTime⟩ : IdTimestamp)))) [] w).1.2 := by
    intro srv w
    have hrows : (srv.cplOdbcLookupObjectExt p n type flags w).1.2 =
        (srv.query (fun m s => listing (some ((srv.scan m (s.objectsNamed p n type)).map fun r =>
          (⟨r.id, r.creationTime⟩ : IdTimestamp)))) [] w).1.2 := by
      simp only [Server.cplOdbcLookupObjectExt, Server.query]
      cases (srv.outcome w.calls).failure with
      | some x => rfl
      | none => cases srv.scan w.calls (w.store.objectsNamed p n type) <;> rfl
    rw [← hrows, cplLookupObjectExt]
    dsimp only
    split <;> rfl
  rw [hstamps] at he ⊢
  exact entries_stay (·.objectsNamed p n type) h (mem_filter_grows hg.objects _) he

theorem objectFound_stays {p n : Option String} {type : ℤ}
    (hok : (reader.lookupObject p n type w).1.1 = .ok) :
    (later.lookupObject p n type w').1.1 = .ok := by
  have hargs : p.isSome ∧ n.isSome := by
    unfold Server.lookupObject Server.ensureInitialized cplLookupObject at hok
    split at hok
    · rcases p with _ | p <;> rcases n with _ | n <;> first | cases hok | exact ⟨rfl, rfl⟩
    · cases hok
  obtain ⟨p, rfl⟩ := Option.isSome_iff_exists.mp hargs.1
  obtain ⟨n, rfl⟩ := Option.isSome_iff_exists.mp hargs.2
  have hsome : (reader.lookupObject (some p) (some n) type w).1.2.isSome :=
    lookupObject_isSome (hok ▸ isOk_ok)
  obtain ⟨id, hid⟩ := Option.isSome_iff_exists.mp hsome
  obtain ⟨r, hr, -⟩ := lookupObject_value hid
  have hr' := (later.scan_perm w'.calls _).mem_iff.mpr (mem_filter_grows hg.objects _ r hr)
  have hfound : ∃ c, latest (later.scan w'.calls (w'.store.objectsNamed p n type)) = some c := by
    refine Option.ne_none_iff_exists'.mp fun hnone => ?_
    rw [latest, List.argmax_eq_none] at hnone
    exact List.ne_nil_of_mem hr' hnone
  obtain ⟨c, hc⟩ := hfound
  rw [Server.lookupObject, ensureInitialized_answering h]
  simp only [cplLookupObject, Server.cplOdbcLookupObject, Server.query, h.answered, hc, isOk_ok,
    if_true]

theorem relationFound_stays {f o : ℕ} {type : ℤ}
    (hok : (reader.lookupRelation f o type w).1.1 = .ok) :
    (later.lookupRelation f o type w').1.1 = .ok := by
  have hr : Answering reader w := by
    refine ⟨?_, ?_⟩
    · by_contra ha
      simp [Server.lookupRelation, Server.ensureInitialized, ha, noId] at hok
    · cases hf : (reader.outcome w.calls).failure with
      | none => rfl
      | some x =>
        unfold Server.lookupRelation Server.ensureInitialized at hok
        split at hok
        · split at hok
          · cases hok
          · simp only [Server.cplOdbcLookupRelation, Server.select, Server.query, hf] at hok
            exact absurd (hok ▸ isOk_ok) x.failed
        · cases hok
  obtain ⟨hargs, r, hmem, hends⟩ := (relationFound_iff hr).mp hok
  exact (relationFound_iff h).mpr ⟨hargs, r, hg.relations.subset hmem, hends⟩

theorem ancestor_stays {o q : ℕ}
    (hone : (reader.cplOdbcHasImmediateAncestor o q w).1 = (.ok, some 1)) :
    (later.cplOdbcHasImmediateAncestor o q w').1 = (.ok, some 1) := by
  unfold Server.cplOdbcHasImmediateAncestor Server.query at hone ⊢
  rw [h.answered]
  cases hf : (reader.outcome w.calls).failure with
  | some x =>
    rw [hf] at hone
    cases (Prod.mk.inj hone).2
  | none =>
    rw [hf] at hone
    dsimp only at hone ⊢
    cases hl : reader.scan w.calls (w.store.relationsBetween q o) with
    | nil =>
      rw [hl] at hone
      cases hone
    | cons r rest =>
      have hr : r ∈ w.store.relationsBetween q o :=
        (reader.scan_perm _ _).mem_iff.mp (hl ▸ List.mem_cons_self)
      have hr' : r ∈ later.scan w'.calls (w'.store.relationsBetween q o) :=
        (later.scan_perm _ _).mem_iff.mpr (mem_filter_grows hg.relations _ _ hr)
      cases hl' : later.scan w'.calls (w'.store.relationsBetween q o) with
      | nil =>
        rw [hl'] at hr'
        cases hr'
      | cons _ _ => rfl

end Later

/-- A get with a key reports the one row of the key. -/
theorem key_reported (srv : Server) (calls : ℕ) {s : Store} (hs : s.Reachable) (o : Owner)
    {r : PropertyRow} (hr : r ∈ o.rows s) : listing (some ((srv.scan calls
      (propertiesOf (o.rows s) r.id (some r.nsPrefix) (some r.name) r.type)).map propertyEntry)) =
        (.ok, [propertyEntry r]) := by
  have hscan := srv.scan_perm calls
    (propertiesOf (o.rows s) r.id (some r.nsPrefix) (some r.name) r.type)
  rw [propertiesOf_key hs o hr] at hscan ⊢
  rw [List.perm_singleton.mp hscan]
  rfl

theorem property_stays {reader later : Server} {w w' : World} (h : Answering later w')
    (hw : w.store.Reachable) (hw' : w'.store.Reachable) (hg : Grows w.store w'.store) (o : Owner)
    {id : ℕ} {p k : String} {type : ℤ} {es : List PropertyEntry}
    (hes : (getProperties reader o id (some p) (some k) type w).1 = (.ok, es)) :
    (getProperties later o id (some p) (some k) type w').1 = (.ok, es) := by
  rw [getProperties_eq] at hes ⊢
  obtain ⟨h0, hq⟩ := list_reported (Or.inl rfl) hes
  rw [list_answering h h0, query_answering h]
  rcases query_cases (fun n s => listing (some ((reader.scan n
    (propertiesOf (o.rows s) id (some p) (some k) type)).map propertyEntry))) [] with hr | ⟨x, hr⟩
  · rw [hr] at hq
    have hne : propertiesOf (o.rows w.store) id (some p) (some k) type ≠ [] := by
      intro hnil
      have hscan := reader.scan_perm w.calls
        (propertiesOf (o.rows w.store) id (some p) (some k) type)
      rw [hnil] at hscan hq
      rw [hscan.eq_nil] at hq
      cases hq
    obtain ⟨r, hr⟩ := List.exists_mem_of_ne_nil _ hne
    obtain ⟨hmem, rfl, rfl, rfl, rfl⟩ := by simpa [propertiesOf] using hr
    rw [key_reported reader _ hw o hmem] at hq
    rw [← hq, key_reported later _ hw' o ((rows_grow hg o).subset hmem)]
  · rw [hr] at hq
    exact absurd ((Prod.mk.inj hq).1 ▸ isOk_ok) x.failed

theorem objectInfo_stays {reader later : Server} {w w' : World} (h : Answering later w')
    (hw : w.store.Reachable) (hw' : w'.store.Reachable) (hg : Grows w.store w'.store)
    {id : ℕ} {i : ObjectInfo} (hi : (reader.getObjectInfo id w).1 = (.ok, some i)) :
    (later.getObjectInfo id w').1 = (.ok, some i) := by
  have hchecked : id ≠ 0 ∧ (reader.cplOdbcGetObjectInfo id w).1 = (.ok, some i) := by
    unfold Server.getObjectInfo Server.ensureInitialized at hi
    split at hi
    · split at hi
      · cases hi
      · next hid => exact ⟨hid, hi⟩
    · cases hi
  obtain ⟨h0, hi⟩ := hchecked
  have hid : ¬ id = cplNone := h0
  rw [Server.getObjectInfo, ensureInitialized_answering h, if_neg hid]
  have hscan : ∀ (srv : Server) (n : ℕ) (s : Store), s.Reachable → ∀ r ∈ s.objects,
      srv.scan n (s.objects.filter fun c => c.id = r.id) = [r] := by
    intro srv n s hs r hr
    have hp := srv.scan_perm n (s.objects.filter fun c => c.id = r.id)
    rw [filter_key_eq hs.valid.object_ids hr] at hp ⊢
    exact List.perm_singleton.mp hp
  unfold Server.cplOdbcGetObjectInfo Server.query at hi ⊢
  rw [h.answered]
  cases hf : (reader.outcome w.calls).failure with
  | some x =>
    rw [hf] at hi
    exact absurd ((Prod.mk.inj hi).1 ▸ isOk_ok) x.failed
  | none =>
    rw [hf] at hi
    dsimp only at hi ⊢
    cases hl : reader.scan w.calls (w.store.objects.filter fun c => c.id = id) with
    | nil =>
      rw [hl] at hi
      cases hi
    | cons r rest =>
      have hr := (reader.scan_perm _ _).mem_iff.mp (hl ▸ List.mem_cons_self)
      obtain ⟨hmem, rfl⟩ := by simpa using hr
      rw [hscan reader _ _ hw r hmem] at hi
      rw [hscan later _ _ hw' r (hg.objects.subset hmem)]
      exact hi

/-- After any calls of any clients, every server that answers still reports what some server
reported before. -/
theorem runCalls_stillReports (reader later : Server) {w : World} (hw : w.store.Reachable)
    (calls : List (Client × ℕ × ApiCall)) (n : ℕ)
    (h : Answering later ⟨runCalls w.store calls, n⟩) :
    StillReports reader w later ⟨runCalls w.store calls, n⟩ := by
  have hleads := runCalls_leads w.store calls
  have hg : Grows w.store (runCalls w.store calls) := hleads.grows
  have hw' : (runCalls w.store calls).Reachable := hleads.reachable hw
  exact {
    objectInfo := fun _ _ => objectInfo_stays h hw hw' hg
    objectProperty := fun _ _ _ _ _ => property_stays h hw hw' hg .object
    relationProperty := fun _ _ _ _ _ => property_stays h hw hw' hg .relation
    objectProperties := fun _ _ _ _ _ => properties_stay h hg .object
    relationProperties := fun _ _ _ _ _ => properties_stay h hg .relation
    objectRelations := fun _ _ _ => objectRelations_stay h hg hw'
    bundleObjects := fun _ _ => bundleObjects_stay h hg hw'
    bundleRelations := fun _ _ => bundleRelations_stay h hg hw'
    allObjects := fun _ _ _ _ => allObjects_stay h hg hw'
    prefixes := fun _ _ => prefixes_stay h hg
    objectsNamed := fun _ _ _ _ _ => objectsNamed_stay h hg
    objectsByProperty := fun _ _ _ _ _ => objectsByProperty_stay h hg
    objectFound := fun _ _ _ => objectFound_stays h hg
    relationFound := fun _ _ _ => relationFound_stays h hg
    ancestor := fun _ _ => ancestor_stays h hg }

def secondValue : List (Client × ℕ × ApiCall) := [
  (⟨fun _ => none, fun _ => "", .ideal, ⟨0, false⟩⟩, 4,
    .add (.addObjectStringProperty 1 (some "ex") (some "k") (some "second")))]

def firstValueStore : Store :=
  { Store.oneEntity "e" 0 with
    objectProperties := [⟨1, "ex", "k", "first", stringProperty⟩] }

theorem runCalls_stillReports_secondValue : StillReports .ideal ⟨firstValueStore, 2⟩ .ideal
    ⟨runCalls firstValueStore secondValue, 6⟩ :=
  runCalls_stillReports .ideal .ideal (w := ⟨firstValueStore, 2⟩)
    (.addObjectProperty ⟨1, "ex", "k", "first", stringProperty⟩ (by decide)
      (Store.oneEntity_reachable "e" 0) rfl)
    secondValue 6 ⟨rfl, rfl⟩

end StableReports
