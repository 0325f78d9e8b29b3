import ProvCpl.Reimport

/-! # The entries of an exported document

What an export that returns has written, entry by entry: for an object the properties of an
object of its type and name, for a relation its properties with the names of its two ends. The
order in which the server lists rows decides which of two members of one name is kept. -/
namespace ExportEntries

open CplTypes QualifiedName JsonValue ProvStore ProvServer ServerSpecs ImportDocument
open ImportFrame ImportAccepts ImportGraph ExportDocument ExportShape RoundTrip BundleMembers
open Reimport EarlyExit

/-- The member that is written for a stored property, none for a row of no known type. -/
def rowMember (r : PropertyRow) : Option (String × Json) :=
  if r.type = stringProperty then some (propertyMember .string (propertyEntry r))
  else if r.type = numericalProperty then numericalMember (propertyEntry r)
  else if r.type = booleanProperty then
    some (propertyMember (fun v => .boolean (v = "1")) (propertyEntry r))
  else none

/-- The value has the members of the rows of one owner, assigned in some order. -/
def PropertiesOf (rows : List PropertyRow) (id : ℕ) (j : Json) : Prop :=
  ∃ members, j = assignAll .null members ∧
    ∀ e, e ∈ members ↔ ∃ r ∈ rows, r.id = id ∧ rowMember r = some e

theorem mem_of_find_assignAll {k : String} {v : Json} :
    ∀ {members : List (String × Json)} {j : Json}, (assignAll j members).find k = some v →
      (k, v) ∈ members ∨ j.find k = some v
  | [], j, h => Or.inr h
  | (i, u) :: members, j, h => by
    have hmem : (k, v) ∈ members ∨ (j.assign i u).find k = some v := mem_of_find_assignAll h
    rcases hmem with h | h
    · exact Or.inl (List.mem_cons_of_mem _ h)
    · rw [find_assign] at h
      split at h
      · next hk =>
        rw [hk, ← Option.some.inj h]
        exact Or.inl List.mem_cons_self
      · exact Or.inr h

theorem find_assignAll_isSome {k : String} :
    ∀ {members : List (String × Json)} {j : Json}, (∃ v, (k, v) ∈ members) ∨ (j.find k).isSome →
      ((assignAll j members).find k).isSome
  | [], j, h => by
    rcases h with ⟨v, hv⟩ | h
    · cases hv
    · exact h
  | (i, u) :: members, j, h => by
    have hmem : (∃ v, (k, v) ∈ members) ∨ ((j.assign i u).find k).isSome := by
      rw [find_assign]
      by_cases hk : k = i
      · exact Or.inr (by simp [hk])
      · rcases h with ⟨v, hv⟩ | h
        · rcases List.mem_cons.mp hv with he | hv
          · exact absurd (congrArg Prod.fst he) hk
          · exact Or.inl ⟨v, hv⟩
        · exact Or.inr (by rwa [if_neg hk])
    change ((assignAll (j.assign i u) members).find k).isSome
    exact find_assignAll_isSome hmem

/-- A member that is written shows up, with the value of a row of its name. -/
theorem PropertiesOf.find {rows : List PropertyRow} {id : ℕ} {j : Json}
    (h : PropertiesOf rows id j) {r : PropertyRow} (hr : r ∈ rows) (hid : r.id = id)
    {k : String} {v : Json} (hm : rowMember r = some (k, v)) :
    ∃ u, j.find k = some u ∧ ∃ q ∈ rows, q.id = id ∧ rowMember q = some (k, u) := by
  obtain ⟨members, rfl, hmembers⟩ := h
  have hin : ∃ v, (k, v) ∈ members := ⟨v, (hmembers _).mpr ⟨r, hr, hid, hm⟩⟩
  obtain ⟨u, hu⟩ := Option.isSome_iff_exists.mp (find_assignAll_isSome (j := .null) (Or.inl hin))
  refine ⟨u, hu, ?_⟩
  rcases mem_of_find_assignAll hu with hmem | hnull
  · exact (hmembers _).mp hmem
  · cases hnull

theorem PropertiesOf.origin {rows : List PropertyRow} {id : ℕ} {j : Json}
    (h : PropertiesOf rows id j) {k : String} {v : Json} (hv : j.find k = some v) :
    ∃ r ∈ rows, r.id = id ∧ rowMember r = some (k, v) := by
  obtain ⟨members, rfl, hmembers⟩ := h
  rcases mem_of_find_assignAll hv with hmem | hnull
  · exact (hmembers _).mp hmem
  · cases hnull

theorem readAll_some {α β : Type} {f : α → Option β} :
    ∀ {l : List α} {es : List β}, readAll f l = some es →
      es = l.filterMap f ∧ ∀ r ∈ l, (f r).isSome
  | [], es, h => by
    cases h
    exact ⟨rfl, by simp⟩
  | r :: l, es, h => by
    unfold readAll at h
    split at h
    · next e rest he hrest =>
      cases h
      obtain ⟨hes, hall⟩ := readAll_some hrest
      refine ⟨by rw [List.filterMap_cons, he, hes], fun q hq => ?_⟩
      rcases List.mem_cons.mp hq with rfl | hq
      · rw [he]
        rfl
      · exact hall q hq
    · cases h

section Reading

variable {srv : Server} {t : Store} (hsrv : Reliable srv)

include hsrv

theorem keeps_query {α : Type} {id : ℕ} {read : ℕ → Store → ReturnCode × List α}
    {R : List α → Prop} (h : ∀ n, id ≠ 0 → (read n t).1.IsOk → R (read n t).2) :
    Keeps (· = t) (requireList (srv.list id (srv.query read []))) R := by
  rintro w rfl
  by_cases h0 : id = 0
  · subst h0
    simp [requireList, bind_run, call, Server.list, Server.ensureInitialized, hsrv.attached,
      cplNone, leave]
  · rw [requireList, bind_run, call, list_reliable hsrv h0]
    by_cases hok : (read w.calls w.store).1.IsOk
    · simp only [if_pos hok, pure_run]
      exact ⟨trivial, h w.calls h0 hok⟩
    · simp only [if_neg hok, leave]

theorem keeps_listing {α β : Type} {id : ℕ} {f : α → Option β} (rows : Store → List α) :
    Keeps (· = t) (requireList (srv.list id (srv.query
      (fun n s => listing (readAll f (srv.scan n (rows s)))) []))) fun es =>
        es.Perm ((rows t).filterMap f) ∧ id ≠ 0 := by
  apply keeps_query hsrv
  intro n h0 hok
  refine ⟨?_, h0⟩
  cases hread : readAll f (srv.scan n (rows t)) with
  | none =>
    rw [hread] at hok
    exact absurd hok not_isOk_statementError
  | some es =>
    rw [(listing_some es).2, (readAll_some hread).1]
    exact (srv.scan_perm n (rows t)).filterMap f

def ListsRows (t : Store) (rows : List PropertyRow) (read : PropertyReader) (id : ℕ) : Prop :=
  ∀ type, Keeps (· = t) (requireList (read id type)) fun es =>
    ∀ e, e ∈ es ↔ ∃ r ∈ rows, r.id = id ∧ r.type = type ∧ propertyEntry r = e

theorem listsRows (rows : Store → List PropertyRow) (id : ℕ) :
    ListsRows t (rows t) (fun id type => srv.list id (srv.query (fun n s => listing (some
      ((srv.scan n (propertiesOf (rows s) id none none type)).map propertyEntry))) [])) id := by
  intro type
  apply keeps_query hsrv
  intro n _ _ e
  rw [(listing_some _).2, List.mem_map]
  simp only [(srv.scan_perm n _).mem_iff, propertiesOf, List.mem_filter, decide_eq_true_eq,
    and_assoc]

theorem listsRows_object (id : ℕ) :
    ListsRows t t.objectProperties (objectReader srv) id :=
  listsRows hsrv Store.objectProperties id

theorem listsRows_relation (id : ℕ) :
    ListsRows t t.relationProperties (relationReader srv) id :=
  listsRows hsrv Store.relationProperties id

end Reading

theorem keeps_exportProperties_rows {t : Store} {rows : List PropertyRow} {read : PropertyReader}
    {id : ℕ} (hread : ListsRows t rows read id) :
    Keeps (· = t) (exportProperties read id) (PropertiesOf rows id) := by
  refine maintains_bind (hread stringProperty) fun strings hstrings => ?_
  refine maintains_bind (hread numericalProperty) fun numerics hnumerics => ?_
  refine maintains_bind (keeps_orThrow_value (I := (· = t)) _) fun numbers hnumbers => ?_
  refine maintains_bind (hread booleanProperty) fun booleans hbooleans => ?_
  refine maintains_pure ⟨_, rfl, fun e => ?_⟩
  rw [(readAll_some hnumbers).1]
  simp only [List.mem_append, List.mem_map, List.mem_filterMap, hstrings, hnumerics, hbooleans]
  have htypes : numericalProperty ≠ stringProperty ∧ booleanProperty ≠ stringProperty ∧
      booleanProperty ≠ numericalProperty := by decide
  constructor
  · rintro ((⟨_, ⟨r, hr, hid, ht, rfl⟩, rfl⟩ | ⟨_, ⟨r, hr, hid, ht, rfl⟩, he⟩) |
      ⟨_, ⟨r, hr, hid, ht, rfl⟩, rfl⟩)
    · exact ⟨r, hr, hid, by rw [rowMember, if_pos ht]⟩
    · refine ⟨r, hr, hid, ?_⟩
      rw [rowMember, ht, if_neg htypes.1, if_pos rfl, he]
    · refine ⟨r, hr, hid, ?_⟩
      rw [rowMember, ht, if_neg htypes.2.1, if_neg htypes.2.2, if_pos rfl]
  · rintro ⟨r, hr, hid, he⟩
    unfold rowMember at he
    split_ifs at he with hs hn hb
    · exact Or.inl (Or.inl ⟨_, ⟨r, hr, hid, hs, rfl⟩, Option.some.inj he⟩)
    · exact Or.inl (Or.inr ⟨_, ⟨r, hr, hid, hn, rfl⟩, he⟩)
    · exact Or.inr ⟨_, ⟨r, hr, hid, hb, rfl⟩, Option.some.inj he⟩

/-- The name that an object info gives for an id, without the prefix. -/
def infoName (t : Store) (id : ℕ) : String :=
  ((t.objects.find? fun r => r.id = id).map fun r => fetchText 4096 (r.name.getD "")).getD ""

def endName (t : Store) (tbl : NameTable) (id : ℕ) : String :=
  (OrderedMap.find id tbl).getD (infoName t id)

theorem infoName_row {t : Store} (ht : t.Valid) {r : ObjectRow} (hr : r ∈ t.objects) :
    infoName t r.id = fetchText 4096 (r.name.getD "") := by
  rw [infoName, find?_row ht hr]
  rfl

def Described (type : ℤ) (d : ProvRelationData) : Prop :=
  1 ≤ type ∧ rdataArray[(type - 1).toNat]? = some d

def RecordWritten (t : Store) (names : ℕ → String) (e : RelationEntry) (document : Json) : Prop :=
  ∃ d, Described e.type d ∧ ∃ properties, PropertiesOf t.relationProperties e.id properties ∧
    document.entryAt d.typeStr (Nat.repr e.id) =
      some (recordFor d properties (names e.queryObjectId) (names e.otherObjectId))

/-- The entry of an object; another object of its type and name may have been written last. -/
def ObjectWritten (t : Store) (objs : List ObjectInfo) (o : ObjectInfo) (document : Json) :
    Prop :=
  ∀ u ∈ objectSections, o.type = u.1 → ∃ q ∈ objs, q.type = o.type ∧
    objectName q = objectName o ∧ ∃ properties, PropertiesOf t.objectProperties q.id properties ∧
      document.entryAt u.2 (objectName o) = some properties

theorem typeStr_ne : ∀ d ∈ rdataArray, ∀ u ∈ objectSections, u.2 ≠ d.typeStr := by decide

theorem rdataArray_keys_ne : ∀ d ∈ rdataArray, d.sourceStr ≠ d.destStr := by decide

theorem Described.mem {type : ℤ} {d : ProvRelationData} (h : Described type d) :
    d ∈ rdataArray := List.mem_of_getElem? h.2

theorem Described.unique {type : ℤ} {d d' : ProvRelationData} (h : Described type d)
    (h' : Described type d') : d = d' := Option.some.inj (h.2.symm.trans h'.2)

theorem Described.relationData {type : ℤ} {d : ProvRelationData} (h : Described type d) :
    relationData type = pure d := by
  have hpos : ¬ type < 1 := not_lt.mpr h.1
  rw [ExportDocument.relationData, if_neg hpos, h.2]

section Writes

variable {t : Store} {names : ℕ → String} {document : Json}

/-- A record is written over only by that of the same relation. -/
theorem RecordWritten.assignRecord {q e : RelationEntry} (hsame : q.id = e.id → q = e)
    (hq : q = e ∨ RecordWritten t names q document) {d : ProvRelationData}
    (hd : Described e.type d) {properties : Json}
    (hp : PropertiesOf t.relationProperties e.id properties) :
    RecordWritten t names q (document.assignIn d.typeStr (Nat.repr e.id)
      (recordFor d properties (names e.queryObjectId) (names e.otherObjectId))) := by
  by_cases hid : q.id = e.id
  · obtain rfl := hsame hid
    exact ⟨d, hd, properties, hp, by rw [entryAt_assignIn, if_pos ⟨rfl, rfl⟩]⟩
  · rcases hq with rfl | ⟨c, hc, properties', hp', hentry⟩
    · exact absurd rfl hid
    · have hkey : Nat.repr q.id ≠ Nat.repr e.id := fun he => hid (decimal_injective he)
      refine ⟨c, hc, properties', hp', ?_⟩
      rw [entryAt_assignIn, if_neg fun h => hkey h.2, hentry]

theorem ObjectWritten.assignRecord {objs : List ObjectInfo} {o : ObjectInfo}
    (h : ObjectWritten t objs o document) {type : ℤ} {d : ProvRelationData}
    (hd : Described type d) (k : String) (v : Json) :
    ObjectWritten t objs o (document.assignIn d.typeStr k v) := by
  intro u hu htype
  obtain ⟨q, hq, hqt, hqn, properties, hp, hentry⟩ := h u hu htype
  refine ⟨q, hq, hqt, hqn, properties, hp, ?_⟩
  rw [entryAt_assignIn, if_neg fun h => typeStr_ne d hd.mem u hu h.1, hentry]

theorem RecordWritten.assignObject {e : RelationEntry} (h : RecordWritten t names e document)
    (type : ℤ) (name : String) (properties : Json) :
    RecordWritten t names e (assignObject document type name properties) := by
  obtain ⟨d, hd, properties', hp', hentry⟩ := h
  refine ⟨d, hd, properties', hp', ?_⟩
  rcases assignObject_cases document type name properties with ⟨u, hu, -, he⟩ | ⟨-, he⟩
  · rw [he, entryAt_assignIn, if_neg fun h => typeStr_ne d hd.mem u hu h.1.symm, hentry]
  · rw [he, hentry]

/-- The entry of an object is written over by those of its type and name. -/
theorem ObjectWritten.assignObject {objs : List ObjectInfo} {o q : ObjectInfo} (hmem : q ∈ objs)
    (ho : o = q ∨ ObjectWritten t objs o document) {properties : Json}
    (hp : PropertiesOf t.objectProperties q.id properties) :
    ObjectWritten t objs o (assignObject document q.type (objectName q) properties) := by
  intro u hu htype
  by_cases hsame : q.type = o.type ∧ objectName q = objectName o
  · refine ⟨q, hmem, hsame.1, hsame.2, properties, hp, ?_⟩
    rcases assignObject_cases document q.type (objectName q) properties with
      ⟨c, hc, hct, he⟩ | ⟨hother, -⟩
    · have hcu : u.2 = c.2 :=
        (objectSections_inj u hu c hc).mp (htype.symm.trans (hsame.1.symm.trans hct))
      rw [he, entryAt_assignIn, if_pos ⟨hcu, hsame.2.symm⟩]
    · exact absurd (hsame.1.trans htype) (hother u hu)
  · rcases ho with rfl | ho
    · exact absurd ⟨rfl, rfl⟩ hsame
    · obtain ⟨c, hc, hct, hcn, properties', hp', hentry⟩ := ho u hu htype
      refine ⟨c, hc, hct, hcn, properties', hp', ?_⟩
      rcases assignObject_cases document q.type (objectName q) properties with
        ⟨v, hv, hvt, he⟩ | ⟨-, he⟩
      · have hne : ¬ (u.2 = v.2 ∧ objectName o = objectName q) := by
          rintro ⟨huv, hn⟩
          have huv' := (objectSections_inj u hu v hv).mpr huv
          exact hsame ⟨hvt.trans (huv'.symm.trans htype.symm), hn.symm⟩
        rw [he, entryAt_assignIn, if_neg hne, hentry]
      · rw [he, hentry]

end Writes

def objectInfos (t : Store) (b : ℕ) : List ObjectInfo :=
  (t.bundleObjects b).filterMap ObjectRow.info

def relationEntries (t : Store) (b : ℕ) : List RelationEntry :=
  (t.bundleRelations b).filterMap RelationRow.entry

theorem entry_stored {t : Store} {b : ℕ} {e : RelationEntry} (he : e ∈ relationEntries t b) :
    ∃ r ∈ t.relations, RelationRow.entry r = some e := by
  obtain ⟨r, hr, hre⟩ := List.mem_filterMap.mp he
  exact ⟨r, (mem_bundleRelations.mp hr).1, hre⟩

theorem entries_stored (t : Store) (bundles : List ℕ) :
    ∀ e ∈ bundles.flatMap (relationEntries t),
      ∃ r ∈ t.relations, RelationRow.entry r = some e := by
  intro e he
  obtain ⟨b, -, he⟩ := List.mem_flatMap.mp he
  exact entry_stored he

/-- A relation is told by its id from those written before. -/
theorem entries_unique {t : Store} (ht : t.Reachable) {b : ℕ} {rels done : List RelationEntry}
    (hrels : ∀ e ∈ rels, ∃ r ∈ t.relations, RelationRow.entry r = some e)
    (hdone : ∀ e ∈ done, e ∈ relationEntries t b) {e : RelationEntry}
    (he : e ∈ relationEntries t b) : ∀ q ∈ rels ++ done, q.id = e.id → q = e := by
  intro q hq hid
  obtain ⟨r, hr, hre⟩ := entry_stored he
  obtain ⟨r', hr', hre'⟩ : ∃ r ∈ t.relations, RelationRow.entry r = some q := by
    rcases List.mem_append.mp hq with hq | hq
    · exact hrels q hq
    · exact entry_stored (hdone q hq)
  exact entry_inj ht hr' hr hre' hre hid

structure Entries (t : Store) (names : ℕ → String) (objs : List ObjectInfo)
    (rels : List RelationEntry) (document : Json) : Prop where
  objects : ∀ o ∈ objs, ObjectWritten t objs o document
  relations : ∀ e ∈ rels, RecordWritten t names e document

theorem entries_nil (t : Store) (names : ℕ → String) : Entries t names [] [] .null :=
  ⟨by simp, by simp⟩

section Entries

variable {t : Store} {names : ℕ → String} {objs : List ObjectInfo} {rels : List RelationEntry}
  {document : Json}

theorem ObjectWritten.mono {objs' : List ObjectInfo} {o : ObjectInfo}
    (h : ObjectWritten t objs o document) (hsub : ∀ q ∈ objs, q ∈ objs') :
    ObjectWritten t objs' o document := by
  intro u hu htype
  obtain ⟨q, hq, hrest⟩ := h u hu htype
  exact ⟨q, hsub q hq, hrest⟩

theorem Entries.congr {objs' : List ObjectInfo} {rels' : List RelationEntry}
    (h : Entries t names objs rels document) (ho : ∀ o, o ∈ objs ↔ o ∈ objs')
    (hr : ∀ e, e ∈ rels ↔ e ∈ rels') : Entries t names objs' rels' document where
  objects := fun o hmem => (h.objects o ((ho o).mpr hmem)).mono fun q hq => (ho q).mp hq
  relations := fun e hmem => h.relations e ((hr e).mpr hmem)

theorem Entries.assignObject (h : Entries t names objs rels document) (q : ObjectInfo)
    {properties : Json} (hp : PropertiesOf t.objectProperties q.id properties) :
    Entries t names (objs ++ [q]) rels
      (assignObject document q.type (objectName q) properties) where
  objects := by
    intro o ho
    refine ObjectWritten.assignObject (by simp) ?_ hp
    rcases List.mem_append.mp ho with ho | ho
    · exact Or.inr ((h.objects o ho).mono fun q hq => List.mem_append_left _ hq)
    · exact Or.inl (List.mem_singleton.mp ho)
  relations := fun e he => (h.relations e he).assignObject _ _ _

theorem Entries.assignRecord (h : Entries t names objs rels document) {e : RelationEntry}
    (hsame : ∀ q ∈ rels, q.id = e.id → q = e) {d : ProvRelationData} (hd : Described e.type d)
    {properties : Json} (hp : PropertiesOf t.relationProperties e.id properties) :
    Entries t names objs (rels ++ [e]) (document.assignIn d.typeStr (Nat.repr e.id)
      (recordFor d properties (names e.queryObjectId) (names e.otherObjectId))) where
  objects := fun o ho => (h.objects o ho).assignRecord hd _ _
  relations := by
    intro q hq
    rcases List.mem_append.mp hq with hq | hq
    · exact RecordWritten.assignRecord (hsame q hq) (Or.inr (h.relations q hq)) hd hp
    · have hqe := List.mem_singleton.mp hq
      exact RecordWritten.assignRecord (fun _ => hqe) (Or.inl hqe) hd hp

end Entries

structure Resolved (t : Store) (tbl : NameTable) (e : RelationEntry) : Prop where
  source : (OrderedMap.find e.queryObjectId tbl).isSome ∨
    e.queryObjectId ∈ t.objects.map (·.id)
  dest : (OrderedMap.find e.otherObjectId tbl).isSome ∨ e.otherObjectId ∈ t.objects.map (·.id)
  order : (OrderedMap.find e.otherObjectId tbl).isSome ∨
    OrderedMap.find e.queryObjectId tbl = none

theorem ends_mem_of_resolved {t : Store} (ht : t.Reachable) {ids : List ℕ} {tbl : NameTable}
    {b : ℕ} (hnames : Names (nameOf t) ids tbl) (hids : ∀ o ∈ objectInfos t b, o.id ∈ ids)
    {e : RelationEntry} (he : e ∈ relationEntries t b) (hres : Resolved t tbl e) :
    e.queryObjectId ∈ ids ∧ e.otherObjectId ∈ ids := by
  obtain ⟨r, hr, hre⟩ := List.mem_filterMap.mp he
  obtain ⟨e', he', hfrom, hto, -⟩ := bundleRelations_entry ht hr
  obtain rfl : e = e' := Option.some.inj (hre.symm.trans he')
  have hend : ∀ id, r.fromId = some id ∨ r.toId = some id →
      (OrderedMap.find id tbl).isSome ∨ id ∈ t.objects.map (·.id) → id ∈ ids := by
    intro id hid hfound
    rcases hfound with hfound | hfound
    · by_contra hnot
      rw [hnames id, if_neg hnot] at hfound
      cases hfound
    · obtain ⟨c, hc, rfl⟩ := List.mem_map.mp hfound
      have hcb : c ∈ t.bundleObjects b := mem_bundleObjects.mpr ⟨hc, r, hr, hid⟩
      obtain ⟨o, ho⟩ := Option.isSome_iff_exists.mp (bundleObjects_info ht hcb).2
      rw [← info_id ho]
      exact hids o (List.mem_filterMap.mpr ⟨c, hcb, ho⟩)
  exact ⟨hend _ (Or.inl hfrom) hres.source, hend _ (Or.inr hto) hres.dest⟩

theorem endName_of_names {t : Store} {ids : List ℕ} {tbl : NameTable}
    (hnames : Names (nameOf t) ids tbl) {id : ℕ} (hid : id ∈ ids) :
    nameOf t id = endName t tbl id := by
  rw [endName, hnames id, if_pos hid, Option.getD_some]

section Running

variable {srv : Server} {t : Store} (hsrv : Reliable srv)

include hsrv

theorem keeps_exportEndpoint_name (ht : t.Valid) (tbl : NameTable) (id : ℕ) :
    Keeps (· = t) (exportEndpoint srv tbl id) fun out =>
      out = (endName t tbl id, (OrderedMap.find id tbl).isNone) ∧
        ((OrderedMap.find id tbl).isSome ∨ id ∈ t.objects.map (·.id)) := by
  unfold exportEndpoint
  cases hfind : OrderedMap.find id tbl with
  | some name =>
    apply maintains_pure
    simp [endName, hfind]
  | none =>
    rintro w rfl
    by_cases h0 : id = 0
    · simp [bind_run, call, Server.getObjectInfo, Server.ensureInitialized, hsrv.attached, cplNone,
        h0, leave]
    · have hperm := srv.scan_perm w.calls (w.store.objects.filter fun r => r.id = id)
      simp only [bind_run, call, Server.getObjectInfo, Server.ensureInitialized, hsrv.attached,
        if_true, cplNone, if_neg h0, Server.cplOdbcGetObjectInfo, query_reliable hsrv]
      cases hscan : srv.scan w.calls (w.store.objects.filter fun r => r.id = id) with
      | nil => simp [leave]
      | cons r rows =>
        have hr : r ∈ w.store.objects ∧ r.id = id := by
          have hmem : r ∈ srv.scan w.calls (w.store.objects.filter fun r => r.id = id) := by
            simp [hscan]
          rw [hperm.mem_iff] at hmem
          simpa using hmem
        cases htype : r.type with
        | none => simp [htype, leave]
        | some type =>
          have hname := infoName_row ht hr.1
          rw [hr.2] at hname
          simp only [htype, isOk_ok, if_true, pure_run, endName, hfind, Option.getD_none, hname,
            Option.isNone_none, Option.isSome_none, true_and]
          exact Or.inr (List.mem_map.mpr ⟨r, hr⟩)

theorem keeps_exportRelation_written (ht : t.Valid) (tbl : NameTable) (document : Json)
    (e : RelationEntry) :
    Keeps (· = t) (exportRelation srv tbl document e) fun document' =>
      Resolved t tbl e ∧ ∃ d, Described e.type d ∧ ∃ properties,
        PropertiesOf t.relationProperties e.id properties ∧
        document' = document.assignIn d.typeStr (Nat.repr e.id) (recordFor d properties
          (endName t tbl e.queryObjectId) (endName t tbl e.otherObjectId)) := by
  have hdata : Keeps (· = t) (relationData e.type) (Described e.type) := by
    unfold relationData
    split
    · next d hd =>
      apply maintains_pure
      split at hd
      · cases hd
      · next hpos => exact ⟨by omega, hd⟩
    · exact keeps_leave
  refine maintains_bind (keeps_exportProperties_rows (listsRows_relation hsrv e.id))
    fun properties hp => ?_
  refine maintains_bind (keeps_exportEndpoint_name hsrv ht tbl e.queryObjectId) ?_
  rintro _ ⟨rfl, hsource⟩
  refine maintains_bind hdata fun d hd => ?_
  refine maintains_bind (keeps_exportEndpoint_name hsrv ht tbl e.otherObjectId) ?_
  rintro _ ⟨rfl, hdest⟩
  refine maintains_ite (fun _ => keeps_leave (I := (· = t))) fun horder => ?_
  refine maintains_pure ⟨⟨hsource, hdest, ?_⟩, d, hd, properties, hp, rfl⟩
  cases hother : OrderedMap.find e.otherObjectId tbl with
  | some name => exact Or.inl rfl
  | none =>
    rw [hother] at horder
    right
    simpa using horder

theorem keeps_exportRelationsJson_entries (ht : t.Reachable) {names : ℕ → String}
    {objs : List ObjectInfo} {rels : List RelationEntry} {tbl : NameTable} {document : Json}
    (hdoc : Entries t names objs rels document)
    (hrels : ∀ e ∈ rels, ∃ r ∈ t.relations, RelationRow.entry r = some e) (b : ℕ)
    (hnames : ∀ e ∈ relationEntries t b, Resolved t tbl e →
      names e.queryObjectId = endName t tbl e.queryObjectId ∧
        names e.otherObjectId = endName t tbl e.otherObjectId) :
    Keeps (· = t) (exportRelationsJson srv [b] tbl document) fun document' =>
      Entries t names objs (rels ++ relationEntries t b) document' ∧
        ∀ e ∈ relationEntries t b, Resolved t tbl e := by
  refine maintains_bind (keeps_listing hsrv fun s => s.bundleRelations b) fun es hes => ?_
  refine maintains_weaken (maintains_fold_along (T := fun done document' =>
    Entries t names objs (rels ++ done) document' ∧ ∀ e ∈ done, Resolved t tbl e)
    ⟨hdoc.congr (fun _ => Iff.rfl) (by simp), by simp⟩ fun done e rest document' hxs hdone => ?_)
    fun document' hfinal => ?_
  · have he : e ∈ es := by simp [hxs]
    refine maintains_weaken (keeps_exportRelation_written hsrv ht.valid tbl document' e) ?_
    rintro _ ⟨hres, d, hd, properties, hp, rfl⟩
    have hends := hnames e (hes.1.mem_iff.mp he) hres
    rw [← hends.1, ← hends.2]
    have hdone' : ∀ q ∈ done, q ∈ relationEntries t b := by
      intro q hq
      exact hes.1.mem_iff.mp (by simp [hxs, hq])
    have hsame := entries_unique ht hrels hdone' (hes.1.mem_iff.mp he)
    constructor
    · have hnext := hdone.1.assignRecord hsame hd hp
      rwa [List.append_assoc] at hnext
    · exact List.forall_mem_append.mpr ⟨hdone.2, List.forall_mem_singleton.mpr hres⟩
  · constructor
    · refine hfinal.1.congr (fun _ => Iff.rfl) fun e => ?_
      simp only [List.mem_append, hes.1.mem_iff, relationEntries]
    · intro e he
      exact hfinal.2 e (hes.1.mem_iff.mpr he)

theorem keeps_exportObjectsJson_entries (ht : t.Reachable) {names : ℕ → String}
    {objs : List ObjectInfo} {rels : List RelationEntry} {out : NameTable × Json}
    (hnames : Names (nameOf t) (objs.map (·.id)) out.1) (hdoc : Entries t names objs rels out.2)
    (b : ℕ) :
    Keeps (· = t) (exportObjectsJson srv [b] out) fun out' =>
      Names (nameOf t) ((objs ++ objectInfos t b).map (·.id)) out'.1 ∧
        Entries t names (objs ++ objectInfos t b) rels out'.2 := by
  refine maintains_bind (keeps_listing hsrv fun s => s.bundleObjects b) fun infos hinfos => ?_
  refine maintains_weaken (maintains_fold (T := fun done out' =>
    Names (nameOf t) ((objs ++ done).map (·.id)) out'.1 ∧
      Entries t names (objs ++ done) rels out'.2)
    ⟨by rwa [List.append_nil], by rwa [List.append_nil]⟩ fun done o out' ho hdone => ?_)
    fun out' hfinal => ?_
  · obtain ⟨c, hc, hco⟩ := List.mem_filterMap.mp (hinfos.1.mem_iff.mp ho)
    have hname := nameOf_row ht.valid (mem_bundleObjects.mp hc).1 hco
    rw [← info_id hco] at hname
    refine maintains_bind (keeps_exportProperties_rows (listsRows_object hsrv o.id))
      fun properties hp => maintains_pure ?_
    rw [← List.append_assoc, ← hname]
    constructor
    · rw [List.map_append]
      exact hdone.1.emplace o.id
    · rw [hname]
      exact hdone.2.assignObject o hp
  · constructor
    · refine hfinal.1.perm ?_
      rw [List.map_append, List.map_append]
      exact (hinfos.1.map _).append_left _
    · refine hfinal.2.congr (fun o => ?_) fun _ => Iff.rfl
      simp only [List.mem_append, hinfos.1.mem_iff, objectInfos]

theorem keeps_exportBundle_entries (ht : t.Reachable) {objs : List ObjectInfo}
    {rels : List RelationEntry} {out : NameTable × Json}
    (hnames : Names (nameOf t) (objs.map (·.id)) out.1)
    (hdoc : Entries t (nameOf t) objs rels out.2)
    (hrels : ∀ e ∈ rels, ∃ r ∈ t.relations, RelationRow.entry r = some e) (b : ℕ) :
    Keeps (· = t) (exportBundle srv out b) fun out' =>
      Names (nameOf t) ((objs ++ objectInfos t b).map (·.id)) out'.1 ∧
        Entries t (nameOf t) (objs ++ objectInfos t b) (rels ++ relationEntries t b) out'.2 := by
  refine maintains_bind (keeps_exportObjectsJson_entries hsrv ht hnames hdoc b)
    fun out' hout' => ?_
  have hids : ∀ o ∈ objectInfos t b, o.id ∈ (objs ++ objectInfos t b).map (·.id) :=
    fun o ho => List.mem_map_of_mem (List.mem_append_right _ ho)
  have hends : ∀ e ∈ relationEntries t b, Resolved t out'.1 e →
      nameOf t e.queryObjectId = endName t out'.1 e.queryObjectId ∧
        nameOf t e.otherObjectId = endName t out'.1 e.otherObjectId := by
    intro e he hres
    have hmem := ends_mem_of_resolved ht hout'.1 hids he hres
    exact ⟨endName_of_names hout'.1 hmem.1, endName_of_names hout'.1 hmem.2⟩
  refine maintains_bind (keeps_exportRelationsJson_entries hsrv ht hout'.2 hrels b hends)
    fun document hdocument => ?_
  exact maintains_pure ⟨hout'.1, hdocument.1⟩

theorem keeps_fold_entries (ht : t.Reachable) (bundles : List ℕ) :
    Keeps (· = t) (fold (exportBundle srv) ([], .null) bundles) fun out =>
      Names (nameOf t) ((bundles.flatMap (objectInfos t)).map (·.id)) out.1 ∧
        Entries t (nameOf t) (bundles.flatMap (objectInfos t))
          (bundles.flatMap (relationEntries t)) out.2 := by
  refine maintains_fold (b := ([], .null)) (T := fun done (out : NameTable × Json) =>
    Names (nameOf t) ((done.flatMap (objectInfos t)).map (·.id)) out.1 ∧
      Entries t (nameOf t) (done.flatMap (objectInfos t)) (done.flatMap (relationEntries t)) out.2)
    ⟨fun _ => rfl, entries_nil t _⟩ fun done b out _ hdone => ?_
  have hrels := entries_stored t done
  rw [List.flatMap_append, List.flatMap_append, List.flatMap_singleton, List.flatMap_singleton]
  exact keeps_exportBundle_entries hsrv ht hdone.1 hdone.2 hrels b

theorem entries_of_exported (ht : t.Reachable) {bundles : List ℕ} {calls : ℕ} {document : Json}
    (h : exportedDocument srv bundles ⟨t, calls⟩ = some document) :
    Entries t (nameOf t) (bundles.flatMap (objectInfos t)) (bundles.flatMap (relationEntries t))
      document := by
  unfold exportedDocument at h
  rcases Triple.cases (keeps_fold_entries hsrv ht bundles) (s := ⟨t, calls⟩) rfl with
    ⟨out, w, hr, hout⟩ | ⟨e, w, hr, -⟩
  · rw [hr] at h
    cases h
    exact hout.2.2
  · rw [hr] at h
    cases h

end Running

end ExportEntries
