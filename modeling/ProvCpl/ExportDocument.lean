import ProvCpl.ImportGraph

/-! # Export of a bundle as a PROV-JSON document

The exporter names the objects of a bundle in a table from ids to full names and then writes
every relation of the bundle under its type, keyed by its id. The export of prefixes is
disabled in the source. -/
namespace ExportDocument

open CplTypes QualifiedName JsonValue ProvStore ProvServer ServerSpecs ImportDocument
open ImportFrame ImportAccepts ImportGraph ValidateDocument EarlyExit

abbrev NameTable := List (ℕ × String)

/-- The caller returns the code of a failed listing as it is. -/
def requireList {α : Type} (c : Call World (ReturnCode × List α)) : Api (List α) := do
  let out ← call c
  if out.1.IsOk then pure out.2 else leave (.ret out.1)

abbrev PropertyReader := ℕ → ℤ → Call World (ReturnCode × List PropertyEntry)

def objectReader (srv : Server) : PropertyReader := fun id type =>
  srv.getObjectProperties id none none type

def relationReader (srv : Server) : PropertyReader := fun id type =>
  srv.getRelationProperties id none none type

def propertyMember (value : String → Json) (e : PropertyEntry) : String × Json :=
  (fullName e.nsPrefix e.key, value e.value)

/-- The callback throws on a text that is no number. -/
def numericalMember (e : PropertyEntry) : Option (String × Json) :=
  (FloatText.ofText e.value).map fun x => (fullName e.nsPrefix e.key, .float x)

def assignAll (j : Json) (members : List (String × Json)) : Json :=
  members.foldl (fun j e => j.assign e.1 e.2) j

/-- Without a property the value stays null. -/
def exportProperties (read : PropertyReader) (id : ℕ) : Api Json := do
  let strings ← requireList (read id stringProperty)
  let numerics ← requireList (read id numericalProperty)
  let numbers ← orThrow (readAll numericalMember numerics)
  let booleans ← requireList (read id booleanProperty)
  pure (assignAll .null (strings.map (propertyMember .string) ++ numbers ++
    booleans.map (propertyMember fun v => .boolean (v = "1"))))

/-- The switch on the type of an object; a bundle is not written. -/
def assignObject (document : Json) (type : ℤ) (name : String) (properties : Json) : Json :=
  if type = cplEntity then document.assignIn "entity" name properties
  else if type = cplAgent then document.assignIn "agent" name properties
  else if type = cplActivity then document.assignIn "activity" name properties
  else document

def objectName (o : ObjectInfo) : String := fullName o.nsPrefix o.name

def exportObject (srv : Server) (out : NameTable × Json) (obj : ObjectInfo) :
    Api (NameTable × Json) := do
  let properties ← exportProperties (objectReader srv) obj.id
  pure (OrderedMap.emplace obj.id (objectName obj) out.1,
    assignObject out.2 obj.type (objectName obj) properties)

def exportObjectsJson (srv : Server) (bundles : List ℕ) (out : NameTable × Json) :
    Api (NameTable × Json) :=
  match bundles with
  | [bundle] => do
    let objects ← requireList (srv.getBundleObjects bundle)
    fold (exportObject srv) out objects
  | _ => leave (.ret .invalidArgument)

/-- The name at one end of a relation, and whether an object info was fetched for it. -/
def exportEndpoint (srv : Server) (tbl : NameTable) (id : ℕ) : Api (String × Bool) :=
  match OrderedMap.find id tbl with
  | some name => pure (name, false)
  | none => do
    let info ← call (srv.getObjectInfo id)
    if info.1.IsOk then
      match info.2 with
      | some i => pure (i.name, true)
      | none => leave .undefined
    else leave (.ret info.1)

/-- `rdata_array[type - 1]`; an index outside the array is not checked. -/
def relationData (type : ℤ) : Api ProvRelationData :=
  match (if type < 1 then none else rdataArray[(type - 1).toNat]?) with
  | some d => pure d
  | none => leave .undefined

/-- Fetching the info of the destination sets the flag of the source, so a source that was
found in the table leaves the pointer that is freed unset. -/
def exportRelation (srv : Server) (tbl : NameTable) (document : Json)
    (relation : RelationEntry) : Api Json := do
  let properties ← exportProperties (relationReader srv) relation.id
  let source ← exportEndpoint srv tbl relation.queryObjectId
  let data ← relationData relation.type
  let dest ← exportEndpoint srv tbl relation.otherObjectId
  if dest.2 = true ∧ source.2 = false then leave .undefined
  else pure (document.assignIn data.typeStr (Nat.repr relation.id)
    ((properties.assign data.sourceStr (.string source.1)).assign data.destStr (.string dest.1)))

def exportRelationsJson (srv : Server) (bundles : List ℕ) (tbl : NameTable) (document : Json) :
    Api Json :=
  match bundles with
  | [bundle] => do
    let relations ← requireList (srv.getBundleRelations bundle)
    fold (exportRelation srv tbl) document relations
  | _ => leave (.ret .invalidArgument)

/-- The body of the loop over the bundles, which share the table and the document. -/
def exportBundle (srv : Server) (out : NameTable × Json) (bundle : ℕ) :
    Api (NameTable × Json) := do
  let out ← exportObjectsJson srv [bundle] out
  let document ← exportRelationsJson srv [bundle] out.1 out.2
  pure (out.1, document)

/-- The text is made by the JSON library, which is a parameter. -/
def exportBundleJson (dump : Json → String) (srv : Server) (bundles : List ℕ) : Api String := do
  let out ← fold (exportBundle srv) ([], .null) bundles
  pure (dump out.2)

theorem listing_some {β : Type} (es : List β) :
    (listing (some es)).1.IsOk ∧ (listing (some es)).2 = es := by
  cases es <;> simp [listing]

def ReadsRows (t : Store) (rows : List PropertyRow) (read : PropertyReader) (id : ℕ) : Prop :=
  ∀ type, Succeeds (· = t) (requireList (read id type)) fun es =>
    ∀ e ∈ es, ∃ r ∈ rows, r.id = id ∧ r.type = type ∧ e = propertyEntry r

section Reads

variable {srv : Server} {t : Store} (hsrv : Reliable srv)

include hsrv

theorem succeeds_listing {α β : Type} {id : ℕ} (h0 : id ≠ 0) {f : α → Option β}
    (rows : Store → List α) (hf : ∀ r ∈ rows t, (f r).isSome) :
    Succeeds (· = t) (requireList (srv.list id (srv.query
      (fun n s => listing (readAll f (srv.scan n (rows s)))) []))) fun es =>
        es.Perm ((rows t).filterMap f) := by
  rintro w rfl
  have hread : readAll f (srv.scan w.calls (rows w.store)) =
      some ((srv.scan w.calls (rows w.store)).filterMap f) :=
    readAll_eq_filterMap fun r hr => hf r ((srv.scan_perm _ _).mem_iff.mp hr)
  have hlist := listing_some ((srv.scan w.calls (rows w.store)).filterMap f)
  simp only [requireList, bind_run, call, list_reliable hsrv h0, hread, if_pos hlist.1, pure_run]
  refine ⟨trivial, ?_⟩
  rw [hlist.2]
  exact (srv.scan_perm _ _).filterMap f

theorem succeeds_properties {id : ℕ} (h0 : id ≠ 0) (rows : Store → List PropertyRow) (type : ℤ) :
    Succeeds (· = t) (requireList (srv.list id (srv.query (fun n s => listing (some
      ((srv.scan n (propertiesOf (rows s) id none none type)).map propertyEntry))) []))) fun es =>
        ∀ e ∈ es, ∃ r ∈ rows t, r.id = id ∧ r.type = type ∧ e = propertyEntry r := by
  rintro w rfl
  have hlist := listing_some
    ((srv.scan w.calls (propertiesOf (rows w.store) id none none type)).map propertyEntry)
  simp only [requireList, bind_run, call, list_reliable hsrv h0, if_pos hlist.1, pure_run]
  refine ⟨trivial, fun e he => ?_⟩
  rw [hlist.2, List.mem_map] at he
  obtain ⟨r, hr, rfl⟩ := he
  rw [(srv.scan_perm _ _).mem_iff] at hr
  simp only [propertiesOf, List.mem_filter, decide_eq_true_eq] at hr
  exact ⟨r, hr.1, hr.2.1, hr.2.2, rfl⟩

theorem readsRows_object {id : ℕ} (h0 : id ≠ 0) :
    ReadsRows t t.objectProperties (objectReader srv) id :=
  succeeds_properties hsrv h0 Store.objectProperties

theorem readsRows_relation {id : ℕ} (h0 : id ≠ 0) :
    ReadsRows t t.relationProperties (relationReader srv) id :=
  succeeds_properties hsrv h0 Store.relationProperties

end Reads

theorem numericalMember_isSome {r : PropertyRow} (hw : Written r)
    (ht : r.type = numericalProperty) : (numericalMember (propertyEntry r)).isSome := by
  obtain ⟨x, hx, hv⟩ := hw ht
  obtain ⟨hlen, hread⟩ := FloatText.toText_reads hx
  have hfetch : fetchText cplValueLen r.value = FloatText.toText x := by
    rw [hv]
    exact fetchText_of_short (lt_of_le_of_lt hlen (by decide))
  simpa [numericalMember, propertyEntry, hfetch] using hread

def NumbersRead (rows : List PropertyRow) (id : ℕ) : Prop :=
  ∀ r ∈ rows, r.id = id → r.type = numericalProperty →
    (numericalMember (propertyEntry r)).isSome

theorem numbersRead_of_written {rows : List PropertyRow} {id : ℕ}
    (hw : ∀ r ∈ rows, r.id = id → Written r) : NumbersRead rows id :=
  fun r hr hid ht => numericalMember_isSome (hw r hr hid) ht

theorem succeeds_exportProperties {t : Store} {rows : List PropertyRow} {read : PropertyReader}
    {id : ℕ} (hread : ReadsRows t rows read id) (hnumbers : NumbersRead rows id) :
    Succeeds (· = t) (exportProperties read id) fun _ => True := by
  refine maintains_bind (hread _) fun strings _ => ?_
  refine maintains_bind (hread _) fun numerics hn => ?_
  have hall : ∀ e ∈ numerics, (numericalMember e).isSome := by
    intro e he
    obtain ⟨r, hr, hid, ht, rfl⟩ := hn e he
    exact hnumbers r hr hid ht
  rw [readAll_eq_filterMap hall]
  refine maintains_bind (R := fun _ => True) (maintains_pure trivial) fun numbers _ => ?_
  exact maintains_bind (hread _) fun booleans _ => maintains_pure trivial

structure ObjectDocument (objs : List ObjectInfo) (document : Json) : Prop where
  sorted : ∀ t ∈ objectSections, OrderedMap.Sorted (document.membersAt t.2)
  names : ∀ t ∈ objectSections, ∀ n, n ∈ OrderedMap.keys (document.membersAt t.2) ↔
    ∃ o ∈ objs, o.type = t.1 ∧ objectName o = n
  only : ∀ k, (∀ t ∈ objectSections, t.2 ≠ k) → document.find k = none

theorem objectDocument_nil : ObjectDocument [] .null :=
  ⟨fun _ _ => List.Pairwise.nil, fun _ _ _ => by simp [Json.membersAt, Json.find, OrderedMap.keys],
    fun _ _ => rfl⟩

theorem ObjectDocument.perm {objs objs' : List ObjectInfo} {document : Json}
    (h : ObjectDocument objs document) (hp : objs.Perm objs') : ObjectDocument objs' document :=
  ⟨h.sorted, fun t ht n => by simpa only [hp.mem_iff] using h.names t ht n, h.only⟩

theorem assignObject_cases (document : Json) (type : ℤ) (name : String) (properties : Json) :
    (∃ t ∈ objectSections, type = t.1 ∧
      assignObject document type name properties = document.assignIn t.2 name properties) ∨
    (∀ t ∈ objectSections, type ≠ t.1) ∧
      assignObject document type name properties = document := by
  unfold assignObject
  split_ifs with he ha hac
  · exact Or.inl ⟨(cplEntity, cplEntityStr), by decide, he, rfl⟩
  · exact Or.inl ⟨(cplAgent, cplAgentStr), by decide, ha, rfl⟩
  · exact Or.inl ⟨(cplActivity, cplActivityStr), by decide, hac, rfl⟩
  · exact Or.inr ⟨by simp [objectSections, he, ha, hac], rfl⟩

theorem objectSections_inj : ∀ t ∈ objectSections, ∀ u ∈ objectSections,
    (t.1 = u.1 ↔ t.2 = u.2) := by decide

theorem ObjectDocument.assign {objs : List ObjectInfo} {document : Json}
    (h : ObjectDocument objs document) (o : ObjectInfo) (properties : Json) :
    ObjectDocument (objs ++ [o])
      (assignObject document o.type (objectName o) properties) := by
  rcases assignObject_cases document o.type (objectName o) properties with
    ⟨u, hu, htype, he⟩ | ⟨hother, he⟩ <;> rw [he]
  · refine ⟨fun t ht => ?_, fun t ht n => ?_, fun k hk => ?_⟩
    · rw [membersAt_assignIn]
      split
      · exact OrderedMap.sorted_set _ _ (h.sorted u hu)
      · exact h.sorted t ht
    · have hsame := objectSections_inj t ht u hu
      rw [membersAt_assignIn]
      split
      · next heq =>
        rw [OrderedMap.mem_keys_set, h.names u hu]
        simp [htype, hsame.mpr heq, or_comm, eq_comm]
      · next hne =>
        have htne : ¬ u.1 = t.1 := fun heq => hne (hsame.mp heq.symm)
        rw [h.names t ht]
        simp [htype, htne]
    · rw [find_assignIn_ne (hk u hu).symm]
      exact h.only k hk
  · refine ⟨h.sorted, fun t ht n => ?_, h.only⟩
    rw [h.names t ht]
    simp [hother t ht]

def edges (document : Json) (d : ProvRelationData) : List (String × String) :=
  (records document d).map fun e => (endpointName e.2 d.sourceStr, endpointName e.2 d.destStr)

structure RelationDocument (objects : Json) (nameOf : ℕ → String) (rels : List RelationEntry)
    (document : Json) : Prop where
  relations : ∀ d ∈ relationSections, (edges document d).Perm
    ((rels.filter fun r => r.type = d.type).map fun r =>
      (nameOf r.queryObjectId, nameOf r.otherObjectId))
  keys : ∀ d ∈ relationSections, ∀ k ∈ OrderedMap.keys (records document d),
    ∃ r ∈ rels, k = Nat.repr r.id
  sections : ∀ d ∈ relationSections, (document.find d.typeStr).isSome →
    ∃ r ∈ rels, r.type = d.type
  only : ∀ k, (∀ d ∈ relationSections, d.typeStr ≠ k) → document.find k = objects.find k

theorem relationSections_inj {d d' : ProvRelationData} (hd : d ∈ relationSections)
    (hd' : d' ∈ relationSections) (h : d.typeStr = d'.typeStr ∨ d.type = d'.type) : d = d' := by
  rcases h with h | h
  · exact List.inj_on_of_nodup_map relationSections_typeStr_nodup hd hd' h
  · have hi := rdataArray_index d hd
    rw [h, rdataArray_index d' hd'] at hi
    exact (Option.some.inj hi).symm

theorem decimal_injective {m n : ℕ} (h : Nat.repr m = Nat.repr n) : m = n := by
  have h := congrArg (fun s : String => Nat.ofDigitChars 10 s.toList 0) h
  simpa [Nat.toList_repr, Nat.ofDigitChars_toDigits] using h

theorem records_assignIn_self (document : Json) (d : ProvRelationData) (k : String) (v : Json) :
    records (document.assignIn d.typeStr k v) d = OrderedMap.set k v (records document d) := by
  rw [records, membersAt_assignIn, if_pos rfl, records]

theorem records_assignIn_ne {c d : ProvRelationData} (hc : c ∈ relationSections)
    (hd : d ∈ relationSections) (hne : c ≠ d) (document : Json) (k : String) (v : Json) :
    records (document.assignIn d.typeStr k v) c = records document c := by
  have htypeStr : c.typeStr ≠ d.typeStr := fun he => hne (relationSections_inj hc hd (Or.inl he))
  rw [records, membersAt_assignIn, if_neg htypeStr, records]

theorem edges_assignIn_self {document : Json} {d : ProvRelationData} (hd : d ∈ relationSections)
    {k : String} (hk : OrderedMap.find k (records document d) = none) (properties : Json)
    (source dest : String) :
    (edges (document.assignIn d.typeStr k ((properties.assign d.sourceStr (.string source)).assign
      d.destStr (.string dest))) d).Perm ((source, dest) :: edges document d) := by
  have hends := relationSections_keys_ne d hd
  unfold edges
  rw [records_assignIn_self]
  refine ((OrderedMap.set_perm _ hk).map _).trans (List.Perm.of_eq ?_)
  simp only [List.map_cons, endpointName, find_assign, if_neg hends, if_true, Option.bind_some,
    Json.getString, Option.getD_some]

theorem RelationDocument.assign {objects document : Json} {nameOf : ℕ → String}
    {rels : List RelationEntry} (h : RelationDocument objects nameOf rels document)
    {r : RelationEntry} (hnew : ∀ q ∈ rels, q.id ≠ r.id) {d : ProvRelationData}
    (hd : d ∈ relationSections) (ht : r.type = d.type) (properties : Json) :
    RelationDocument objects nameOf (rels ++ [r]) (document.assignIn d.typeStr (Nat.repr r.id)
      ((properties.assign d.sourceStr (.string (nameOf r.queryObjectId))).assign d.destStr
        (.string (nameOf r.otherObjectId)))) := by
  have hfresh : OrderedMap.find (Nat.repr r.id) (records document d) = none := by
    rw [OrderedMap.find_eq_none_iff]
    intro hk
    obtain ⟨q, hq, he⟩ := h.keys d hd _ hk
    exact hnew q hq (decimal_injective he.symm)
  have hold : ∀ {P : RelationEntry → Prop}, (∃ q ∈ rels, P q) → ∃ q ∈ rels ++ [r], P q :=
    fun ⟨q, hq, he⟩ => ⟨q, List.mem_append_left _ hq, he⟩
  refine ⟨fun c hc => ?_, fun c hc k hk => ?_, fun c hc hs => ?_, fun k hk => ?_⟩
  · rw [List.filter_append, List.map_append]
    by_cases hcd : c = d
    · subst hcd
      refine (edges_assignIn_self hc hfresh properties _ _).trans ?_
      rw [List.filter_cons_of_pos (by simpa using ht), List.filter_nil, List.map_singleton]
      exact ((h.relations c hc).cons _).trans (List.perm_append_singleton _ _).symm
    · have hne : ¬ r.type = c.type := fun he =>
        hcd (relationSections_inj hc hd (Or.inr (he.symm.trans ht)))
      rw [edges, records_assignIn_ne hc hd hcd, List.filter_cons_of_neg (by simpa using hne),
        List.filter_nil, List.map_nil, List.append_nil]
      exact h.relations c hc
  · by_cases hcd : c = d
    · subst hcd
      rw [records_assignIn_self, OrderedMap.mem_keys_set] at hk
      rcases hk with rfl | hk
      · exact ⟨r, by simp, rfl⟩
      · exact hold (h.keys c hc k hk)
    · rw [records_assignIn_ne hc hd hcd] at hk
      exact hold (h.keys c hc k hk)
  · by_cases hcd : c = d
    · subst hcd
      exact ⟨r, by simp, ht⟩
    · rw [find_assignIn_ne fun he => hcd (relationSections_inj hc hd (Or.inl he))] at hs
      exact hold (h.sections c hc hs)
  · rw [find_assignIn_ne (hk d hd).symm]
    exact h.only k hk

theorem RelationDocument.perm {objects document : Json} {nameOf : ℕ → String}
    {rels rels' : List RelationEntry} (h : RelationDocument objects nameOf rels document)
    (hp : rels.Perm rels') : RelationDocument objects nameOf rels' document where
  relations := fun d hd => (h.relations d hd).trans ((hp.filter _).map _)
  keys := fun d hd k hk => by simpa only [hp.mem_iff] using h.keys d hd k hk
  sections := fun d hd hs => by simpa only [hp.mem_iff] using h.sections d hd hs
  only := h.only

theorem relationDocument_nil {objects : Json}
    (h : ∀ d ∈ relationSections, objects.find d.typeStr = none) (nameOf : ℕ → String) :
    RelationDocument objects nameOf [] objects where
  relations := fun d hd => by simp [edges, records, Json.membersAt, h d hd]
  keys := fun d hd k hk => by simp [records, Json.membersAt, h d hd, OrderedMap.keys] at hk
  sections := fun d hd hs => by simp [h d hd] at hs
  only := fun _ _ => rfl

/-- The table has the name of each listed object and of no other id. -/
def Names (nameOf : ℕ → String) (ids : List ℕ) (tbl : NameTable) : Prop :=
  ∀ id, OrderedMap.find id tbl = if id ∈ ids then some (nameOf id) else none

theorem Names.emplace {nameOf : ℕ → String} {ids : List ℕ} {tbl : NameTable}
    (h : Names nameOf ids tbl) (id : ℕ) :
    Names nameOf (ids ++ [id]) (OrderedMap.emplace id (nameOf id) tbl) := by
  intro i
  rw [OrderedMap.find_emplace, h id, h i]
  by_cases hi : i = id
  · subst hi
    by_cases hmem : i ∈ ids <;> simp [hmem]
  · simp [hi]

/-- An end that is in the table costs no call. -/
theorem Names.endpoint {nameOf : ℕ → String} {ids : List ℕ} {tbl : NameTable}
    (h : Names nameOf ids tbl) (srv : Server) {id : ℕ} (hid : id ∈ ids) :
    exportEndpoint srv tbl id = pure (nameOf id, false) := by
  rw [exportEndpoint, h id, if_pos hid]

theorem relationData_section {d : ProvRelationData} (hd : d ∈ relationSections) :
    relationData d.type = pure d := by
  have hpos : ∀ d ∈ relationSections, ¬ d.type < 1 := by decide
  rw [relationData, if_neg (hpos d hd), rdataArray_index d hd]

theorem Names.perm {nameOf : ℕ → String} {ids ids' : List ℕ} {tbl : NameTable}
    (h : Names nameOf ids tbl) (hp : ids.Perm ids') : Names nameOf ids' tbl :=
  fun id => by simpa only [hp.mem_iff] using h id

/-- A bundle whose rows can be read, named by `nameOf`: its relations are of known types and
join its objects. -/
structure Exportable (t : Store) (b : ℕ) (nameOf : ℕ → String) : Prop where
  bundle : b ≠ 0
  objects : ∀ r ∈ t.bundleObjects b, r.id ≠ 0 ∧
    ∃ o, ObjectRow.info r = some o ∧ objectName o = nameOf r.id
  objectRows : ∀ r ∈ t.bundleObjects b, ∀ q ∈ t.objectProperties, q.id = r.id → Written q
  relations : ∀ r ∈ t.bundleRelations b, r.id ≠ 0 ∧ ∃ e, RelationRow.entry r = some e ∧
    (∃ d ∈ relationSections, e.type = d.type) ∧
    e.queryObjectId ∈ (t.bundleObjects b).map (·.id) ∧
    e.otherObjectId ∈ (t.bundleObjects b).map (·.id)
  relationRows : ∀ r ∈ t.bundleRelations b, ∀ q ∈ t.relationProperties, q.id = r.id → Written q
  relationIds : ((t.bundleRelations b).map (·.id)).Nodup

theorem info_id {r : ObjectRow} {o : ObjectInfo} (h : ObjectRow.info r = some o) :
    o.id = r.id := by
  unfold ObjectRow.info at h
  split at h
  · exact congrArg ObjectInfo.id (Option.some.inj h).symm
  · cases h

theorem entry_id {r : RelationRow} {e : RelationEntry} (h : RelationRow.entry r = some e) :
    e.id = r.id := by
  unfold RelationRow.entry at h
  split at h
  · exact congrArg RelationEntry.id (Option.some.inj h).symm
  · cases h

theorem filterMap_ids {α β : Type} {f : α → Option β} (idOf : α → ℕ) {idOf' : β → ℕ}
    (hid : ∀ {r e}, f r = some e → idOf' e = idOf r) {rows : List α}
    (hf : ∀ r ∈ rows, (f r).isSome) : (rows.filterMap f).map idOf' = rows.map idOf := by
  rw [List.map_filterMap, ← List.filterMap_eq_map]
  refine List.filterMap_congr fun r hr => ?_
  obtain ⟨e, he⟩ := Option.isSome_iff_exists.mp (hf r hr)
  rw [he, Option.map_some, hid he]
  rfl

section Exporter

variable {srv : Server} {t : Store} {b : ℕ} {nameOf : ℕ → String} (hsrv : Reliable srv)

include hsrv

theorem succeeds_exportObject {o : ObjectInfo} (h0 : o.id ≠ 0)
    (hw : ∀ q ∈ t.objectProperties, q.id = o.id → Written q) (hname : objectName o = nameOf o.id)
    {objs : List ObjectInfo} {out : NameTable × Json}
    (hnames : Names nameOf (objs.map (·.id)) out.1) (hdoc : ObjectDocument objs out.2) :
    Succeeds (· = t) (exportObject srv out o) fun out' =>
      Names nameOf ((objs ++ [o]).map (·.id)) out'.1 ∧ ObjectDocument (objs ++ [o]) out'.2 := by
  refine maintains_bind
    (succeeds_exportProperties (readsRows_object hsrv h0) (numbersRead_of_written hw))
    fun properties _ => ?_
  refine maintains_pure ⟨?_, hdoc.assign o properties⟩
  rw [List.map_append, hname]
  exact hnames.emplace o.id

theorem succeeds_exportObjectsJson (h : Exportable t b nameOf) :
    Succeeds (· = t) (exportObjectsJson srv [b] ([], .null)) fun out =>
      Names nameOf ((t.bundleObjects b).map (·.id)) out.1 ∧
        ObjectDocument ((t.bundleObjects b).filterMap ObjectRow.info) out.2 := by
  have hsome : ∀ r ∈ t.bundleObjects b, (ObjectRow.info r).isSome := fun r hr => by
    obtain ⟨-, o, ho, -⟩ := h.objects r hr
    rw [ho]
    rfl
  refine maintains_bind (succeeds_listing hsrv h.bundle (fun s => s.bundleObjects b) hsome)
    fun objs hperm => ?_
  refine maintains_weaken (maintains_fold (T := fun done out =>
    Names nameOf (done.map (·.id)) out.1 ∧ ObjectDocument done out.2)
    ⟨fun _ => rfl, objectDocument_nil⟩ fun done o out ho hT => ?_) fun out hout => ?_
  · obtain ⟨r, hr, hinfo⟩ := List.mem_filterMap.mp (hperm.mem_iff.mp ho)
    obtain ⟨h0, o', ho', hname⟩ := h.objects r hr
    obtain rfl : o = o' := Option.some.inj (hinfo.symm.trans ho')
    have hid := info_id hinfo
    exact succeeds_exportObject hsrv (hid ▸ h0) (hid ▸ h.objectRows r hr) (hid ▸ hname) hT.1 hT.2
  · have hids := hperm.map (·.id)
    rw [filterMap_ids (fun r : ObjectRow => r.id) info_id hsome] at hids
    exact ⟨hout.1.perm hids, hout.2.perm hperm⟩

theorem succeeds_exportRelation {objects document : Json} {tbl : NameTable} {ids : List ℕ}
    {r : RelationEntry} (h0 : r.id ≠ 0)
    (hw : ∀ q ∈ t.relationProperties, q.id = r.id → Written q) {d : ProvRelationData}
    (hd : d ∈ relationSections) (ht : r.type = d.type) (hnames : Names nameOf ids tbl)
    (hquery : r.queryObjectId ∈ ids) (hother : r.otherObjectId ∈ ids)
    {rels : List RelationEntry} (hnew : ∀ q ∈ rels, q.id ≠ r.id)
    (hdoc : RelationDocument objects nameOf rels document) :
    Succeeds (· = t) (exportRelation srv tbl document r)
      (RelationDocument objects nameOf (rels ++ [r])) := by
  refine maintains_bind
    (succeeds_exportProperties (readsRows_relation hsrv h0) (numbersRead_of_written hw))
    fun properties _ => ?_
  rw [hnames.endpoint srv hquery, hnames.endpoint srv hother, ht, relationData_section hd]
  refine maintains_bind (R := (· = (nameOf r.queryObjectId, false))) (maintains_pure rfl) ?_
  rintro _ rfl
  refine maintains_bind (R := (· = d)) (maintains_pure rfl) ?_
  rintro _ rfl
  refine maintains_bind (R := (· = (nameOf r.otherObjectId, false))) (maintains_pure rfl) ?_
  rintro _ rfl
  exact maintains_pure (hdoc.assign hnew hd ht properties)

theorem succeeds_exportRelationsJson (h : Exportable t b nameOf) {objects : Json}
    {tbl : NameTable} (hnames : Names nameOf ((t.bundleObjects b).map (·.id)) tbl)
    (hsections : ∀ d ∈ relationSections, objects.find d.typeStr = none) :
    Succeeds (· = t) (exportRelationsJson srv [b] tbl objects)
      (RelationDocument objects nameOf ((t.bundleRelations b).filterMap RelationRow.entry)) := by
  have hsome : ∀ r ∈ t.bundleRelations b, (RelationRow.entry r).isSome := fun r hr => by
    obtain ⟨-, e, he, -⟩ := h.relations r hr
    rw [he]
    rfl
  refine maintains_bind
    (succeeds_listing hsrv h.bundle (fun s => s.bundleRelations b) hsome)
    fun rels hperm => ?_
  have hids := hperm.map (·.id)
  rw [filterMap_ids (fun r : RelationRow => r.id) entry_id hsome] at hids
  have hnodup := hids.nodup_iff.mpr h.relationIds
  refine maintains_weaken (maintains_fold_along (T := RelationDocument objects nameOf)
    (relationDocument_nil hsections nameOf) fun done e rest document hxs hdoc => ?_)
    fun document hdoc => hdoc.perm hperm
  have he : e ∈ rels := by simp [hxs]
  obtain ⟨r, hr, hentry⟩ := List.mem_filterMap.mp (hperm.mem_iff.mp he)
  obtain ⟨h0, e', he', ⟨d, hd, ht⟩, hquery, hother⟩ := h.relations r hr
  obtain rfl : e = e' := Option.some.inj (hentry.symm.trans he')
  have hid := entry_id hentry
  have hnew : ∀ q ∈ done, q.id ≠ e.id := by
    rw [hxs, List.map_append, List.map_cons] at hnodup
    exact fun q hq => (List.nodup_append.mp hnodup).2.2 q.id (List.mem_map_of_mem hq) e.id
      List.mem_cons_self
  exact succeeds_exportRelation hsrv (hid ▸ h0) (hid ▸ h.relationRows r hr) hd ht hnames hquery
    hother hnew hdoc

theorem succeeds_exportBundle (h : Exportable t b nameOf) :
    Succeeds (· = t) (exportBundle srv ([], .null) b) fun out => ∃ objects,
      ObjectDocument ((t.bundleObjects b).filterMap ObjectRow.info) objects ∧
      RelationDocument objects nameOf ((t.bundleRelations b).filterMap RelationRow.entry)
        out.2 := by
  have hne : ∀ d ∈ relationSections, ∀ u ∈ objectSections, u.2 ≠ d.typeStr := by decide
  refine maintains_bind (succeeds_exportObjectsJson hsrv h) fun out hout => ?_
  refine maintains_bind (succeeds_exportRelationsJson hsrv h hout.1 fun d hd =>
    hout.2.only d.typeStr (hne d hd)) fun document hdoc => ?_
  exact maintains_pure ⟨out.2, hout.2, hdoc⟩

theorem succeeds_exportBundleJson (h : Exportable t b nameOf) (dump : Json → String) :
    Succeeds (· = t) (exportBundleJson dump srv [b]) fun text => ∃ objects document,
      text = dump document ∧
      ObjectDocument ((t.bundleObjects b).filterMap ObjectRow.info) objects ∧
      RelationDocument objects nameOf ((t.bundleRelations b).filterMap RelationRow.entry)
        document := by
  refine maintains_bind (maintains_bind (succeeds_exportBundle hsrv h) fun out hout =>
    maintains_pure hout) fun out hout => ?_
  obtain ⟨objects, hobjects, hrelations⟩ := hout
  exact maintains_pure ⟨objects, out.2, rfl, hobjects, hrelations⟩

end Exporter

end ExportDocument
