import ProvCpl.ExportNames

/-! # Which properties an exported document keeps

The three listings of an owner are merged into one object by joined names, and the ends of a
relation are written over the result. The store holds one row for each type of a key, and one
for each way of splitting a joined name. -/
namespace ExportProperties

open CplTypes QualifiedName JsonValue ProvStore ProvServer ServerSpecs ImportDocument
open ImportAccepts ImportGraph ExportDocument ExportShape RoundTrip BundleMembers Reimport
open ExportEntries ExportNames EarlyExit

def joinedName (r : PropertyRow) : String := fullName r.nsPrefix r.name

def jsonValue (r : PropertyRow) : Option Json :=
  if r.type = stringProperty then some (.string r.value)
  else if r.type = numericalProperty then (FloatText.ofText r.value).map .float
  else if r.type = booleanProperty then some (.boolean (r.value = "1"))
  else none

/-- Every property of the owner is there, and what was written for it was not overwritten. -/
structure Kept (rows : List PropertyRow) (id : ℕ) (j : Json) : Prop where
  carried : ∀ r ∈ rows, r.id = id → ∃ v, jsonValue r = some v ∧ j.find (joinedName r) = some v
  survives : ∀ r ∈ rows, r.id = id → ∀ k v, rowMember r = some (k, v) → j.find k = some v

/-- The members that are written for an owner, with those of the ends of a relation. -/
def writtenMembers (rows : List PropertyRow) (id : ℕ) (ends : List (String × Json)) :
    List (String × Json) :=
  (rows.filter fun r => r.id = id).filterMap rowMember ++ ends

structure Mergeable (rows : List PropertyRow) (id : ℕ) (ends : List (String × Json)) : Prop where
  complete : ∀ r ∈ rows, r.id = id →
    ∃ v, jsonValue r = some v ∧ (joinedName r, v) ∈ writtenMembers rows id ends
  unambiguous : ∀ e ∈ writtenMembers rows id ends, ∀ e' ∈ writtenMembers rows id ends,
    e.1 = e'.1 → e.2 = e'.2

structure Merged (rows : List PropertyRow) (id : ℕ) (ends : List (String × Json)) (j : Json) :
    Prop where
  origin : ∀ k v, j.find k = some v → (k, v) ∈ writtenMembers rows id ends
  written : ∀ e ∈ writtenMembers rows id ends, (j.find e.1).isSome
  ends : ∀ e ∈ ends, j.find e.1 = some e.2

variable {rows : List PropertyRow} {id : ℕ} {ends : List (String × Json)} {j : Json}

theorem mem_writtenMembers {e : String × Json} : e ∈ writtenMembers rows id ends ↔
    (∃ r ∈ rows, r.id = id ∧ rowMember r = some e) ∨ e ∈ ends := by
  simp only [writtenMembers, List.mem_append, List.mem_filterMap, List.mem_filter,
    decide_eq_true_eq, and_assoc]

theorem Merged.kept_iff (h : Merged rows id ends j) :
    Kept rows id j ↔ Mergeable rows id ends := by
  constructor
  · intro hk
    have hfind : ∀ e ∈ writtenMembers rows id ends, j.find e.1 = some e.2 := by
      intro e he
      rcases mem_writtenMembers.mp he with ⟨r, hr, hid, hm⟩ | he
      · exact hk.survives r hr hid e.1 e.2 hm
      · exact h.ends e he
    constructor
    · intro r hr hid
      obtain ⟨v, hv, hcarried⟩ := hk.carried r hr hid
      exact ⟨v, hv, h.origin _ v hcarried⟩
    · intro e he e' he' hname
      have hvalue := hfind e he
      rw [hname, hfind e' he'] at hvalue
      exact (Option.some.inj hvalue).symm
  · intro hm
    have hfind : ∀ e ∈ writtenMembers rows id ends, j.find e.1 = some e.2 := by
      intro e he
      obtain ⟨v, hv⟩ := Option.isSome_iff_exists.mp (h.written e he)
      have hvalue := hm.unambiguous e he _ (h.origin _ v hv) rfl
      rw [hv, hvalue]
    constructor
    · intro r hr hid
      obtain ⟨v, hv, hmem⟩ := hm.complete r hr hid
      exact ⟨v, hv, hfind _ hmem⟩
    · intro r hr hid k v hmember
      exact hfind (k, v) (mem_writtenMembers.mpr (Or.inl ⟨r, hr, hid, hmember⟩))

theorem merged_of_propertiesOf (h : PropertiesOf rows id j) : Merged rows id [] j where
  origin := by
    intro k v hv
    exact mem_writtenMembers.mpr (Or.inl (h.origin hv))
  written := by
    intro e he
    rcases mem_writtenMembers.mp he with ⟨r, hr, hid, hm⟩ | he
    · obtain ⟨u, hu, -⟩ := h.find hr hid hm
      rw [hu]
      rfl
    · cases he
  ends := by simp

def endMembers (t : Store) (e : RelationEntry) (d : ProvRelationData) : List (String × Json) :=
  [(d.sourceStr, .string (nameOf t e.queryObjectId)),
    (d.destStr, .string (nameOf t e.otherObjectId))]

theorem merged_recordFor {t : Store} {e : RelationEntry} {d : ProvRelationData}
    (hd : d ∈ rdataArray) {properties : Json}
    (h : PropertiesOf t.relationProperties e.id properties) :
    Merged t.relationProperties e.id (endMembers t e d) (recordFor d properties
      (nameOf t e.queryObjectId) (nameOf t e.otherObjectId)) := by
  have hkeys := rdataArray_keys_ne d hd
  have hproperties := merged_of_propertiesOf h
  have hfind : ∀ k, (recordFor d properties (nameOf t e.queryObjectId)
      (nameOf t e.otherObjectId)).find k =
        if k = d.destStr then some (.string (nameOf t e.otherObjectId))
        else if k = d.sourceStr then some (.string (nameOf t e.queryObjectId))
        else properties.find k := by
    intro k
    rw [recordFor, find_assign, find_assign]
  constructor
  · intro k v hv
    rw [hfind] at hv
    rw [mem_writtenMembers]
    split_ifs at hv with hdest hsource
    · right
      simp [endMembers, hdest, ← Option.some.inj hv]
    · right
      simp [endMembers, hsource, ← Option.some.inj hv]
    · exact Or.inl (h.origin hv)
  · intro m hm
    rw [hfind]
    split_ifs with hdest hsource
    · rfl
    · rfl
    · rcases mem_writtenMembers.mp hm with hrow | hend
      · exact hproperties.written m (mem_writtenMembers.mpr (Or.inl hrow))
      · simp only [endMembers, List.mem_cons, List.not_mem_nil, or_false] at hend
        rcases hend with rfl | rfl
        · exact absurd rfl hsource
        · exact absurd rfl hdest
  · intro m hm
    simp only [endMembers, List.mem_cons, List.not_mem_nil, or_false] at hm
    rcases hm with rfl | rfl
    · rw [hfind, if_neg hkeys, if_pos rfl]
    · rw [hfind, if_pos rfl]

structure KeepsProperties (t : Store) (b : ℕ) (document : Json) : Prop where
  objects : ∀ o ∈ exportedObjects t [b], ∀ u ∈ objectSections, o.type = u.1 →
    ∃ entry, document.entryAt u.2 (objectName o) = some entry ∧ Kept t.objectProperties o.id entry
  relations : ∀ e ∈ exportedRelations t [b], ∃ d, Described e.type d ∧ ∃ record,
    document.entryAt d.typeStr (Nat.repr e.id) = some record ∧ Kept t.relationProperties e.id record

structure NoClash (t : Store) (b : ℕ) : Prop where
  objects : ∀ o ∈ exportedObjects t [b], Mergeable t.objectProperties o.id []
  relations : ∀ e ∈ exportedRelations t [b], ∀ d, Described e.type d →
    Mergeable t.relationProperties e.id (endMembers t e d)

theorem keepsProperties_iff {t : Store} {b : ℕ} {document : Json}
    (hdoc : Entries t (nameOf t) ([b].flatMap (objectInfos t)) (exportedRelations t [b]) document)
    (hdistinct : ((objectInfos t b).map objectName).Nodup) :
    KeepsProperties t b document ↔ NoClash t b := by
  have hobject : ∀ o ∈ exportedObjects t [b], ∀ u ∈ objectSections, o.type = u.1 →
      ∃ entry, document.entryAt u.2 (objectName o) = some entry ∧
        (Kept t.objectProperties o.id entry ↔ Mergeable t.objectProperties o.id []) := by
    intro o ho u hu htype
    have hmem := (mem_exportedObjects.mp ho).1
    obtain ⟨q, hq, -, hname, properties, hp, hentry⟩ := hdoc.objects o hmem u hu htype
    rw [List.flatMap_singleton] at hmem hq
    obtain rfl := List.inj_on_of_nodup_map hdistinct hq hmem hname
    exact ⟨properties, hentry, (merged_of_propertiesOf hp).kept_iff⟩
  have hrelation : ∀ e ∈ exportedRelations t [b], ∃ d, Described e.type d ∧ ∃ record,
      document.entryAt d.typeStr (Nat.repr e.id) = some record ∧
        (Kept t.relationProperties e.id record ↔
          Mergeable t.relationProperties e.id (endMembers t e d)) := by
    intro e he
    obtain ⟨d, hd, properties, hp, hentry⟩ := hdoc.relations e he
    exact ⟨d, hd, _, hentry, (merged_recordFor hd.mem hp).kept_iff⟩
  constructor
  · intro h
    constructor
    · intro o ho
      obtain ⟨u, hu, htype⟩ := (mem_exportedObjects.mp ho).2
      obtain ⟨entry, hentry, hiff⟩ := hobject o ho u hu htype
      obtain ⟨entry', hentry', hkept⟩ := h.objects o ho u hu htype
      rw [Option.some.inj (hentry.symm.trans hentry')] at hiff
      exact hiff.mp hkept
    · intro e he d' hd'
      obtain ⟨d, hd, record, hrecord, hiff⟩ := hrelation e he
      obtain ⟨c, hc, record', hrecord', hkept⟩ := h.relations e he
      obtain rfl := hd.unique hd'
      obtain rfl := hd.unique hc
      rw [Option.some.inj (hrecord.symm.trans hrecord')] at hiff
      exact hiff.mp hkept
  · intro h
    constructor
    · intro o ho u hu htype
      obtain ⟨entry, hentry, hiff⟩ := hobject o ho u hu htype
      exact ⟨entry, hentry, hiff.mpr (h.objects o ho)⟩
    · intro e he
      obtain ⟨d, hd, record, hrecord, hiff⟩ := hrelation e he
      exact ⟨d, hd, record, hrecord, hiff.mpr (h.relations e he d hd)⟩

theorem rowMember_of_short {r : PropertyRow} (hp : r.nsPrefix.length < cplPrefixLen)
    (hk : r.name.length < cplKeyLen) (hv : r.value.length < cplValueLen) :
    rowMember r = (jsonValue r).map fun v => (joinedName r, v) := by
  have hentry : propertyEntry r = ⟨r.nsPrefix, r.name, r.value⟩ := by
    rw [propertyEntry, fetchText_of_short hp, fetchText_of_short hk, fetchText_of_short hv]
  unfold rowMember jsonValue
  rw [hentry]
  split_ifs
  · rfl
  · rw [numericalMember, Option.map_map]
    rfl
  · rfl
  · rfl

theorem complete_of_short (h : ∀ r ∈ rows, r.id = id → r.nsPrefix.length < cplPrefixLen ∧
    r.name.length < cplKeyLen ∧ r.value.length < cplValueLen ∧ (jsonValue r).isSome) :
    ∀ r ∈ rows, r.id = id →
      ∃ v, jsonValue r = some v ∧ (joinedName r, v) ∈ writtenMembers rows id ends := by
  intro r hr hid
  obtain ⟨hp, hk, hv, hsome⟩ := h r hr hid
  obtain ⟨v, hvalue⟩ := Option.isSome_iff_exists.mp hsome
  refine ⟨v, hvalue, mem_writtenMembers.mpr (Or.inl ⟨r, hr, hid, ?_⟩)⟩
  rw [rowMember_of_short hp hk hv, hvalue, Option.map_some]

/-- The entity 2 has a label of two types. -/
def labelledStore : Store :=
  { bundleStore 2 2 wasDerivedFrom with
    objectProperties := [⟨2, "", "LABEL", "1", stringProperty⟩,
      ⟨2, "", "LABEL", "1", booleanProperty⟩] }

theorem labelledStore_reachable : labelledStore.Reachable :=
  .addObjectProperty ⟨2, "", "LABEL", "1", booleanProperty⟩ (by decide)
    (.addObjectProperty ⟨2, "", "LABEL", "1", stringProperty⟩ (by decide)
      (bundleStore_reachable (by decide) (by decide) (by decide)) rfl) rfl

def labelledDocument : Json := .object [
  ("entity", .object [("e", .object [("LABEL", .boolean true)])]),
  ("wasDerivedFrom", .object [("1", .object [("prov:generatedEntity", .string "e"),
    ("prov:usedEntity", .string "e")])])]

def labelledText (_ : Json) : String :=
  "\x7b\"entity\":\x7b\"e\":\x7b\"LABEL\":true\x7d\x7d,\"wasDerivedFrom\":\x7b\"1\":" ++
  "\x7b\"prov:generatedEntity\":\"e\",\"prov:usedEntity\":\"e\"\x7d\x7d\x7d"

def describedStore : Store :=
  { bundleStore 2 2 wasDerivedFrom with
    objectProperties := [⟨2, "p", "k", "v", stringProperty⟩, ⟨2, "", "k", "1", booleanProperty⟩]
    relationProperties := [⟨1, "", "w", "v", stringProperty⟩] }

theorem describedStore_reachable : describedStore.Reachable :=
  .addRelationProperty ⟨1, "", "w", "v", stringProperty⟩ (by decide)
    (.addObjectProperty ⟨2, "", "k", "1", booleanProperty⟩ (by decide)
      (.addObjectProperty ⟨2, "p", "k", "v", stringProperty⟩ (by decide)
        (bundleStore_reachable (by decide) (by decide) (by decide)) rfl) rfl) rfl

theorem describedStore_noClash : NoClash describedStore 1 := by
  have hobjects : exportedObjects describedStore [1] = [⟨2, 1, "", "e", cplEntity⟩] := by decide
  have hrelations : exportedRelations describedStore [1] = [⟨1, 2, 2, wasDerivedFrom⟩] := by decide
  have hrows : writtenMembers describedStore.objectProperties 2 [] =
      [("p:k", .string "v"), ("k", .boolean true)] := rfl
  constructor
  · intro o ho
    rw [hobjects, List.mem_singleton] at ho
    subst ho
    constructor
    · exact complete_of_short (by decide)
    · rw [hrows]
      simp
  · intro e he d hd
    rw [hrelations, List.mem_singleton] at he
    subst he
    obtain rfl := Option.some.inj hd.2
    have hmembers : writtenMembers describedStore.relationProperties 1
        (endMembers describedStore ⟨1, 2, 2, wasDerivedFrom⟩ ⟨wasDerivedFrom, "wasDerivedFrom",
          "prov:generatedEntity", cplEntity, "prov:usedEntity", cplEntity⟩) =
        [("w", .string "v"), ("prov:generatedEntity", .string "e"),
          ("prov:usedEntity", .string "e")] := rfl
    constructor
    · exact complete_of_short (by decide)
    · rw [hmembers]
      simp

end ExportProperties
