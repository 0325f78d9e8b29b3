import ProvCpl.ExportDocument

/-! # The shape of an exported document

Whatever the server answers, the exporter only reads, and what it has written when it returns
are sections of objects whose values are properties that the importer can store. -/
namespace ExportShape

open CplTypes JsonValue ProvStore ProvServer ServerSpecs ImportDocument ImportFrame
open ImportAccepts ExportDocument ValidateDocument EarlyExit

theorem mem_of_readAll {α β : Type} {f : α → Option β} :
    ∀ {l : List α} {es : List β}, readAll f l = some es → ∀ e ∈ es, ∃ r ∈ l, f r = some e
  | [], es, h, e, he => by
    cases h
    cases he
  | r :: l, es, h, e, he => by
    unfold readAll at h
    split at h
    · next a bs ha hbs =>
      cases h
      rcases List.mem_cons.mp he with rfl | he
      · exact ⟨r, List.mem_cons_self, ha⟩
      · obtain ⟨q, hq, hf⟩ := mem_of_readAll hbs e he
        exact ⟨q, List.mem_cons_of_mem r hq, hf⟩
    · cases h

theorem HoldsProperties.members {j : Json} (h : HoldsProperties j) :
    ∀ p ∈ j.members, p.2.IsScalar := by
  obtain ⟨items, hitems, hs⟩ := h
  cases j with
  | object m =>
    cases hitems
    exact hs
  | _ => simp [Json.members]

theorem holdsProperties_assign {j : Json} (h : ∀ p ∈ j.members, p.2.IsScalar) (k : String)
    {v : Json} (hv : v.IsScalar) : HoldsProperties (j.assign k v) := by
  refine ⟨_, rfl, fun p hp => ?_⟩
  rcases OrderedMap.mem_set hp with rfl | hp
  · exact hv
  · exact h p hp

theorem holdsProperties_assignAll (members : List (String × Json)) :
    ∀ {j : Json}, HoldsProperties j → (∀ p ∈ members, p.2.IsScalar) →
      HoldsProperties (assignAll j members) := by
  induction members with
  | nil => exact fun h _ => h
  | cons p members ih =>
    intro j h hs
    apply ih
    · exact holdsProperties_assign (HoldsProperties.members h) p.1 (hs p List.mem_cons_self)
    · exact fun q hq => hs q (List.mem_cons_of_mem p hq)

structure Shaped (document : Json) : Prop where
  sections : ∀ k, (document.find k).all Json.isObject
  members : ∀ k, ∀ e ∈ document.membersAt k, HoldsProperties e.2
  noPrefixes : document.find "prefix" = none

theorem shaped_null : Shaped .null := by
  constructor <;> simp [Json.find, Json.membersAt]

theorem Shaped.assignIn {document : Json} (h : Shaped document) {s : String} (hs : s ≠ "prefix")
    (k : String) {v : Json} (hv : HoldsProperties v) : Shaped (document.assignIn s k v) where
  sections := by
    intro i
    by_cases hi : i = s
    · rw [hi, find_assignIn_self]
      rfl
    · rw [find_assignIn_ne hi]
      exact h.sections i
  members := by
    intro i e he
    rw [membersAt_assignIn] at he
    split at he
    · rcases OrderedMap.mem_set he with rfl | he
      · exact hv
      · exact h.members s e he
    · exact h.members i e he
  noPrefixes := by rw [find_assignIn_ne hs.symm, h.noPrefixes]

section AnyServer

variable {srv : Server} {I : Store → Prop}

theorem list_store {α : Type} (id : ℕ) (read : ℕ → Store → ReturnCode × List α) (w : World) :
    (srv.list id (srv.query read []) w).2.store = w.store := by
  unfold Server.list Server.ensureInitialized
  split
  · dsimp only
    split
    · rfl
    · exact query_store _ _
  · rfl

theorem keeps_requireList {α : Type} {c : Call World (ReturnCode × List α)}
    (h : ∀ w, (c w).2.store = w.store) : Keeps I (requireList c) fun _ => True :=
  maintains_bind (R := fun _ => True) (maintains_call fun w hw => ⟨by rwa [h w], trivial⟩)
    fun _ _ => maintains_ite (fun _ => maintains_pure trivial) fun _ => keeps_leave

theorem keeps_exportProperties {read : PropertyReader}
    (h : ∀ id type w, (read id type w).2.store = w.store) (id : ℕ) :
    Keeps I (exportProperties read id) HoldsProperties := by
  refine maintains_bind (keeps_requireList (h id _)) fun strings _ => ?_
  refine maintains_bind (keeps_requireList (h id _)) fun numerics _ => ?_
  refine maintains_bind (keeps_orThrow_value _) fun numbers hnumbers => ?_
  refine maintains_bind (keeps_requireList (h id _)) fun booleans _ => maintains_pure ?_
  apply holdsProperties_assignAll
  · exact ⟨[], rfl, by simp⟩
  intro p hp
  simp only [List.mem_append, List.mem_map] at hp
  rcases hp with (⟨e, -, rfl⟩ | hp) | ⟨e, -, rfl⟩
  · trivial
  · obtain ⟨e, -, he⟩ := mem_of_readAll hnumbers p hp
    obtain ⟨x, -, rfl⟩ := Option.map_eq_some_iff.mp he
    trivial
  · trivial

theorem keeps_exportObject (out : NameTable × Json) (o : ObjectInfo) :
    Keeps I (exportObject srv out o) fun out' => ∃ properties, HoldsProperties properties ∧
      out' = (OrderedMap.emplace o.id (objectName o) out.1,
        assignObject out.2 o.type (objectName o) properties) :=
  maintains_bind (keeps_exportProperties (fun id _ => list_store id _) o.id)
    fun properties hp => maintains_pure ⟨properties, hp, rfl⟩

theorem keeps_exportEndpoint (tbl : NameTable) (id : ℕ) :
    Keeps I (exportEndpoint srv tbl id) fun _ => True := by
  unfold exportEndpoint
  split
  · exact maintains_pure trivial
  · refine maintains_bind (R := fun _ => True) (maintains_call fun w hw => ⟨?_, trivial⟩)
      fun info _ => maintains_ite (fun _ => ?_) fun _ => keeps_leave
    · unfold Server.getObjectInfo Server.ensureInitialized Server.cplOdbcGetObjectInfo
      split
      · dsimp only
        split
        · exact hw
        · rwa [query_store]
      · exact hw
    · split
      · exact maintains_pure trivial
      · exact keeps_leave

theorem keeps_relationData (type : ℤ) : Keeps I (relationData type) (· ∈ rdataArray) := by
  unfold relationData
  split
  · next d hd =>
    apply maintains_pure
    split at hd
    · cases hd
    · exact List.mem_of_getElem? hd
  · exact keeps_leave

def recordFor (d : ProvRelationData) (properties : Json) (source dest : String) : Json :=
  (properties.assign d.sourceStr (.string source)).assign d.destStr (.string dest)

theorem keeps_exportRelation (tbl : NameTable) (document : Json) (r : RelationEntry) :
    Keeps I (exportRelation srv tbl document r) fun document' =>
      ∃ d ∈ rdataArray, ∃ properties source dest, HoldsProperties properties ∧
        document' = document.assignIn d.typeStr (Nat.repr r.id)
          (recordFor d properties source dest) := by
  refine maintains_bind (keeps_exportProperties (fun id _ => list_store id _) r.id)
    fun properties hp => ?_
  refine maintains_bind (keeps_exportEndpoint _ _) fun source _ => ?_
  refine maintains_bind (keeps_relationData _) fun d hd => ?_
  refine maintains_bind (keeps_exportEndpoint _ _) fun dest _ => ?_
  refine maintains_ite (fun _ => keeps_leave) fun _ => ?_
  exact maintains_pure ⟨d, hd, properties, source.1, dest.1, hp, rfl⟩

theorem keeps_exportRelationsJson_objects (b : ℕ) (tbl : NameTable) (document : Json) :
    Keeps I (exportRelationsJson srv [b] tbl document) fun document' =>
      ∀ u ∈ objectSections, document'.membersAt u.2 = document.membersAt u.2 := by
  have hne : ∀ d ∈ rdataArray, ∀ u ∈ objectSections, u.2 ≠ d.typeStr := by decide
  refine maintains_bind (keeps_requireList (list_store _ _)) fun rels _ => ?_
  refine maintains_fold (T := fun _ (document' : Json) =>
    ∀ u ∈ objectSections, document'.membersAt u.2 = document.membersAt u.2) (fun _ _ => rfl)
    fun _ r document' _ h => maintains_weaken (keeps_exportRelation tbl document' r) ?_
  rintro _ ⟨d, hd, properties, source, dest, -, rfl⟩ u hu
  rw [membersAt_assignIn, if_neg (hne d hd u hu)]
  exact h u hu

theorem Shaped.assignObject {document : Json} (h : Shaped document) (type : ℤ) (name : String)
    {properties : Json} (hp : HoldsProperties properties) :
    Shaped (assignObject document type name properties) := by
  have hne : ∀ u ∈ objectSections, u.2 ≠ "prefix" := by decide
  rcases assignObject_cases document type name properties with ⟨u, hu, -, he⟩ | ⟨-, he⟩ <;> rw [he]
  · exact h.assignIn (hne u hu) name hp
  · exact h

theorem Shaped.assignRecord {document : Json} (h : Shaped document) {d : ProvRelationData}
    (hd : d ∈ rdataArray) (k : String) {properties : Json} (hp : HoldsProperties properties)
    (source dest : String) :
    Shaped (document.assignIn d.typeStr k (recordFor d properties source dest)) := by
  have hne : ∀ d ∈ rdataArray, d.typeStr ≠ "prefix" := by decide
  have hsource := holdsProperties_assign (HoldsProperties.members hp) d.sourceStr
    (v := .string source) trivial
  apply h.assignIn (hne d hd) k
  exact holdsProperties_assign (HoldsProperties.members hsource) d.destStr trivial

theorem keeps_exportBundle_shaped (b : ℕ) :
    Keeps I (exportBundle srv ([], .null) b) fun out => Shaped out.2 := by
  have hobjects : Keeps I (exportObjectsJson srv [b] ([], .null)) fun out => Shaped out.2 := by
    refine maintains_bind (keeps_requireList (list_store _ _)) fun objs _ => ?_
    refine maintains_fold (T := fun _ (out : NameTable × Json) => Shaped out.2) shaped_null
      fun _ o out _ h => maintains_weaken (keeps_exportObject out o) ?_
    rintro _ ⟨properties, hp, rfl⟩
    exact h.assignObject o.type (objectName o) hp
  refine maintains_bind hobjects fun out hout => ?_
  have hrelations : Keeps I (exportRelationsJson srv [b] out.1 out.2) Shaped := by
    refine maintains_bind (keeps_requireList (list_store _ _)) fun rels _ => ?_
    refine maintains_fold (T := fun _ (document : Json) => Shaped document) hout
      fun _ r document _ h => maintains_weaken (keeps_exportRelation out.1 document r) ?_
    rintro _ ⟨d, hd, properties, source, dest, hp, rfl⟩
    exact h.assignRecord hd (Nat.repr r.id) hp source dest
  exact maintains_bind hrelations fun document hd => maintains_pure hd

end AnyServer

end ExportShape
