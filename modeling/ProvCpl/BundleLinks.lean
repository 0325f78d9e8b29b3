import ProvCpl.ImportedObjects
import ProvCpl.RecordProperties

/-! # The relations that an import stores

Each anchor that is found and each record stores a relation and, under the next id, the
membership of that relation in the bundle. The ends of a record are ids of the table or, with
external objects allowed, of a lookup. -/
namespace BundleLinks

open CplTypes QualifiedName JsonValue ProvStore ProvServer ServerSpecs ImportDocument
open ImportFrame ValidateDocument ImportAccepts ImportGraph BundleMembers ImportedObjects
open RecordProperties EarlyExit

structure Link where
  fromId : ℕ
  toId : ℕ
  type : ℤ
  deriving DecidableEq, Repr

def linkRow (id : ℕ) (l : Link) : RelationRow := ⟨id, some l.fromId, some l.toId, some l.type⟩

def memberRow (b id rowId : ℕ) : RelationRow := ⟨rowId, some b, some id, some bundleRelation⟩

def InBundle (t : Store) (b : ℕ) (l : Link) : Prop :=
  ∃ r ∈ t.bundleRelations b, r.fromId = some l.fromId ∧ r.toId = some l.toId ∧
    r.type = some l.type

/-- The objects are these, and the new relations are those of the links, each any number of
times, and memberships of new relations. -/
structure Relates (base : Store) (rows : List ObjectRow) (b : ℕ) (links : List Link) (t : Store) :
    Prop where
  reachable : t.Reachable
  objects : t.objects = rows
  next : base.nextRelation ≤ t.nextRelation
  kept : ∀ r ∈ base.relations, r ∈ t.relations
  stored : ∀ r ∈ t.relations, r ∈ base.relations ∨ base.nextRelation ≤ r.id ∧
    ((∃ l ∈ links, r = linkRow r.id l) ∨
      ∃ id, base.nextRelation ≤ id ∧ r = memberRow b id r.id)

structure Linked (base : Store) (rows : List ObjectRow) (b : ℕ) (links : List Link) (t : Store) :
    Prop extends Relates base rows b links t where
  joined : ∀ l ∈ links, InBundle t b l

/-- A last link has its relation and is not yet in the bundle. -/
structure Pending (base : Store) (rows : List ObjectRow) (b : ℕ) (links : List Link) (l : Link)
    (id : ℕ) (t : Store) : Prop extends Relates base rows b (links ++ [l]) t where
  joined : ∀ k ∈ links, InBundle t b k
  new : base.nextRelation ≤ id
  row : linkRow id l ∈ t.relations

theorem InBundle.mono {t t' : Store} {b : ℕ} {l : Link} (h : InBundle t b l)
    (hsub : ∀ r ∈ t.relations, r ∈ t'.relations) : InBundle t' b l := by
  obtain ⟨r, hr, hends⟩ := h
  obtain ⟨hr, m, hm, hrest⟩ := mem_bundleRelations.mp hr
  exact ⟨r, mem_bundleRelations.mpr ⟨hsub r hr, m, hsub m hm, hrest⟩, hends⟩

section Rows

variable {base t t' : Store} {rows : List ObjectRow} {b : ℕ} {links : List Link} {l : Link}

theorem Relates.insertRelation (h : Relates base rows b links t) {f o : ℕ} {type : ℤ}
    (hf : f ≠ 0) (ho : o ≠ 0) (ht : EnsureRType type)
    (hnew : ⟨f, o, type⟩ ∈ links ∨ f = b ∧ base.nextRelation ≤ o ∧ type = bundleRelation) :
    Relates base rows b links (t.insertRelation f o type) where
  reachable := .addRelation f o type hf ho ht h.reachable
  objects := h.objects
  next := h.next.trans (Nat.le_succ _)
  kept := fun r hr => List.mem_append_left _ (h.kept r hr)
  stored := by
    intro r hr
    rcases List.mem_append.mp hr with hr | hr
    · exact h.stored r hr
    · obtain rfl := List.mem_singleton.mp hr
      right
      refine ⟨h.next, ?_⟩
      rcases hnew with hl | ⟨rfl, hle, rfl⟩
      · exact Or.inl ⟨_, hl, rfl⟩
      · exact Or.inr ⟨o, hle, rfl⟩

theorem Relates.concat (h : Relates base rows b links t) (l : Link) :
    Relates base rows b (links ++ [l]) t :=
  { h with
    stored := fun r hr => (h.stored r hr).imp id fun ⟨hid, hrow⟩ => ⟨hid, hrow.imp
      (fun ⟨k, hk, hr⟩ => ⟨k, List.mem_append_left _ hk, hr⟩) id⟩ }

theorem Linked.insertRelationProperty (h : Linked base rows b links t) {r : PropertyRow}
    (h0 : r.id ≠ 0) (ht : t.insertRelationProperty r = some t') : Linked base rows b links t' := by
  have hreach := h.reachable.addRelationProperty r h0 ht
  obtain ⟨-, rfl⟩ := insertRelationProperty_eq ht
  exact ⟨⟨hreach, h.objects, h.next, h.kept, h.stored⟩, h.joined⟩

/-- The relation of a link is stored, however often its statement is executed. -/
theorem Linked.addRelation {srv : Server} {w : World} (h : Linked base rows b links w.store)
    {f o id : ℕ} {type : ℤ} (hok : (srv.addRelation f o type w).1.1.IsOk)
    (hid : (srv.addRelation f o type w).1.2 = some id) :
    Pending base rows b links ⟨f, o, type⟩ id (srv.addRelation f o type w).2.store := by
  let I (t : Store) : Prop :=
    Relates base rows b (links ++ [⟨f, o, type⟩]) t ∧ ∀ k ∈ links, InBundle t b k
  have hI : ∀ t, f ≠ 0 → o ≠ 0 → EnsureRType type → I t → I (t.insertRelation f o type) :=
    fun t hf ho ht h => ⟨h.1.insertRelation hf ho ht (Or.inl (by simp)), fun k hk =>
      (h.2 k hk).mono fun r hr => List.mem_append_left _ hr⟩
  have hstart : I w.store := ⟨h.concat _, h.joined⟩
  obtain ⟨hrelates, hjoined⟩ : I (srv.addRelation f o type w).2.store :=
    addRelation_keeps hI hstart
  have hnew : base.nextRelation ≤ id := addRelation_value
    (fun t hf ho ht h => ⟨hI t hf ho ht h, h.1.next⟩) hstart id hid
  obtain ⟨id', hid', hrow⟩ := addRelation_adds hok
  obtain rfl : id' = id := Option.some.inj (hid'.symm.trans hid)
  exact ⟨hrelates, hjoined, hnew, hrow⟩

theorem Pending.addMembership {srv : Server} {w : World} {id : ℕ}
    (h : Pending base rows b links l id w.store)
    (hok : (srv.addRelation b id bundleRelation w).1.1.IsOk) :
    Linked base rows b (links ++ [l]) (srv.addRelation b id bundleRelation w).2.store := by
  let I (t : Store) : Prop := Pending base rows b links l id t
  have hI : ∀ t, b ≠ 0 → id ≠ 0 → EnsureRType bundleRelation → I t →
      I (t.insertRelation b id bundleRelation) := fun t hb h0 ht h =>
    ⟨h.insertRelation hb h0 ht (Or.inr ⟨rfl, h.new, rfl⟩), fun k hk =>
      (h.joined k hk).mono fun r hr => List.mem_append_left _ hr, h.new,
      List.mem_append_left _ h.row⟩
  have hlast : Pending base rows b links l id (srv.addRelation b id bundleRelation w).2.store :=
    addRelation_keeps (I := I) hI h
  obtain ⟨mid, -, hmember⟩ := addRelation_adds hok
  have hin : linkRow id l ∈
      (srv.addRelation b id bundleRelation w).2.store.bundleRelations b :=
    mem_bundleRelations.mpr ⟨hlast.row, _, hmember, rfl, rfl, rfl⟩
  refine ⟨hlast.toRelates, fun k hk => ?_⟩
  rcases List.mem_append.mp hk with hk | hk
  · exact hlast.joined k hk
  · rw [List.mem_singleton.mp hk]
    exact ⟨_, hin, rfl, rfl, rfl⟩

theorem Linked.inBundle_iff (hbase : base.Valid) (h : Linked base rows b links t)
    (hlinks : ∀ l ∈ links, l.type ≠ bundleRelation) (hl : l.type ≠ bundleRelation) :
    InBundle t b l ↔ InBundle base b l ∨ l ∈ links := by
  constructor
  · rintro ⟨r, hr, hf, ho, htype⟩
    obtain ⟨hr, m, hm, hmf, hmt, hmo⟩ := mem_bundleRelations.mp hr
    rcases h.stored r hr with hr | ⟨-, ⟨k, hk, hrow⟩ | ⟨id, -, hrow⟩⟩
    · have hlt := hbase.relation_bound r hr
      left
      rcases h.stored m hm with hm | ⟨-, ⟨k, hk, hrow⟩ | ⟨id, hid, hrow⟩⟩
      · exact ⟨r, mem_bundleRelations.mpr ⟨hr, m, hm, hmf, hmt, hmo⟩, hf, ho, htype⟩
      · rw [hrow] at hmt
        exact absurd (Option.some.inj hmt) (hlinks k hk)
      · rw [hrow] at hmo
        have heq : id = r.id := Option.some.inj hmo
        omega
    · right
      rw [hrow] at hf ho htype
      have hkl : k = l := by
        rcases k with ⟨f', o', type'⟩
        cases hf
        cases ho
        cases htype
        rfl
      exact hkl ▸ hk
    · rw [hrow] at htype
      exact absurd (Option.some.inj htype).symm hl
  · rintro (hold | hnew)
    · exact hold.mono h.kept
    · exact h.joined l hnew

end Rows

def endId (keys : List ObjectKey) (created : List CreatedObject) (externObjF : Bool)
    (record : Json) (key : String) (type : ℤ) : Option ℕ :=
  match (record.find key).bind Json.getString with
  | none => none
  | some n =>
    match created.find? fun c => c.name = n with
    | some k => some k.id
    | none => if externObjF then lookupKeys keys n type else none

/-- The link of a record whose ends are both found. -/
def recordLink (keys : List ObjectKey) (created : List CreatedObject) (externObjF : Bool)
    (r : ProvRelationData × (String × Json)) : List Link :=
  match endId keys created externObjF r.2.2 r.1.sourceStr r.1.sourceT,
    endId keys created externObjF r.2.2 r.1.destStr r.1.destT with
  | some f, some o => [⟨f, o, r.1.type⟩]
  | _, _ => []

section Importer

variable {srv : Server} {base : Store} {rows : List ObjectRow} {b : ℕ}
  {links : List Link} {created : List CreatedObject} {tbl : LookupTable} {keys : List ObjectKey}
  {externObjF : Bool}
  (hrows : InOrder rows)
  (hkeys : rows.map keyOf = keys) (htbl : Registers created tbl)

include hrows hkeys htbl

theorem ensures_importEndpoint_endId (record : Json) (key : String) (type : ℤ) :
    Ensures (Linked base rows b links) (importEndpoint srv tbl externObjF record key type)
      fun id t => Linked base rows b links t ∧
        endId keys created externObjF record key type = some id := by
  refine ensures_conseq (ensures_importEndpoint_value externObjF record key type)
    (fun _ h => h) ?_
  rintro id t ⟨ht, n, hn, hid⟩
  refine ⟨ht, ?_⟩
  have htable := htbl n
  rw [endId, hn]
  simp only [Option.bind_some, Json.getString]
  rcases hid with hid | ⟨hnone, hflag, calls, hid⟩
  · rw [hid] at htable
    obtain ⟨k, hk, rfl⟩ := Option.map_eq_some_iff.mp htable.symm
    simp only [hk]
  · rw [hnone] at htable
    simp only [Option.map_eq_none_iff.mp htable.symm]
    rw [if_pos hflag]
    exact lookupKeys_of_lookupObject (ht.objects ▸ hkeys) (ht.objects ▸ hrows) hid

theorem ensures_importRelation_link (d : ProvRelationData) (e : String × Json) :
    Ensures (Linked base rows b links) (importRelation srv b tbl externObjF d e)
      fun _ => Linked base rows b (links ++ recordLink keys created externObjF (d, e)) := by
  refine ensures_bind (ensures_importEndpoint_endId hrows hkeys htbl _ _ _) fun f => ?_
  refine ensures_bind (Q := fun o t => Linked base rows b links t ∧
    recordLink keys created externObjF (d, e) = [⟨f, o, d.type⟩]) ?_ fun o => ?_
  · refine ensures_conseq (ensures_frame (ensures_importEndpoint_endId hrows hkeys htbl
      e.2 d.destStr d.destT)) (fun _ h => h) fun o t h => ⟨h.1.1, ?_⟩
    simp only [recordLink, h.1.2, h.2]
  refine ensures_bind (Q := fun id t => Pending base rows b links ⟨f, o, d.type⟩ id t ∧
    recordLink keys created externObjF (d, e) = [⟨f, o, d.type⟩]) ?_ fun id => ?_
  · exact ensures_requireId fun w hw hok id hid => ⟨hw.1.addRelation hok hid, hw.2⟩
  refine ensures_bind (Q := fun _ => Linked base rows b
    (links ++ recordLink keys created externObjF (d, e))) ?_ fun _ => ?_
  · refine ensures_requireOk fun w hw hok => ?_
    rw [hw.2]
    exact hw.1.addMembership hok
  · refine ensures_ite (fun _ => ?_) fun _ => ensures_pure fun t ht => ht
    exact ensures_of_keeps (keeps_importProperties (relationWriter_keeps
      fun t t' r hr h0 _ he h => h.insertRelationProperty (hr ▸ h0) he) e.2)

theorem ensures_importRelationsJson_links (document : Json) :
    Ensures (Linked base rows b links) (importRelationsJson srv b tbl document externObjF)
      fun _ => Linked base rows b
        (links ++ (documentRecords document).flatMap (recordLink keys created externObjF)) := by
  let link := recordLink keys created externObjF
  have section_links : ∀ links d, Ensures (Linked base rows b links)
      (importRelationSection srv b tbl document externObjF d) fun _ => Linked base rows b
        (links ++ ((records document d).map fun e => (d, e)).flatMap link) := by
    intro links d
    have h : Ensures (Linked base rows b
        (links ++ (([] : List (String × Json)).map fun e => (d, e)).flatMap link))
        (forEach (importRelation srv b tbl externObjF d) (document.membersAt d.typeStr))
        fun _ => Linked base rows b
          (links ++ ((records document d).map fun e => (d, e)).flatMap link) :=
      ensures_forEach (I := fun done => Linked base rows b
        (links ++ (done.map fun e => (d, e)).flatMap link)) fun done e => by
          rw [List.map_append, List.flatMap_append, ← List.append_assoc, List.map_singleton,
            List.flatMap_singleton]
          exact ensures_importRelation_link hrows hkeys htbl d e
    rw [importRelationSection_eq]
    exact ensures_ite (fun _ => by simpa using h) fun _ => ensures_leave
  have h : Ensures (Linked base rows b (links ++ (([] : List ProvRelationData).flatMap fun d =>
      (records document d).map fun e => (d, e)).flatMap link))
      (importRelationsJson srv b tbl document externObjF) fun _ => Linked base rows b
        (links ++ (documentRecords document).flatMap link) :=
    ensures_forEach (I := fun done => Linked base rows b (links ++ (done.flatMap fun d =>
      (records document d).map fun e => (d, e)).flatMap link)) fun done d => by
        rw [List.flatMap_append, List.flatMap_append, ← List.append_assoc,
          List.flatMap_singleton]
        exact section_links _ d
  simpa using h

end Importer

end BundleLinks
