import ProvCpl.BundleMembers
import ProvCpl.ImportChecks

/-! # The objects in the store once those of a document are imported

When no statement fails, the bundle and then the members of the document get the next ids, in
the order in which the sections are imported. A name is looked up among the rows stored before,
that of the bundle and those of the members; the youngest of those that answer is the last. -/
namespace ImportedObjects

open CplTypes QualifiedName JsonValue ProvStore ProvServer ServerSpecs ImportDocument
open ImportFrame ImportAccepts ImportGraph BundleMembers EarlyExit

structure ObjectKey where
  id : ℕ
  nsPrefix : Option String
  name : Option String
  type : Option ℤ
  deriving DecidableEq, Repr

def keyOf (r : ObjectRow) : ObjectKey := ⟨r.id, r.nsPrefix, r.name, r.type⟩

def bundleKey (id : ℕ) (bundleName : String) : ObjectKey :=
  ⟨id, some (cStr bundleName), some "", some cplBundle⟩

def memberKey (k : CreatedObject) : ObjectKey :=
  ⟨k.id, some (cStr (nameToTokens k.name).1), some (cStr (nameToTokens k.name).2), some k.type⟩

def numbered (n : ℕ) (decl : List (ℤ × String)) : List CreatedObject :=
  decl.mapIdx fun i d => ⟨d.1, d.2, n + i⟩

theorem numbered_concat (n : ℕ) (decl : List (ℤ × String)) (d : ℤ × String) :
    numbered n (decl ++ [d]) = numbered n decl ++ [⟨d.1, d.2, n + decl.length⟩] :=
  List.mapIdx_concat

theorem numbered_origins (n : ℕ) (decl : List (ℤ × String)) :
    (numbered n decl).map CreatedObject.origin = decl := by
  apply List.ext_getElem
  · simp [numbered]
  · intro i h h'
    simp [numbered, CreatedObject.origin]

theorem numbered_ids {n : ℕ} {decl : List (ℤ × String)} {k : CreatedObject}
    (hk : k ∈ numbered n decl) : n ≤ k.id := by
  obtain ⟨i, _, rfl⟩ := List.mem_mapIdx.mp hk
  exact Nat.le_add_right n i

theorem numbered_inj {n : ℕ} {decl : List (ℤ × String)} {k c : CreatedObject}
    (hk : k ∈ numbered n decl) (hc : c ∈ numbered n decl) (h : k.id = c.id) : k = c := by
  obtain ⟨i, hi, rfl⟩ := List.mem_mapIdx.mp hk
  obtain ⟨j, hj, rfl⟩ := List.mem_mapIdx.mp hc
  obtain rfl : i = j := Nat.add_left_cancel h
  rfl

def keysAfter (base : Store) (bundleName : String) (decl : List (ℤ × String)) :
    List ObjectKey :=
  base.objects.map keyOf ++ bundleKey base.nextObject bundleName ::
    (numbered (base.nextObject + 1) decl).map memberKey

theorem keysAfter_concat (base : Store) (bundleName : String) (decl : List (ℤ × String))
    (d : ℤ × String) : keysAfter base bundleName (decl ++ [d]) =
      keysAfter base bundleName decl ++
        [memberKey ⟨d.1, d.2, base.nextObject + 1 + decl.length⟩] := by
  simp [keysAfter, numbered_concat]

/-- The object is found under the name of a document. -/
def ObjectKey.Answers (name : String) (type : ℤ) (k : ObjectKey) : Prop :=
  k.nsPrefix = some (cStr (nameToTokens name).1) ∧
    k.name = some (cStr (nameToTokens name).2) ∧ (type ≠ 0 → k.type = some type)

instance (name : String) (type : ℤ) : DecidablePred (ObjectKey.Answers name type) :=
  fun _ => inferInstanceAs (Decidable (_ ∧ _ ∧ _))

def lookupKeys (keys : List ObjectKey) (name : String) (type : ℤ) : Option ℕ :=
  ((keys.filter fun k => k.Answers name type).getLast?).map (·.id)

def InOrder (rows : List ObjectRow) : Prop :=
  rows.Pairwise fun q r => q.creationTime < r.creationTime

instance (rows : List ObjectRow) : Decidable (InOrder rows) :=
  inferInstanceAs (Decidable (List.Pairwise _ _))

/-- No object was stored twice by one creation: no statement is executed twice, or the creation
times tell the objects apart. -/
def Once (srv : Server) (t : Store) : Prop :=
  (∀ n, (srv.outcome n).lost = 0) ∨ InOrder t.objects

structure Unrelated (base t : Store) : Prop where
  reachable : t.Reachable
  relations : t.relations = base.relations
  nextRelation : t.nextRelation = base.nextRelation

structure Stocked (srv : Server) (base : Store) (bundleName : String) (decl : List (ℤ × String))
    (t : Store) : Prop extends Unrelated base t where
  keys : Once srv t → t.objects.map keyOf = keysAfter base bundleName decl
  nextObject : Once srv t → t.nextObject = base.nextObject + 1 + decl.length

structure Tabled (srv : Server) (base : Store) (bundleName : String) (decl : List (ℤ × String))
    (tbl : LookupTable) (t : Store) : Prop extends Stocked srv base bundleName decl t where
  table : Once srv t → Registers (numbered (base.nextObject + 1) decl) tbl

theorem Once.of_reliable {srv : Server} (hsrv : Reliable srv) (t : Store) : Once srv t :=
  Or.inl fun n => congrArg Outcome.lost (hsrv.succeeds n)

theorem objectClosed_unrelated (base : Store) : ObjectClosed (Unrelated base) 0 where
  next := fun _ _ => Nat.zero_le _
  object := fun _ p n t now ht h =>
    ⟨.createObject p n t now ht h.reachable, h.relations, h.nextRelation⟩
  objectProperty := fun _ _ r _ h0 _ he h => by
    have hreach := h.reachable.addObjectProperty r h0 he
    obtain ⟨-, rfl⟩ := insertObjectProperty_eq he
    exact ⟨hreach, h.relations, h.nextRelation⟩
  prefixRow := fun _ _ r _ h0 he h => by
    have hreach := h.reachable.addPrefix r h0 he
    obtain ⟨-, rfl⟩ := insertPrefix_eq he
    exact ⟨hreach, h.relations, h.nextRelation⟩

def IfOnce (srv : Server) (p : Prop) (t : Store) : Prop := Once srv t → p

theorem objectClosed_ifOnce (srv : Server) (p : Prop) : ObjectClosed (IfOnce srv p) 0 where
  next := fun _ _ => Nat.zero_le _
  object := fun _ _ _ _ _ _ h honce =>
    h (honce.imp id fun hrows => (List.pairwise_append.mp hrows).1)
  objectProperty := fun _ _ _ _ _ _ he h => by
    obtain ⟨-, rfl⟩ := insertObjectProperty_eq he
    exact h
  prefixRow := fun _ _ _ _ _ he h => by
    obtain ⟨-, rfl⟩ := insertPrefix_eq he
    exact h

theorem replay_succ {α : Type} (stmt : Store → Option (α × Store)) (n : ℕ) :
    ∀ s, replay stmt (n + 1) s =
      ((stmt (replay stmt n s)).map Prod.snd).getD (replay stmt n s) := by
  induction n with
  | zero => exact fun s => rfl
  | succ n ih => exact fun s => ih _

section Stage

variable {srv : Server} {base : Store} {bundleName : String} {decl : List (ℤ × String)}

/-- A creation that is executed twice stores two objects of one time. -/
theorem createObject_once {p n : String} {type : ℤ} {w : World}
    (hok : (srv.createObject (some p) (some n) type w).1.1.IsOk)
    (honce : Once srv (srv.createObject (some p) (some n) type w).2.store) :
    Once srv w.store ∧
      (srv.createObject (some p) (some n) type w).1.2 = some w.store.nextObject ∧
      (srv.createObject (some p) (some n) type w).2.store =
        w.store.insertObject p n type (srv.clock w.calls) := by
  obtain ⟨-, -, hid, hstore⟩ := createObject_ok hok
  cases hlost : (srv.outcome w.calls).lost with
  | zero =>
    rw [hlost] at hid hstore
    rw [hstore] at honce
    exact ⟨honce.imp id fun h => (List.pairwise_append.mp h).1, hid, hstore⟩
  | succ k =>
    rw [hlost, replay_succ] at hstore
    rw [hstore] at honce
    rcases honce with hnone | hrows
    · rw [hnone] at hlost
      cases hlost
    · have hlast := (List.pairwise_append.mp hrows).2.2 _
        (List.mem_append_right _ (List.mem_singleton_self _)) _ (List.mem_singleton_self _)
      exact absurd hlast (Nat.lt_irrefl _)

theorem Unrelated.createObject {w : World} (h : Unrelated base w.store) (p n : String) (type : ℤ) :
    Unrelated base (srv.createObject (some p) (some n) type w).2.store :=
  createObject_keeps (fun s p n now ht hs => (objectClosed_unrelated base).object s p n type now
    ht hs) h

theorem Stocked.insertObjectProperty {t t' : Store} (h : Stocked srv base bundleName decl t)
    {r : PropertyRow} (h0 : r.id ≠ 0) (ht : t.insertObjectProperty r = some t') :
    Stocked srv base bundleName decl t' := by
  have hreach := h.reachable.addObjectProperty r h0 ht
  obtain ⟨-, rfl⟩ := insertObjectProperty_eq ht
  exact ⟨⟨hreach, h.relations, h.nextRelation⟩, h.keys, h.nextObject⟩

theorem Stocked.insertPrefix {t t' : Store} (h : Stocked srv base bundleName decl t)
    {r : PrefixRow} (h0 : r.id ≠ 0) (ht : t.insertPrefix r = some t') :
    Stocked srv base bundleName decl t' := by
  have hreach := h.reachable.addPrefix r h0 ht
  obtain ⟨-, rfl⟩ := insertPrefix_eq ht
  exact ⟨⟨hreach, h.relations, h.nextRelation⟩, h.keys, h.nextObject⟩

theorem ensures_createBundle (hreach : base.Reachable) :
    Ensures (· = base)
      (requireId (srv.createObject (some (cStr bundleName)) (some "") cplBundle))
      fun b t => Stocked srv base bundleName [] t ∧ IfOnce srv (b = base.nextObject) t := by
  refine ensures_requireId fun w hw hok id hid => ?_
  have hstart : Unrelated base w.store := by
    rw [hw]
    exact ⟨hreach, rfl, rfl⟩
  refine ⟨⟨hstart.createObject _ _ _, fun honce => ?_, fun honce => ?_⟩, fun honce => ?_⟩
  · obtain ⟨-, -, hstore⟩ := createObject_once hok honce
    rw [hstore, hw]
    simp [keysAfter, numbered, Store.insertObject, keyOf, bundleKey]
  · obtain ⟨-, -, hstore⟩ := createObject_once hok honce
    rw [hstore, hw]
    rfl
  · obtain ⟨-, hnext, -⟩ := createObject_once hok honce
    rw [hid, hw] at hnext
    exact Option.some.inj hnext

theorem ensures_createMember {p : Prop} (type : ℤ) (n : String) :
    Ensures (fun t => Stocked srv base bundleName decl t ∧ IfOnce srv p t)
      (requireId (srv.createObject (some (cStr (nameToTokens n).1))
        (some (cStr (nameToTokens n).2)) type))
      fun id t => Stocked srv base bundleName (decl ++ [(type, n)]) t ∧
        IfOnce srv (p ∧ id = base.nextObject + 1 + decl.length) t := by
  refine ensures_requireId fun w hw hok id hid => ?_
  obtain ⟨hw, hp⟩ := hw
  refine ⟨⟨hw.toUnrelated.createObject _ _ _, fun honce => ?_, fun honce => ?_⟩, fun honce => ?_⟩
  · obtain ⟨hbefore, -, hstore⟩ := createObject_once hok honce
    rw [hstore, keysAfter_concat, ← hw.keys hbefore, ← hw.nextObject hbefore]
    simp [Store.insertObject, keyOf, memberKey]
  · obtain ⟨hbefore, -, hstore⟩ := createObject_once hok honce
    rw [hstore, List.length_append, List.length_singleton, ← Nat.add_assoc,
      ← hw.nextObject hbefore]
    rfl
  · obtain ⟨hbefore, hnext, -⟩ := createObject_once hok honce
    rw [hid, hw.nextObject hbefore] at hnext
    exact ⟨hp hbefore, Option.some.inj hnext⟩

theorem ensures_importObject_tabled {tbl : LookupTable} (type : ℤ) (e : String × Json) :
    Ensures (Tabled srv base bundleName decl tbl) (importObject srv type tbl e)
      (Tabled srv base bundleName (decl ++ [(type, e.1)])) := by
  let known (i : ℕ) : Prop := Registers (numbered (base.nextObject + 1) decl) tbl ∧
    i = base.nextObject + 1 + decl.length
  refine ensures_bind (ensures_conseq (ensures_createMember type e.1)
    (fun t ht => ⟨ht.toStocked, ht.table⟩) fun _ _ h => h) fun i => ?_
  have hwriter : WriterKeeps (fun t => Stocked srv base bundleName (decl ++ [(type, e.1)]) t ∧
      IfOnce srv (known i) t) (objectWriter srv) i := objectWriter_keeps fun t t' r hr h0 hw he h =>
    ⟨h.1.insertObjectProperty (hr ▸ h0) he, (objectClosed_ifOnce srv (known i)).objectProperty t t'
      r (Nat.zero_le _) (hr ▸ h0) hw he h.2⟩
  refine ensures_bind (ensures_of_keeps (keeps_importProperties hwriter e.2)) fun _ => ?_
  refine ensures_pure fun t ht => ⟨ht.1, fun honce => ?_⟩
  obtain ⟨htbl, rfl⟩ := ht.2 honce
  rw [numbered_concat]
  exact htbl.emplace ⟨type, e.1, _⟩

theorem ensures_importObjectsJson_tabled {tbl : LookupTable} (u : ℤ × String) (document : Json) :
    Ensures (Tabled srv base bundleName decl tbl) (importObjectsJson srv u.1 u.2 tbl document)
      (Tabled srv base bundleName
        (decl ++ (document.membersAt u.2).map fun e => (u.1, e.1))) := by
  have h : Ensures (Tabled srv base bundleName
      (decl ++ ([] : List (String × Json)).map fun e => (u.1, e.1)) tbl)
      (fold (importObject srv u.1) tbl (document.membersAt u.2))
      (Tabled srv base bundleName (decl ++ (document.membersAt u.2).map fun e => (u.1, e.1))) :=
    triple_fold (I := fun (done : List (String × Json)) tbl (w : World) =>
      Tabled srv base bundleName (decl ++ done.map fun e => (u.1, e.1)) tbl w.store)
      fun done e tbl _ => by
        rw [List.map_append, List.map_singleton, ← List.append_assoc]
        exact ensures_importObject_tabled u.1 e
  rw [importObjectsJson_eq]
  exact ensures_ite (fun _ => by simpa using h) fun _ => ensures_leave

theorem tabled_objectStage (hreach : base.Reachable) (document : Json) (bundleName : String) :
    Triple (fun w => w.store = base) (objectStage srv document bundleName)
      (fun out w => IfOnce srv (out.1 = base.nextObject) w.store ∧
        Tabled srv base bundleName (declared document) out.2 w.store)
      fun _ w => Unrelated base w.store := by
  have hkeeps : Keeps (Unrelated base) (objectStage srv document bundleName) fun _ => True :=
    maintains_weaken (keeps_objectStage (objectClosed_unrelated base) document bundleName)
      fun _ _ => trivial
  have hensures : Ensures (· = base) (objectStage srv document bundleName)
      fun out t => IfOnce srv (out.1 = base.nextObject) t ∧
        Tabled srv base bundleName (declared document) out.2 t := by
    refine ensures_bind (ensures_createBundle hreach) fun b => ?_
    let known := b = base.nextObject
    have hclosed := objectClosed_ifOnce srv known
    have hprefixes : Keeps (fun t => Stocked srv base bundleName [] t ∧ IfOnce srv known t)
        (importBundlePrefixesJson srv b document) fun _ => True :=
      keeps_importBundlePrefixesJson (fun t t' r _ h0 he h => ⟨h.1.insertPrefix h0 he,
        hclosed.prefixRow t t' r (Nat.zero_le _) h0 he h.2⟩) document
    have hsection : ∀ decl tbl (u : ℤ × String), Ensures
        (fun t => Tabled srv base bundleName decl tbl t ∧ IfOnce srv known t)
        (importObjectsJson srv u.1 u.2 tbl document)
        fun tbl' t => Tabled srv base bundleName
          (decl ++ (document.membersAt u.2).map fun e => (u.1, e.1)) tbl' t ∧
          IfOnce srv known t := fun decl tbl u =>
      triple_conseq (triple_conj (ensures_importObjectsJson_tabled u document)
        (keeps_importObjectsJson hclosed u.1 u.2 tbl document)) (fun _ hw => hw)
        (fun _ _ hw => ⟨hw.1, hw.2.1⟩) fun _ _ _ => trivial
    refine ensures_bind (ensures_of_keeps hprefixes) fun _ => ?_
    refine ensures_bind (ensures_conseq (hsection [] [] (cplEntity, cplEntityStr))
      (fun t ht => ⟨⟨ht.1, fun _ n => rfl⟩, ht.2⟩) fun _ _ h => h) fun tbl1 => ?_
    refine ensures_bind (hsection _ tbl1 (cplAgent, cplAgentStr)) fun tbl2 => ?_
    refine ensures_bind (hsection _ tbl2 (cplActivity, cplActivityStr)) fun tbl3 => ?_
    exact ensures_pure fun t ht => ⟨ht.2, by simpa [declared, objectSections] using ht.1⟩
  refine triple_conseq (triple_conj hensures hkeeps) ?_ (fun _ _ hw => hw.1) fun _ _ hw => hw.2
  intro w hw
  rw [hw]
  exact ⟨rfl, hreach, rfl, rfl⟩

end Stage

def IsNew (s t : Store) (id : ℕ) : Prop := s.nextObject ≤ id ∧ id ∈ t.objects.map (·.id)

section Lookups

variable {srv : Server} {name : String} {t : Store} {keys : List ObjectKey} {type : ℤ}

/-- The objects found in the store are those found among the keys. -/
theorem objectsNamed_keys (hkeys : t.objects.map keyOf = keys) :
    (t.objectsNamed (cStr (nameToTokens name).1) (cStr (nameToTokens name).2) type).map keyOf =
      keys.filter fun k => k.Answers name type := by
  rw [← hkeys, List.filter_map]
  rfl

theorem objectsNamed_ne_nil_iff (hkeys : t.objects.map keyOf = keys) :
    t.objectsNamed (cStr (nameToTokens name).1) (cStr (nameToTokens name).2) type ≠ [] ↔
      ∃ k ∈ keys, k.Answers name type := by
  rw [ne_eq, ← List.map_eq_nil_iff (f := keyOf), objectsNamed_keys hkeys, List.filter_eq_nil_iff]
  simp

theorem latest_of_sorted {rows l : List ObjectRow}
    (hrows : InOrder rows) (hl : l.Perm rows) :
    latest l = rows.getLast? := by
  rcases List.eq_nil_or_concat' rows with rfl | ⟨older, r, rfl⟩
  · rw [List.perm_nil.mp hl]
    rfl
  · rw [List.getLast?_concat]
    have hr : r ∈ l := hl.mem_iff.mpr (by simp)
    cases hq : latest l with
    | none =>
      rw [List.argmax_eq_none.mp hq] at hr
      cases hr
    | some q =>
      have hle : r.creationTime ≤ q.creationTime := List.le_of_mem_argmax hr hq
      have hmem : q ∈ older ++ [r] := hl.mem_iff.mp (List.argmax_mem hq)
      rcases List.mem_append.mp hmem with hold | hnew
      · have hlt := (List.pairwise_append.mp hrows).2.2 q hold r (List.mem_singleton_self r)
        omega
      · rw [List.mem_singleton.mp hnew]

theorem lookupObject_keys (name : String) (type : ℤ) (hattached : srv.attached = true)
    (hkeys : t.objects.map keyOf = keys)
    (hrows : InOrder t.objects) {calls : ℕ}
    (hanswered : (srv.outcome calls).failure = none) :
    let out := (srv.lookupObject (some (cStr (nameToTokens name).1))
      (some (cStr (nameToTokens name).2)) type ⟨t, calls⟩).1
    out.2 = lookupKeys keys name type ∧ (out.1.IsOk ↔ (lookupKeys keys name type).isSome) := by
  let rows := t.objectsNamed (cStr (nameToTokens name).1) (cStr (nameToTokens name).2) type
  have hsorted : InOrder rows := List.Pairwise.filter _ hrows
  have hlatest : latest (srv.scan calls rows) = rows.getLast? :=
    latest_of_sorted hsorted (srv.scan_perm _ _)
  have hfound : lookupKeys keys name type = rows.getLast?.map (·.id) := by
    rw [lookupKeys, ← objectsNamed_keys hkeys, List.getLast?_map, Option.map_map]
    rfl
  simp only [Server.lookupObject, Server.ensureInitialized, hattached, if_true, cplLookupObject,
    Server.cplOdbcLookupObject, Server.query, hanswered]
  rw [hlatest, hfound]
  cases rows.getLast? <;> simp

theorem lookupKeys_of_lookupObject {id : ℕ} (hkeys : t.objects.map keyOf = keys)
    (hrows : InOrder t.objects) {calls : ℕ}
    (hid : (srv.lookupObject (some (cStr (nameToTokens name).1))
      (some (cStr (nameToTokens name).2)) type ⟨t, calls⟩).1.2 = some id) :
    lookupKeys keys name type = some id := by
  obtain ⟨hattached, hanswered⟩ := lookupObject_answered hid
  rw [← (lookupObject_keys name type hattached hkeys hrows hanswered).1, hid]

end Lookups

end ImportedObjects
