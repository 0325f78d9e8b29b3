import ProvCpl.EventTrace
import ProvCpl.ServerSpecs

/-! # Relations listed by an object

A run of object and relation creations is kept with what its callers know: the returned id and
the arguments of each relation. Listing by the target of a relation does not look at the type,
and the target of a bundle membership is a relation id. -/
namespace ObjectRelations

open CplTypes ProvStore ProvServer ServerSpecs EarlyExit EventTrace

inductive Op where
  | createObject (nsPrefix name : String) (type : ℤ)
  | addRelation (fromId toId : ℕ) (type : ℤ)
  deriving DecidableEq, Repr

structure Added where
  id : ℕ
  fromId : ℕ
  toId : ℕ
  type : ℤ
  deriving DecidableEq, Repr

structure History where
  world : World
  added : List Added

def IsObject (s : Store) (id : ℕ) : Prop := id ≠ 0 ∧ ∃ r ∈ s.objects, r.id = id

def IsBundle (s : Store) (id : ℕ) : Prop :=
  id ≠ 0 ∧ ∃ r ∈ s.objects, r.id = id ∧ r.type = some cplBundle

def IsRelation (s : Store) (id : ℕ) : Prop := id ≠ 0 ∧ ∃ r ∈ s.relations, r.id = id

def IsGraphObject (s : Store) (id : ℕ) : Prop :=
  ∃ r ∈ s.objects, r.id = id ∧
    (r.type = some cplEntity ∨ r.type = some cplAgent ∨ r.type = some cplActivity)

/-- What tests and the importer pass: objects to a relation, a bundle and a relation to a
membership. -/
def Op.Legal (s : Store) : Op → Prop
  | .createObject _ _ type => EnsureOType type
  | .addRelation fromId toId type => EnsureRType type ∧
      if type = bundleRelation then IsBundle s fromId ∧ IsRelation s toId
      else IsObject s fromId ∧ IsObject s toId

section Decidable

variable (s : Store) (id : ℕ)

instance : Decidable (IsObject s id) := inferInstanceAs (Decidable (_ ∧ _))
instance : Decidable (IsBundle s id) := inferInstanceAs (Decidable (_ ∧ _))
instance : Decidable (IsRelation s id) := inferInstanceAs (Decidable (_ ∧ _))
instance : Decidable (IsGraphObject s id) :=
  inferInstanceAs (Decidable (∃ r ∈ s.objects, _ ∧ (_ ∨ _ ∨ _)))

instance : (op : Op) → Decidable (op.Legal s)
  | .createObject _ _ type => inferInstanceAs (Decidable (EnsureOType type))
  | .addRelation fromId toId type => inferInstanceAs (Decidable (EnsureRType type ∧
      if type = bundleRelation then IsBundle s fromId ∧ IsRelation s toId
      else IsObject s fromId ∧ IsObject s toId))

end Decidable

def Op.perform (srv : Server) : Op → Call World (Option Added)
  | .createObject p n type => fun w => (none, (srv.createObject (some p) (some n) type w).2)
  | .addRelation f o type => fun w =>
      (((srv.addRelation f o type w).1.2).map fun id => ⟨id, f, o, type⟩,
        (srv.addRelation f o type w).2)

def History.step (srv : Server) (h : History) (op : Op) : History :=
  ⟨(op.perform srv h.world).2, h.added ++ (op.perform srv h.world).1.toList⟩

def History.start (calls : ℕ) : History := ⟨⟨Store.fresh, calls⟩, []⟩

def runOps (srv : Server) (h : History) (ops : List Op) : History :=
  runTrace (History.step srv) h ops

def LegalRun (srv : Server) (h : History) (ops : List Op) : Prop :=
  EachStep (History.step srv) (fun (h : History) (op : Op) => op.Legal h.world.store) h ops

instance (srv : Server) (h : History) (ops : List Op) : Decidable (LegalRun srv h ops) :=
  inferInstanceAs (Decidable
    (EachStep _ (fun (h : History) (op : Op) => op.Legal h.world.store) _ _))

/-- What a listing is to report: the relations with the object at one end, memberships aside. -/
def expected (h : History) (endAt otherAt : Added → ℕ) (o : ℕ) : List RelationEntry :=
  (h.added.filter fun a => a.type ≠ bundleRelation ∧ endAt a = o).map fun a =>
    ⟨a.id, o, otherAt a, a.type⟩

def Lists (srv : Server) (w : World) (o : ℕ) (direction : ℤ) (es : List RelationEntry) : Prop :=
  ∃ out w', srv.getObjectRelations o direction w = ((.ok, out), w') ∧ out.Perm es

def Exact (srv : Server) (h : History) (o : ℕ) : Prop :=
  Lists srv h.world o cplDAncestors (expected h (·.fromId) (·.toId) o) ∧
    Lists srv h.world o cplDDescendants (expected h (·.toId) (·.fromId) o)

def NoCollision (h : History) : Prop :=
  ∀ a ∈ h.added, a.type = bundleRelation → ¬ IsGraphObject h.world.store a.toId

instance (h : History) : Decidable (NoCollision h) :=
  inferInstanceAs (Decidable (∀ a ∈ h.added, _ → ¬ _))

def Added.row (a : Added) : RelationRow := ⟨a.id, some a.fromId, some a.toId, some a.type⟩

structure Invariant (h : History) : Prop where
  valid : h.world.store.Valid
  reserved : ∀ r ∈ h.world.store.objects, r.id = 0 → r.type = none
  rows : h.world.store.relations = ⟨0, none, none, none⟩ :: h.added.map Added.row
  members : ∀ a ∈ h.added, a.type = bundleRelation → IsBundle h.world.store a.fromId

theorem invariant_start (calls : ℕ) : Invariant (History.start calls) where
  valid := Store.valid_fresh
  reserved := by simp [History.start, Store.fresh]
  rows := rfl
  members := by simp [History.start]

theorem invariant_step {srv : Server} (hsrv : Reliable srv) {h : History} (hi : Invariant h)
    {op : Op} (hl : op.Legal h.world.store) : Invariant (h.step srv op) := by
  cases op with
  | createObject p n type =>
    simp only [History.step, Op.perform, createObject_reliable hsrv p n hl, Option.toList_none,
      List.append_nil]
    refine ⟨hi.valid.insertObject p n type _, fun r hr hid => ?_, hi.rows, fun a ha hb => ?_⟩
    · rcases List.mem_append.mp hr with hr | hr
      · exact hi.reserved r hr hid
      · rw [List.mem_singleton.mp hr] at hid
        exact absurd hid (Nat.pos_iff_ne_zero.mp hi.valid.next_object)
    · obtain ⟨h0, r, hr, hid⟩ := hi.members a ha hb
      exact ⟨h0, r, List.mem_append_left _ hr, hid⟩
  | addRelation f o type =>
    obtain ⟨ht, hl⟩ := hl
    have hf : f ≠ 0 := by
      split at hl
      · exact hl.1.1
      · exact hl.1.1
    have ho : o ≠ 0 := by
      split at hl
      · exact hl.2.1
      · exact hl.2.1
    simp only [History.step, Op.perform, addRelation_reliable hsrv hf ho ht, Option.map_some,
      Option.toList_some]
    refine ⟨hi.valid.insertRelation f o type, hi.reserved, ?_, fun a ha hb => ?_⟩
    · simp [Store.insertRelation, hi.rows, Added.row]
    · rcases List.mem_append.mp ha with ha | ha
      · exact hi.members a ha hb
      · rw [List.mem_singleton.mp ha] at hb ⊢
        rw [if_pos hb] at hl
        exact hl.1

theorem invariant_runOps {srv : Server} (hsrv : Reliable srv) {h : History} {ops : List Op}
    (hi : Invariant h) (hl : LegalRun srv h ops) : Invariant (runOps srv h ops) :=
  (throughout_of_step (I := Invariant) (fun _ _ hi hl => invariant_step hsrv hi hl) hi hl).last

theorem lists_of_rows {srv : Server} (hsrv : Reliable srv) {w : World} {o : ℕ} (ho : o ≠ 0)
    {direction : ℤ} {select : Store → ℕ → List RelationRow} {other : RelationRow → Option ℕ}
    (hd : direction = cplDAncestors ∧ select = Store.relationsFrom ∧ other = (·.toId) ∨
      direction = cplDDescendants ∧ select = Store.relationsTo ∧ other = (·.fromId))
    {l : List Added} {otherAt : Added → ℕ} (hl : select w.store o = l.map Added.row)
    (ho' : ∀ a, other (Added.row a) = some (otherAt a)) :
    Lists srv w o direction (l.map fun a => ⟨a.id, o, otherAt a, a.type⟩) := by
  have hseen : RelationRow.seenFrom o other ∘ Added.row =
      some ∘ fun a : Added => (⟨a.id, o, otherAt a, a.type⟩ : RelationEntry) := by
    funext a
    simp only [Function.comp_apply, RelationRow.seenFrom, ho' a]
    rfl
  have hread : readAll (RelationRow.seenFrom o other) (srv.scan w.calls (select w.store o)) =
      some ((srv.scan w.calls (select w.store o)).filterMap (RelationRow.seenFrom o other)) := by
    refine readAll_eq_filterMap fun r hr => ?_
    rw [(srv.scan_perm _ _).mem_iff, hl, List.mem_map] at hr
    obtain ⟨a, -, rfl⟩ := hr
    rw [← Function.comp_apply (f := RelationRow.seenFrom o other), hseen]
    rfl
  have hcode : ∀ es : List RelationEntry,
      ((if (listing (some es)).1 = .noData then .ok else (listing (some es)).1),
        (listing (some es)).2) = (ReturnCode.ok, es) := by
    intro es
    cases es <;> simp [listing]
  have hperm := (srv.scan_perm w.calls (select w.store o)).filterMap (RelationRow.seenFrom o other)
  refine ⟨_, ⟨w.store, w.calls + 1⟩, ?_, hperm.trans ?_⟩
  · rcases hd with ⟨rfl, rfl, rfl⟩ | ⟨rfl, rfl, rfl⟩
    · simp only [Server.getObjectRelations, Server.list, Server.ensureInitialized, hsrv.attached,
        if_true, cplNone, if_neg ho, ne_eq, not_true_eq_false, false_and, if_false,
        Server.cplOdbcGetObjectRelations, query_reliable hsrv, hread]
      rw [← hcode]
    · have hne : ¬ cplDDescendants = cplDAncestors := by decide
      simp only [Server.getObjectRelations, Server.list, Server.ensureInitialized, hsrv.attached,
        if_true, cplNone, if_neg ho, ne_eq, not_true_eq_false, and_false, if_false,
        Server.cplOdbcGetObjectRelations, query_reliable hsrv, if_neg hne, hread]
      rw [← hcode]
  · rw [hl, List.filterMap_map, hseen, List.filterMap_eq_map]

theorem relationsFrom_eq {h : History} (hi : Invariant h) (o : ℕ) :
    h.world.store.relationsFrom o = (h.added.filter fun a => a.fromId = o).map Added.row := by
  simp only [Store.relationsFrom, hi.rows, List.filter_cons, List.filter_map]
  simp [Function.comp_def, Added.row]

theorem relationsTo_eq {h : History} (hi : Invariant h) (o : ℕ) :
    h.world.store.relationsTo o = (h.added.filter fun a => a.toId = o).map Added.row := by
  simp only [Store.relationsTo, hi.rows, List.filter_cons, List.filter_map]
  simp [Function.comp_def, Added.row]

theorem lists_ancestors {srv : Server} (hsrv : Reliable srv) {h : History} (hi : Invariant h)
    {o : ℕ} (ho : o ≠ 0) : Lists srv h.world o cplDAncestors
      ((h.added.filter fun a => a.fromId = o).map fun a => ⟨a.id, o, a.toId, a.type⟩) :=
  lists_of_rows hsrv ho (Or.inl ⟨rfl, rfl, rfl⟩) (relationsFrom_eq hi o) fun _ => rfl

theorem lists_descendants {srv : Server} (hsrv : Reliable srv) {h : History} (hi : Invariant h)
    {o : ℕ} (ho : o ≠ 0) : Lists srv h.world o cplDDescendants
      ((h.added.filter fun a => a.toId = o).map fun a => ⟨a.id, o, a.fromId, a.type⟩) :=
  lists_of_rows hsrv ho (Or.inr ⟨rfl, rfl, rfl⟩) (relationsTo_eq hi o) fun _ => rfl

theorem isGraphObject_ne_zero {h : History} (hi : Invariant h) {o : ℕ}
    (ho : IsGraphObject h.world.store o) : o ≠ 0 := by
  rintro rfl
  obtain ⟨r, hr, hid, ht⟩ := ho
  rw [hi.reserved r hr hid] at ht
  simp at ht

theorem not_isBundle_of_isGraphObject {h : History} (hi : Invariant h) {o : ℕ}
    (ho : IsGraphObject h.world.store o) : ¬ IsBundle h.world.store o := by
  rintro ⟨-, r', hr', hid', ht'⟩
  obtain ⟨r, hr, hid, ht⟩ := ho
  have heq : r = r' :=
    List.inj_on_of_nodup_map hi.valid.object_ids hr hr' (hid.trans hid'.symm)
  subst heq
  rw [ht'] at ht
  revert ht
  decide

theorem exact_of_noCollision {srv : Server} (hsrv : Reliable srv) {h : History}
    (hi : Invariant h) (hn : NoCollision h) {o : ℕ} (ho : IsGraphObject h.world.store o) :
    Exact srv h o := by
  have h0 := isGraphObject_ne_zero hi ho
  have hfrom : (h.added.filter fun a => a.type ≠ bundleRelation ∧ a.fromId = o) =
      h.added.filter fun a => a.fromId = o := by
    refine List.filter_congr fun a ha => ?_
    rw [decide_eq_decide, and_iff_right_iff_imp]
    rintro rfl hb
    exact not_isBundle_of_isGraphObject hi ho (hi.members a ha hb)
  have hto : (h.added.filter fun a => a.type ≠ bundleRelation ∧ a.toId = o) =
      h.added.filter fun a => a.toId = o := by
    refine List.filter_congr fun a ha => ?_
    rw [decide_eq_decide, and_iff_right_iff_imp]
    rintro rfl hb
    exact hn a ha hb ho
  refine ⟨?_, ?_⟩
  · unfold expected
    rw [hfrom]
    exact lists_ancestors hsrv hi h0
  · unfold expected
    rw [hto]
    exact lists_descendants hsrv hi h0

/-- A membership whose relation id is that of the object is reported as a relation of it. -/
theorem collision_not_exact {srv : Server} (hsrv : Reliable srv) {h : History}
    (hi : Invariant h) {a : Added} (ha : a ∈ h.added) (hb : a.type = bundleRelation)
    (ho : IsGraphObject h.world.store a.toId) : ¬ Exact srv h a.toId := by
  rintro ⟨-, out, w', hout, hperm⟩
  obtain ⟨out', w'', hout', hperm'⟩ := lists_descendants hsrv hi (isGraphObject_ne_zero hi ho)
  rw [hout] at hout'
  cases hout'
  have hmem : (⟨a.id, a.toId, a.fromId, a.type⟩ : RelationEntry) ∈
      expected h (·.toId) (·.fromId) a.toId := by
    rw [← hperm.mem_iff, hperm'.mem_iff]
    exact List.mem_map.mpr ⟨a, by simp [ha], rfl⟩
  simp only [expected, List.mem_map, List.mem_filter, decide_eq_true_eq] at hmem
  obtain ⟨c, ⟨-, hne, -⟩, heq⟩ := hmem
  exact hne ((congrArg RelationEntry.type heq).trans hb)

/-- In this run the first relation and the first object share the id 1. -/
def collidingOps : List Op := [
  .createObject "p" "e1" cplEntity, .createObject "p" "e2" cplEntity,
  .createObject "p" "b" cplBundle, .addRelation 1 2 wasDerivedFrom,
  .addRelation 3 1 bundleRelation]

theorem descendants_report_membership :
    LegalRun .ideal (.start 0) collidingOps ∧
      let h := runOps .ideal (.start 0) collidingOps
      IsGraphObject h.world.store 1 ∧ expected h (·.toId) (·.fromId) 1 = [] ∧
        (Server.ideal.getObjectRelations 1 cplDDescendants h.world).1 =
          (.ok, [⟨2, 1, 3, bundleRelation⟩]) := by
  decide

/-- After any legal run, every entity, agent and activity is listed with exactly its relations
if and only if no relation put into a bundle has the id of such an object. -/
theorem listings_exact_iff_noCollision {srv : Server} (hsrv : Reliable srv) (calls : ℕ)
    {ops : List Op} (hl : LegalRun srv (.start calls) ops) :
    (∀ o, IsGraphObject (runOps srv (.start calls) ops).world.store o →
      Exact srv (runOps srv (.start calls) ops) o) ↔
      NoCollision (runOps srv (.start calls) ops) := by
  have hi := invariant_runOps hsrv (invariant_start calls) hl
  constructor
  · intro hexact a ha hb ho
    exact collision_not_exact hsrv hi ha hb ho (hexact _ ho)
  · intro hn o ho
    exact exact_of_noCollision hsrv hi hn ho

theorem listings_exact_iff_noCollision_colliding :
    ¬ ∀ o, IsGraphObject (runOps .ideal (.start 0) collidingOps).world.store o →
      Exact .ideal (runOps .ideal (.start 0) collidingOps) o := by
  rw [listings_exact_iff_noCollision Server.ideal_reliable 0 (by decide)]
  decide

end ObjectRelations
