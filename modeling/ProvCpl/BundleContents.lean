import ProvCpl.ObjectQueries
import ProvCpl.ObjectRelations

/-! # What the queries of a bundle list

A membership is a relation from the bundle to the id of a relation, so the queries join the
table of relations with itself. The ids that are joined come from the sequence of relations on
both sides, whatever numbers the objects have. -/
namespace BundleContents

open CplTypes ProvStore ProvServer ServerSpecs ObjectQueries ObjectRelations EarlyExit EventTrace

structure Chronicle extends History where
  created : List Creation

def Chronicle.start (calls : ℕ) : Chronicle := ⟨History.start calls, []⟩

def creation (srv : Server) (w : World) : Op → Option Creation
  | .createObject p n type =>
    ((srv.createObject (some p) (some n) type w).1.2).map fun id =>
      ⟨id, p, n, type, srv.clock w.calls⟩
  | .addRelation _ _ _ => none

def Chronicle.step (srv : Server) (h : Chronicle) (op : Op) : Chronicle :=
  ⟨h.toHistory.step srv op, h.created ++ (creation srv h.world op).toList⟩

def runCalls (srv : Server) (h : Chronicle) (ops : List Op) : Chronicle :=
  runTrace (Chronicle.step srv) h ops

/-- A relation other than a membership joins objects; a membership puts a relation that is
none into a bundle, once. Names fit their columns. -/
def Orderly (h : Chronicle) : Op → Prop
  | .createObject p n type =>
    EnsureOType type ∧ p.length ≤ cplPrefixLen ∧ n.length ≤ cplNameLen
  | .addRelation f o type => EnsureRType type ∧
      if type = bundleRelation then IsBundle h.world.store f ∧
        (∃ a ∈ h.added, a.id = o ∧ a.type ≠ bundleRelation) ∧
        ∀ a ∈ h.added, a.type = bundleRelation → a.fromId = f → a.toId ≠ o
      else IsObject h.world.store f ∧ IsObject h.world.store o

instance (h : Chronicle) : (op : Op) → Decidable (Orderly h op)
  | .createObject p n type => inferInstanceAs (Decidable
      (EnsureOType type ∧ p.length ≤ cplPrefixLen ∧ n.length ≤ cplNameLen))
  | .addRelation f o type => inferInstanceAs (Decidable (EnsureRType type ∧
      if type = bundleRelation then IsBundle h.world.store f ∧
        (∃ a ∈ h.added, a.id = o ∧ a.type ≠ bundleRelation) ∧
        ∀ a ∈ h.added, a.type = bundleRelation → a.fromId = f → a.toId ≠ o
      else IsObject h.world.store f ∧ IsObject h.world.store o))

def OrderlyRun (srv : Server) (h : Chronicle) (ops : List Op) : Prop :=
  EachStep (Chronicle.step srv) Orderly h ops

instance (srv : Server) (h : Chronicle) (ops : List Op) : Decidable (OrderlyRun srv h ops) :=
  inferInstanceAs (Decidable (EachStep _ Orderly _ _))

def contents (h : Chronicle) (b : ℕ) : List Added :=
  h.added.filter fun a =>
    ∃ m ∈ h.added, m.type = bundleRelation ∧ m.fromId = b ∧ m.toId = a.id

def endObjects (h : Chronicle) (b : ℕ) : List Creation :=
  h.created.filter fun c => ∃ a ∈ contents h b, a.fromId = c.id ∨ a.toId = c.id

def Added.entry (a : Added) : RelationEntry := ⟨a.id, a.fromId, a.toId, a.type⟩

/-- The iterator is called with the given entries, each once; the code tells whether there
are any. -/
def ListsOnce {α : Type} (out : ReturnCode × List α) (es : List α) : Prop :=
  out.1 = (if es = [] then .noData else .ok) ∧ out.2.Perm es ∧ out.2.Nodup

structure ListsContents (reader : Server) (h : Chronicle) (b : ℕ) (w : World) : Prop where
  relations : ListsOnce (reader.getBundleRelations b w).1 ((contents h b).map Added.entry)
  objects : ListsOnce (reader.getBundleObjects b w).1 ((endObjects h b).map Creation.info)

structure Invariant (h : Chronicle) : Prop where
  history : ObjectRelations.Invariant h.toHistory
  records : Records h.created h.world.store
  ends : ∀ a ∈ h.added, a.fromId ≠ 0 ∧ a.toId ≠ 0
  members : ∀ a ∈ h.added, a.type = bundleRelation →
    ∃ c ∈ h.added, c.id = a.toId ∧ c.type ≠ bundleRelation
  once : (h.added.filter fun a => a.type = bundleRelation).Pairwise fun a c =>
    a.fromId = c.fromId → a.toId ≠ c.toId

theorem invariant_start (calls : ℕ) : Invariant (Chronicle.start calls) where
  history := ObjectRelations.invariant_start calls
  records := records_fresh
  ends := by simp [Chronicle.start, History.start]
  members := by simp [Chronicle.start, History.start]
  once := List.Pairwise.nil

theorem Invariant.id_ne_zero {h : Chronicle} (hi : Invariant h) {a : Added} (ha : a ∈ h.added) :
    a.id ≠ 0 := by
  have hids := hi.history.valid.relation_ids
  rw [hi.history.rows, List.map_cons, List.nodup_cons] at hids
  intro h0
  apply hids.1
  exact List.mem_map.mpr ⟨a.row, List.mem_map_of_mem ha, h0⟩

theorem Invariant.legal {h : Chronicle} (hi : Invariant h) {op : Op} (ho : Orderly h op) :
    op.Legal h.world.store := by
  cases op with
  | createObject p n type => exact ho.1
  | addRelation f o type =>
    refine ⟨ho.1, ?_⟩
    have ho := ho.2
    split
    · next hb =>
      rw [if_pos hb] at ho
      obtain ⟨hf, ⟨a, ha, rfl, -⟩, -⟩ := ho
      refine ⟨hf, hi.id_ne_zero ha, a.row, ?_, rfl⟩
      rw [hi.history.rows]
      exact List.mem_cons_of_mem _ (List.mem_map_of_mem ha)
    · next hb =>
      rw [if_neg hb] at ho
      exact ho

theorem Invariant.createObject {srv : Server} (hsrv : Reliable srv) {h : Chronicle}
    (hi : Invariant h) {p n : String} {type : ℤ} (ho : Orderly h (.createObject p n type)) :
    Invariant (h.step srv (.createObject p n type)) := by
  obtain ⟨ht, hp, hn⟩ := ho
  have hcreate := createObject_reliable hsrv p n ht h.world
  have hadded : (h.step srv (.createObject p n type)).added = h.added := by
    simp [Chronicle.step, History.step, Op.perform]
  refine ⟨ObjectRelations.invariant_step hsrv hi.history (hi.legal ⟨ht, hp, hn⟩), ?_, ?_, ?_, ?_⟩
  · simpa [Chronicle.step, History.step, Op.perform, creation, hcreate] using
      hi.records.insertObject hp hn type (srv.clock h.world.calls)
  · rw [hadded]
    exact hi.ends
  · rw [hadded]
    exact hi.members
  · rw [hadded]
    exact hi.once

theorem Invariant.addRelation {srv : Server} (hsrv : Reliable srv) {h : Chronicle}
    (hi : Invariant h) {f o : ℕ} {type : ℤ} (ho : Orderly h (.addRelation f o type)) :
    Invariant (h.step srv (.addRelation f o type)) := by
  have hends : f ≠ 0 ∧ o ≠ 0 := by
    have hlegal := (hi.legal ho).2
    split at hlegal
    · exact ⟨hlegal.1.1, hlegal.2.1⟩
    · exact ⟨hlegal.1.1, hlegal.2.1⟩
  have hadd := addRelation_reliable hsrv hends.1 hends.2 ho.1 h.world
  have hadded : (h.step srv (.addRelation f o type)).added =
      h.added ++ [⟨h.world.store.nextRelation, f, o, type⟩] := by
    simp [Chronicle.step, History.step, Op.perform, hadd]
  refine ⟨ObjectRelations.invariant_step hsrv hi.history (hi.legal ho), ?_, ?_, ?_, ?_⟩
  · have hrecords := hi.records
    simp only [Chronicle.step, History.step, Op.perform, creation, hadd, Option.toList_none,
      List.append_nil]
    exact ⟨hrecords.objects, hrecords.ids, hrecords.next, hrecords.short⟩
  · rw [hadded]
    exact List.forall_mem_append.mpr ⟨hi.ends, List.forall_mem_singleton.mpr hends⟩
  · rw [hadded]
    intro a ha hb
    rcases List.mem_append.mp ha with ha | ha
    · obtain ⟨c, hc, hid⟩ := hi.members a ha hb
      exact ⟨c, List.mem_append_left _ hc, hid⟩
    · rw [List.mem_singleton.mp ha] at hb ⊢
      have ho := ho.2
      rw [if_pos hb] at ho
      obtain ⟨c, hc, hid, hne⟩ := ho.2.1
      exact ⟨c, List.mem_append_left _ hc, hid, hne⟩
  · rw [hadded, List.filter_append]
    by_cases hb : type = bundleRelation
    · have ho := ho.2
      rw [if_pos hb] at ho
      rw [List.filter_cons_of_pos (by simpa using hb), List.filter_nil, List.pairwise_append]
      refine ⟨hi.once, List.pairwise_singleton _ _, ?_⟩
      intro a ha c hc hfrom
      rw [List.mem_filter, decide_eq_true_eq] at ha
      rw [List.mem_singleton.mp hc] at hfrom ⊢
      exact ho.2.2 a ha.1 ha.2 hfrom
    · rw [List.filter_cons_of_neg (by simpa using hb), List.filter_nil, List.append_nil]
      exact hi.once

theorem invariant_step {srv : Server} (hsrv : Reliable srv) {h : Chronicle} (hi : Invariant h)
    {op : Op} (ho : Orderly h op) : Invariant (h.step srv op) := by
  cases op with
  | createObject p n type => exact hi.createObject hsrv ho
  | addRelation f o type => exact hi.addRelation hsrv ho

theorem invariant_runCalls {srv : Server} (hsrv : Reliable srv) {h : Chronicle} {ops : List Op}
    (hi : Invariant h) (ho : OrderlyRun srv h ops) : Invariant (runCalls srv h ops) :=
  (throughout_of_step (I := Invariant) (fun _ _ hi ho => invariant_step hsrv hi ho) hi ho).last

section Lists

variable {h : Chronicle} (hi : Invariant h)

include hi

theorem Invariant.relations_nodup : h.world.store.relations.Nodup :=
  List.Nodup.of_map _ hi.history.valid.relation_ids

theorem Invariant.memberships_eq (b : ℕ) : h.world.store.memberships b =
    (h.added.filter fun a => a.fromId = b ∧ a.type = bundleRelation).map Added.row := by
  rw [Store.memberships, hi.history.rows, List.filter_cons, List.filter_map]
  simp [Function.comp_def, Added.row]

/-- The join of the memberships with the relations gives each relation of the bundle. -/
theorem Invariant.mem_bundleRelations (b : ℕ) (r : RelationRow) :
    r ∈ h.world.store.bundleRelations b ↔ ∃ a ∈ contents h b, a.row = r := by
  rw [Store.bundleRelations, hi.memberships_eq, List.mem_flatMap]
  constructor
  · rintro ⟨_, hrow, hr⟩
    obtain ⟨m, hm, rfl⟩ := List.mem_map.mp hrow
    simp only [List.mem_filter, decide_eq_true_eq] at hm hr
    have hid : m.toId = r.id := Option.some.inj hr.2
    have hne := (hi.ends m hm.1).2
    rw [hi.history.rows] at hr
    rcases List.mem_cons.mp hr.1 with rfl | hmem
    · exact absurd hid hne
    · obtain ⟨a, ha, rfl⟩ := List.mem_map.mp hmem
      refine ⟨a, ?_, rfl⟩
      rw [contents, List.mem_filter, decide_eq_true_eq]
      exact ⟨ha, m, hm.1, hm.2.2, hm.2.1, hid⟩
  · rintro ⟨a, ha, rfl⟩
    rw [contents, List.mem_filter, decide_eq_true_eq] at ha
    obtain ⟨ha, m, hm, hb, hfrom, hto⟩ := ha
    refine ⟨m.row, List.mem_map_of_mem (by simp [hm, hb, hfrom]), ?_⟩
    rw [List.mem_filter, hi.history.rows]
    exact ⟨List.mem_cons_of_mem _ (List.mem_map_of_mem ha), by simp [Added.row, hto]⟩

theorem Invariant.bundleRelations_nodup (b : ℕ) :
    (h.world.store.bundleRelations b).Nodup := by
  rw [Store.bundleRelations, List.nodup_flatMap]
  constructor
  · intro m _
    exact hi.relations_nodup.filter _
  · rw [hi.memberships_eq, List.pairwise_map]
    have hsub : (h.added.filter fun a => a.fromId = b ∧ a.type = bundleRelation).Sublist
        (h.added.filter fun a => a.type = bundleRelation) := by
      have hfilter : (h.added.filter fun a => a.fromId = b ∧ a.type = bundleRelation) =
          (h.added.filter fun a => a.type = bundleRelation).filter fun a => a.fromId = b := by
        rw [List.filter_filter]
        refine List.filter_congr fun a _ => ?_
        simp
      rw [hfilter]
      exact List.filter_sublist
    refine (hi.once.sublist hsub).imp_of_mem ?_
    intro m m' hm hm' hne r hr hr'
    simp only [List.mem_filter, decide_eq_true_eq] at hm hm' hr hr'
    apply hne (hm.2.1.trans hm'.2.1.symm)
    exact Option.some.inj (hr.2.trans hr'.2.symm)

theorem Invariant.bundleRelations_perm (b : ℕ) :
    (h.world.store.bundleRelations b).Perm ((contents h b).map Added.row) := by
  have hrows : ((contents h b).map Added.row).Nodup := by
    have hall := hi.relations_nodup
    rw [hi.history.rows, List.nodup_cons] at hall
    exact hall.2.sublist (List.filter_sublist.map _)
  rw [List.perm_ext_iff_of_nodup (hi.bundleRelations_nodup b) hrows]
  intro r
  rw [hi.mem_bundleRelations, List.mem_map]

theorem Invariant.bundleObjects_perm (b : ℕ) :
    (h.world.store.bundleObjects b).Perm ((endObjects h b).map Creation.row) := by
  have hobjects := List.Nodup.of_map _ hi.history.valid.object_ids
  have hrows : ((endObjects h b).map Creation.row).Nodup := by
    rw [hi.records.objects, List.nodup_append] at hobjects
    exact hobjects.2.1.sublist (List.filter_sublist.map _)
  rw [Store.bundleObjects, List.perm_ext_iff_of_nodup (List.nodup_dedup _) hrows]
  intro o
  simp only [List.mem_dedup, List.mem_flatMap, hi.mem_bundleRelations, List.mem_filter,
    decide_eq_true_eq, List.mem_map, endObjects]
  constructor
  · rintro ⟨_, ⟨a, ha, rfl⟩, ho, hend⟩
    have hend : a.fromId = o.id ∨ a.toId = o.id :=
      hend.imp Option.some.inj Option.some.inj
    rw [hi.records.objects] at ho
    rcases List.mem_append.mp ho with ho | ho
    · have hzero : o = ⟨0, none, none, none, 0⟩ := by simpa [Store.fresh] using ho
      have hne := hi.ends a (List.mem_filter.mp ha).1
      rw [hzero] at hend
      rcases hend with hend | hend
      · exact absurd hend hne.1
      · exact absurd hend hne.2
    · obtain ⟨c, hc, rfl⟩ := List.mem_map.mp ho
      exact ⟨c, ⟨hc, a, ha, hend⟩, rfl⟩
  · rintro ⟨c, ⟨hc, a, ha, hend⟩, rfl⟩
    refine ⟨a.row, ⟨a, ha, rfl⟩, ?_, hend.imp (congrArg some) (congrArg some)⟩
    rw [hi.records.objects]
    exact List.mem_append_right _ (List.mem_map_of_mem hc)

end Lists

theorem listsOnce_of_rows {reader : Server} (hreader : Reliable reader) {w : World} {b : ℕ}
    (h0 : b ≠ 0) {α β γ : Type} {f : α → Option β} (rows : Store → List α) {row : γ → α}
    {report : γ → β} {l : List γ} (hperm : (rows w.store).Perm (l.map row))
    (hread : ∀ c ∈ l, f (row c) = some (report c)) (hn : (l.map report).Nodup) :
    ListsOnce (reader.list b
      (reader.query (fun n s => listing (readAll f (reader.scan n (rows s)))) []) w).1
      (l.map report) := by
  have hsome : ∀ r ∈ rows w.store, (f r).isSome := by
    intro r hr
    obtain ⟨c, hc, rfl⟩ := List.mem_map.mp (hperm.mem_iff.mp hr)
    rw [hread c hc]
    rfl
  obtain ⟨es, hout, hes⟩ := list_rows hreader (w := w) h0 hsome
  have hreport : (l.map row).filterMap f = l.map report := by
    rw [List.filterMap_map, ← List.filterMap_eq_map]
    exact List.filterMap_congr hread
  have hall : es.Perm (l.map report) := by
    rw [← hreport]
    exact hes.trans (hperm.filterMap f)
  have hnil : es = [] ↔ l.map report = [] := by
    constructor
    · rintro rfl
      exact List.nil_perm.mp hall
    · intro he
      rw [he] at hall
      exact List.perm_nil.mp hall
  rw [hout]
  exact ⟨by simp only [hnil], hall, hall.nodup_iff.mpr hn⟩

theorem listsContents {reader : Server} (hreader : Reliable reader) {h : Chronicle}
    (hi : Invariant h) {b : ℕ} (h0 : b ≠ 0) (calls : ℕ) :
    ListsContents reader h b ⟨h.world.store, calls⟩ where
  relations := by
    apply listsOnce_of_rows hreader h0 (w := ⟨h.world.store, calls⟩) (fun s => s.bundleRelations b)
      (hi.bundleRelations_perm b)
    · intro a _
      rfl
    · have hids := hi.history.valid.relation_ids
      rw [hi.history.rows, List.map_cons, List.nodup_cons, List.map_map] at hids
      apply List.Nodup.of_map (fun e : RelationEntry => e.id)
      rw [List.map_map]
      exact hids.2.sublist (List.filter_sublist.map _)
  objects := by
    apply listsOnce_of_rows hreader h0 (w := ⟨h.world.store, calls⟩) (fun s => s.bundleObjects b)
      (hi.bundleObjects_perm b)
    · intro c hc
      exact hi.records.info_row (List.mem_filter.mp hc).1
    · apply List.Nodup.of_map (fun o : ObjectInfo => o.id)
      rw [List.map_map]
      exact hi.records.distinct.sublist (List.filter_sublist.map _)

/-- After any orderly run, the queries of every bundle list the relations put into it and the
objects at their ends, each once, and nothing else. -/
theorem bundle_queries_list_contents {srv reader : Server} (hsrv : Reliable srv)
    (hreader : Reliable reader) (calls : ℕ) {ops : List Op}
    (ho : OrderlyRun srv (.start calls) ops) {b : ℕ}
    (hb : IsBundle (runCalls srv (.start calls) ops).world.store b) (readerCalls : ℕ) :
    ListsContents reader (runCalls srv (.start calls) ops) b
      ⟨(runCalls srv (.start calls) ops).world.store, readerCalls⟩ :=
  listsContents hreader (invariant_runCalls hsrv (invariant_start calls) ho) hb.1 readerCalls

/-- The relation 1 is put into two bundles, the second of which has the id of another relation. -/
def sharingOps : List Op := [
  .createObject "" "b1" cplBundle, .createObject "" "b2" cplBundle,
  .createObject "" "e1" cplEntity, .createObject "" "e2" cplEntity,
  .addRelation 3 4 wasDerivedFrom, .addRelation 4 4 alternateOf,
  .addRelation 1 1 bundleRelation, .addRelation 2 1 bundleRelation,
  .addRelation 2 2 bundleRelation]

theorem bundle_queries_list_contents_sharing :
    ListsContents .ideal (runCalls .ideal (.start 0) sharingOps) 2
      ⟨(runCalls .ideal (.start 0) sharingOps).world.store, 0⟩ :=
  bundle_queries_list_contents Server.ideal_reliable Server.ideal_reliable 0 (by decide)
    (by decide) 0

end BundleContents
