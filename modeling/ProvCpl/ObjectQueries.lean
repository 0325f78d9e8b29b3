import ProvCpl.ServerSpecs
import Mathlib.Data.List.Range

/-! # Object queries and the creation history

The history lists the objects in the order of their creation. The table of objects holds the
reserved row and one row for each entry of the history, so every query is a query of the
history. -/
namespace ObjectQueries

open CplTypes QualifiedName ProvStore ProvServer ServerSpecs EarlyExit

structure Creation where
  id : ℕ
  nsPrefix : String
  name : String
  type : ℤ
  time : ℕ
  deriving DecidableEq, Repr

/-- Type 0 asks for any type. -/
def Creation.HasType (c : Creation) (type : ℤ) : Prop := type ≠ 0 → c.type = type

def Creation.Named (c : Creation) (nsPrefix name : String) (type : ℤ) : Prop :=
  c.nsPrefix = nsPrefix ∧ c.name = name ∧ c.HasType type

instance (c : Creation) (type : ℤ) : Decidable (c.HasType type) :=
  inferInstanceAs (Decidable (_ → _))

instance (c : Creation) (nsPrefix name : String) (type : ℤ) :
    Decidable (c.Named nsPrefix name type) := inferInstanceAs (Decidable (_ ∧ _ ∧ _))

def Creation.stamp (c : Creation) : IdTimestamp := ⟨c.id, c.time⟩

def Creation.info (c : Creation) : ObjectInfo := ⟨c.id, c.time, c.nsPrefix, c.name, c.type⟩

def Creation.row (c : Creation) : ObjectRow :=
  ⟨c.id, some c.nsPrefix, some c.name, some c.type, c.time⟩

/-- The objects of a call that returned `id`: one, and one more for each execution of its
statement that was not acknowledged. -/
def createdBy (srv : Server) (w : World) (nsPrefix name : String) (type : ℤ) (id : ℕ) :
    List Creation :=
  let lost := (srv.outcome w.calls).lost
  (List.range' (id - lost) (lost + 1)).map fun i =>
    ⟨i, nsPrefix, name, type, srv.clock w.calls⟩

inductive CreationRun (srv : Server) : List Creation → World → Prop where
  | start (calls : ℕ) : CreationRun srv [] ⟨Store.fresh, calls⟩
  | create {history w w' nsPrefix name type id} : CreationRun srv history w →
      nsPrefix.length ≤ cplPrefixLen → name.length ≤ cplNameLen →
      srv.createObject (some nsPrefix) (some name) type w = ((.objectCreated, some id), w') →
      CreationRun srv (history ++ createdBy srv w nsPrefix name type id) w'

structure Records (history : List Creation) (s : Store) : Prop where
  objects : s.objects = Store.fresh.objects ++ history.map Creation.row
  ids : history.map (·.id) = List.range' 1 history.length
  next : s.nextObject = history.length + 1
  short : ∀ c ∈ history, c.nsPrefix.length ≤ cplPrefixLen ∧ c.name.length ≤ cplNameLen

theorem records_fresh : Records [] Store.fresh where
  objects := rfl
  ids := rfl
  next := rfl
  short := fun _ hc => absurd hc List.not_mem_nil

section Create

variable {history : List Creation} {s : Store} {nsPrefix name : String}

theorem Records.insertObject (h : Records history s) (hp : nsPrefix.length ≤ cplPrefixLen)
    (hn : name.length ≤ cplNameLen) (type : ℤ) (now : ℕ) :
    Records (history ++ [⟨s.nextObject, nsPrefix, name, type, now⟩])
      (s.insertObject nsPrefix name type now) where
  objects := by
    simp only [Store.insertObject, h.objects, List.map_append, List.append_assoc]
    rfl
  ids := by
    rw [List.map_append, h.ids, List.length_append, List.length_singleton, h.next,
      List.range'_concat]
    simp [Nat.add_comm]
  next := by simp [Store.insertObject, h.next]
  short := by
    exact List.forall_mem_append.mpr ⟨h.short, List.forall_mem_singleton.mpr ⟨hp, hn⟩⟩

theorem Records.replay (h : Records history s) (hp : nsPrefix.length ≤ cplPrefixLen)
    (hn : name.length ≤ cplNameLen) (type : ℤ) (now k : ℕ) :
    Records (history ++ (List.range' s.nextObject k).map fun i => ⟨i, nsPrefix, name, type, now⟩)
      (ProvServer.replay (fun s => some (s.nextObject, s.insertObject nsPrefix name type now))
        k s) := by
  induction k generalizing history s with
  | zero => simpa [ProvServer.replay] using h
  | succ k ih =>
    have hstep := ih (h.insertObject hp hn type now)
    rw [List.append_assoc] at hstep
    exact hstep

end Create

theorem replay_nextObject (nsPrefix name : String) (type : ℤ) (now k : ℕ) (s : Store) :
    (replay (fun s => some (s.nextObject, s.insertObject nsPrefix name type now)) k s).nextObject =
      s.nextObject + k := by
  induction k generalizing s with
  | zero => rfl
  | succ k ih =>
    have hstep := ih (s.insertObject nsPrefix name type now)
    have hnext : (s.insertObject nsPrefix name type now).nextObject = s.nextObject + 1 := rfl
    rw [hnext] at hstep
    rw [replay, Option.map_some, Option.getD_some, hstep]
    omega

theorem CreationRun.records {srv : Server} {history : List Creation} {w : World}
    (h : CreationRun srv history w) : Records history w.store := by
  induction h with
  | start calls => exact records_fresh
  | @create history w w' nsPrefix name type id _ hp hn hcall ih =>
    have hok : (srv.createObject (some nsPrefix) (some name) type w).1.1.IsOk := by
      rw [hcall]
      exact isOk_objectCreated
    obtain ⟨-, -, hid, hstore⟩ := createObject_ok hok
    rw [hcall] at hid hstore
    replace hid := Option.some.inj hid
    have hnext := replay_nextObject nsPrefix name type (srv.clock w.calls)
      (srv.outcome w.calls).lost w.store
    have hrec := (ih.replay hp hn type (srv.clock w.calls) (srv.outcome w.calls).lost).insertObject
      hp hn type (srv.clock w.calls)
    rw [hnext] at hid hrec
    rw [hstore, createdBy, hid, Nat.add_sub_cancel, List.range'_concat, List.map_append,
      ← List.append_assoc]
    simpa using hrec

/-- What `cpl_lookup_object_ext` returns when there is no object of the name. -/
def notFoundCode (flags : ℤ) : ReturnCode :=
  if flags.land cplLNoFail = cplLNoFail then .noData else .notFound

section Rows

variable {history : List Creation} {s : Store} (h : Records history s)

include h

theorem Records.objectsNamed (nsPrefix name : String) (type : ℤ) :
    s.objectsNamed nsPrefix name type =
      (history.filter fun c => c.Named nsPrefix name type).map Creation.row := by
  have hreserved : Store.fresh.objects.filter (fun r => r.nsPrefix = some nsPrefix ∧
      r.name = some name ∧ (type ≠ 0 → r.type = some type)) = [] := by
    simp [Store.fresh]
  rw [Store.objectsNamed, h.objects, List.filter_append, List.filter_map, hreserved,
    List.nil_append]
  refine congrArg _ (List.filter_congr fun c _ => decide_eq_decide.mpr ?_)
  simp only [Creation.row, Creation.Named, Creation.HasType,
    Option.some.injEq]

theorem Records.notReserved : ∀ c ∈ history, c.id ≠ 0 := by
  intro c hc
  have hid : c.id ∈ history.map (·.id) := List.mem_map_of_mem hc
  rw [h.ids, List.mem_range'_1] at hid
  omega

theorem Records.distinct : (history.map (·.id)).Nodup := by
  rw [h.ids]
  exact List.nodup_range'

theorem Records.objectsWithPrefix (nsPrefix : String) (type : ℤ) :
    s.objectsWithPrefix (some nsPrefix) type =
      (history.filter fun c => c.nsPrefix = nsPrefix ∧ c.HasType type).map Creation.row := by
  rw [Store.objectsWithPrefix, h.objects, List.filter_append, List.filter_map]
  have hreserved : Store.fresh.objects.filter (fun r => r.id > 0 ∧ (some nsPrefix).isSome ∧
      r.nsPrefix = some nsPrefix ∧ (type ≠ 0 → r.type = some type)) = [] := by
    simp [Store.fresh]
  rw [hreserved, List.nil_append]
  refine congrArg _ (List.filter_congr fun c hc => decide_eq_decide.mpr ?_)
  have hpos : 0 < c.id := Nat.pos_of_ne_zero (h.notReserved c hc)
  simp only [Creation.row, Creation.HasType, Option.some.injEq,
    Option.isSome_some, true_and, gt_iff_lt, hpos]

theorem Records.objectWithId {c : Creation} (hc : c ∈ history) :
    s.objects.filter (fun r => r.id = c.id) = [c.row] := by
  have hreserved : Store.fresh.objects.filter (fun r => r.id = c.id) = [] := by
    simpa [Store.fresh] using (h.notReserved c hc).symm
  rw [h.objects, List.filter_append, hreserved, List.nil_append, List.filter_map]
  exact congrArg (List.map Creation.row) (filter_key_eq h.distinct hc)

theorem Records.info_row {c : Creation} (hc : c ∈ history) :
    ObjectRow.info c.row = some c.info := by
  have hshort := h.short c hc
  rw [ObjectRow.info]
  dsimp only [Creation.row]
  rw [fetchText_of_short (by omega), fetchText_of_short (by omega)]
  rfl

end Rows

/-- What the queries answer, sent by any client while its calls succeed. -/
structure ReflectsCreations (reader : Server) (history : List Creation) (w : World) : Prop where
  distinct : (history.map (·.id)).Nodup
  notReserved : ∀ c ∈ history, c.id ≠ 0
  lookupExt : ∀ p n type flags, ∃ es,
    (reader.lookupObjectExt (some p) (some n) type flags w).1 =
      (if ∃ c ∈ history, c.Named p n type then .ok else notFoundCode flags, es) ∧
    es.Perm ((history.filter fun c => c.Named p n type).map Creation.stamp)
  notFound : ∀ p n type, (¬ ∃ c ∈ history, c.Named p n type) →
    (reader.lookupObject (some p) (some n) type w).1 = (.notFound, none)
  found : ∀ p n type, (∃ c ∈ history, c.Named p n type) → ∃ c ∈ history, c.Named p n type ∧
    (∀ d ∈ history, d.Named p n type → d.time ≤ c.time) ∧
    (reader.lookupObject (some p) (some n) type w).1 = (.ok, some c.id)
  all : ∀ p flags type, ∃ es, (reader.getAllObjects (some p) flags type w).1 =
      (if ∃ c ∈ history, c.nsPrefix = p ∧ c.HasType type then .ok else .noData, es) ∧
    es.Perm ((history.filter fun c => c.nsPrefix = p ∧ c.HasType type).map Creation.info)
  info : ∀ c ∈ history, (reader.getObjectInfo c.id w).1 = (.ok, some c.info)
  noInfo : ∀ id ∉ history.map (·.id), ¬ (reader.getObjectInfo id w).1.1.IsOk ∧
    (reader.getObjectInfo id w).1.2 = none

section Queries

variable {reader : Server} (hr : Reliable reader) {history : List Creation} {w : World}
  (h : Records history w.store)

theorem matching_eq_nil {P : Creation → Prop} [DecidablePred P] :
    history.filter P = [] ↔ ¬ ∃ c ∈ history, P c := by
  simp [List.filter_eq_nil_iff]

include hr h

theorem lookupObjectExt_reflects (p n : String) (type flags : ℤ) : ∃ es,
    (reader.lookupObjectExt (some p) (some n) type flags w).1 =
      (if ∃ c ∈ history, c.Named p n type then .ok else notFoundCode flags, es) ∧
    es.Perm ((history.filter fun c => c.Named p n type).map Creation.stamp) := by
  have hperm := reader.scan_perm w.calls (w.store.objectsNamed p n type)
  rw [h.objectsNamed] at hperm
  simp only [Server.lookupObjectExt, Server.ensureInitialized, hr.attached, if_true,
    cplLookupObjectExt, Server.cplOdbcLookupObjectExt, query_reliable hr, h.objectsNamed]
  have hstamps := hperm.map fun r => (⟨r.id, r.creationTime⟩ : IdTimestamp)
  rw [List.map_map] at hstamps
  cases hs : reader.scan w.calls
      ((history.filter fun c => c.Named p n type).map Creation.row) with
  | nil =>
    rw [hs] at hperm hstamps
    have hnone := matching_eq_nil.mp (List.map_eq_nil_iff.mp (List.nil_perm.mp hperm))
    refine ⟨[], ?_, hstamps⟩
    rw [if_neg hnone, notFoundCode]
    by_cases hf : flags.land cplLNoFail = cplLNoFail <;> simp [hf]
  | cons r rows =>
    rw [hs] at hperm hstamps
    have hsome : ∃ c ∈ history, c.Named p n type := by
      by_contra hnone
      rw [matching_eq_nil.mpr hnone] at hperm
      exact absurd hperm.length_eq (by simp)
    refine ⟨(r :: rows).map fun r => ⟨r.id, r.creationTime⟩, ?_, hstamps⟩
    rw [if_pos hsome]
    simp

theorem lookupObject_notFound {p n : String} {type : ℤ}
    (hnone : ¬ ∃ c ∈ history, c.Named p n type) :
    (reader.lookupObject (some p) (some n) type w).1 = (.notFound, none) := by
  have hperm := reader.scan_perm w.calls (w.store.objectsNamed p n type)
  rw [h.objectsNamed, matching_eq_nil.mpr hnone, List.map_nil, List.perm_nil] at hperm
  rw [lookupObject_reliable hr, h.objectsNamed, matching_eq_nil.mpr hnone, List.map_nil, hperm]
  rfl

theorem lookupObject_found {p n : String} {type : ℤ}
    (hsome : ∃ c ∈ history, c.Named p n type) : ∃ c ∈ history, c.Named p n type ∧
    (∀ d ∈ history, d.Named p n type → d.time ≤ c.time) ∧
    (reader.lookupObject (some p) (some n) type w).1 = (.ok, some c.id) := by
  have hperm := reader.scan_perm w.calls (w.store.objectsNamed p n type)
  have hmem : ∀ r, r ∈ reader.scan w.calls (w.store.objectsNamed p n type) ↔
      ∃ c ∈ history, c.Named p n type ∧ c.row = r := by
    intro r
    rw [hperm.mem_iff, h.objectsNamed]
    simp [and_assoc]
  rw [lookupObject_reliable hr]
  cases hl : latest (reader.scan w.calls (w.store.objectsNamed p n type)) with
  | none =>
    obtain ⟨c, hc, hn⟩ := hsome
    have hin := (hmem c.row).mpr ⟨c, hc, hn, rfl⟩
    rw [latest, List.argmax_eq_none] at hl
    rw [hl] at hin
    cases hin
  | some r =>
    obtain ⟨c, hc, hn, rfl⟩ := (hmem r).mp (List.argmax_mem hl)
    refine ⟨c, hc, hn, fun d hd hdn => ?_, rfl⟩
    have hle := List.le_of_mem_argmax (f := (·.creationTime))
      ((hmem d.row).mpr ⟨d, hd, hdn, rfl⟩) hl
    exact hle

theorem getAllObjects_reflects (p : String) (flags type : ℤ) : ∃ es,
    (reader.getAllObjects (some p) flags type w).1 =
      (if ∃ c ∈ history, c.nsPrefix = p ∧ c.HasType type then .ok else .noData, es) ∧
    es.Perm ((history.filter fun c => c.nsPrefix = p ∧ c.HasType type).map Creation.info) := by
  have hperm := reader.scan_perm w.calls (w.store.objectsWithPrefix (some p) type)
  rw [h.objectsWithPrefix] at hperm
  simp only [Server.getAllObjects, Server.ensureInitialized, hr.attached, if_true,
    Server.cplOdbcGetAllObjects, query_reliable hr, h.objectsWithPrefix]
  generalize reader.scan w.calls _ = rows at hperm
  have hread : readAll ObjectRow.info rows = some (rows.filterMap ObjectRow.info) :=
    readAll_eq_filterMap fun r hmem => by
      obtain ⟨c, hc, rfl⟩ := List.mem_map.mp (hperm.mem_iff.mp hmem)
      rw [h.info_row (List.mem_filter.mp hc).1]
      rfl
  have hinfos := hperm.filterMap ObjectRow.info
  have hrows : ((history.filter fun c => c.nsPrefix = p ∧ c.HasType type).map
      Creation.row).filterMap ObjectRow.info =
        (history.filter fun c => c.nsPrefix = p ∧ c.HasType type).map Creation.info := by
    rw [List.filterMap_map, ← List.filterMap_eq_map]
    exact List.filterMap_congr fun c hc => h.info_row (List.mem_filter.mp hc).1
  rw [hrows] at hinfos
  rw [hread]
  cases hes : rows.filterMap ObjectRow.info with
  | nil =>
    rw [hes] at hinfos
    have hnone := matching_eq_nil.mp (List.map_eq_nil_iff.mp (List.nil_perm.mp hinfos))
    exact ⟨[], by rw [if_neg hnone]; rfl, hinfos⟩
  | cons e es =>
    rw [hes] at hinfos
    have hsome : ∃ c ∈ history, c.nsPrefix = p ∧ c.HasType type := by
      by_contra hnone
      rw [matching_eq_nil.mpr hnone] at hinfos
      exact absurd hinfos.length_eq (by simp)
    exact ⟨e :: es, by rw [if_pos hsome]; rfl, hinfos⟩

theorem getObjectInfo_created {c : Creation} (hc : c ∈ history) :
    (reader.getObjectInfo c.id w).1 = (.ok, some c.info) := by
  have hperm := reader.scan_perm w.calls (w.store.objects.filter fun r => r.id = c.id)
  rw [h.objectWithId hc, List.perm_singleton] at hperm
  have hshort := h.short c hc
  have hlimits : cplPrefixLen < 4096 ∧ cplNameLen < 4096 := by decide
  simp only [Server.getObjectInfo, Server.ensureInitialized, hr.attached, if_true, cplNone,
    if_neg (h.notReserved c hc), Server.cplOdbcGetObjectInfo, query_reliable hr,
    h.objectWithId hc, hperm]
  simp only [Creation.row, Option.getD_some]
  rw [fetchText_of_short (by omega), fetchText_of_short (by omega)]
  rfl

theorem getObjectInfo_unknown {id : ℕ} (hid : id ∉ history.map (·.id)) :
    ¬ (reader.getObjectInfo id w).1.1.IsOk ∧ (reader.getObjectInfo id w).1.2 = none := by
  by_cases h0 : id = 0
  · simp [Server.getObjectInfo, Server.ensureInitialized, hr.attached, cplNone, h0]
  · have hrows : w.store.objects.filter (fun r => r.id = id) = [] := by
      rw [h.objects, List.filter_eq_nil_iff]
      intro r hr he
      rcases List.mem_append.mp hr with hr | hr
      · have hzero : r = ⟨0, none, none, none, 0⟩ := by simpa [Store.fresh] using hr
        exact h0 (by simpa [hzero] using (of_decide_eq_true he).symm)
      · obtain ⟨c, hc, rfl⟩ := List.mem_map.mp hr
        exact hid (of_decide_eq_true he ▸ List.mem_map_of_mem hc)
    have hscan := reader.scan_perm w.calls (w.store.objects.filter fun r => r.id = id)
    rw [hrows, List.perm_nil] at hscan
    simp [Server.getObjectInfo, Server.ensureInitialized, hr.attached, cplNone, h0,
      Server.cplOdbcGetObjectInfo, query_reliable hr, hrows, hscan]

end Queries

/-- After every run of successful creations, whatever the server did in between, the queries
answer from the history of the run, and from nothing else. -/
theorem queries_reflect_creations {srv reader : Server} (hr : Reliable reader)
    {history : List Creation} {w : World} (hrun : CreationRun srv history w) (calls : ℕ) :
    ReflectsCreations reader history ⟨w.store, calls⟩ := by
  have h : Records history (⟨w.store, calls⟩ : World).store := hrun.records
  exact {
    distinct := h.distinct
    notReserved := h.notReserved
    lookupExt := lookupObjectExt_reflects hr h
    notFound := fun p n type hnone => lookupObject_notFound hr h hnone
    found := fun p n type hsome => lookupObject_found hr h hsome
    all := getAllObjects_reflects hr h
    info := fun c hc => getObjectInfo_created hr h hc
    noInfo := fun id hid => getObjectInfo_unknown hr h hid }

def sameNameStore : Store :=
  (Store.oneEntity "e" 0).insertObject "" "e" cplAgent 1

theorem sameName_run : CreationRun .ideal
    [⟨1, "", "e", cplEntity, 0⟩, ⟨2, "", "e", cplAgent, 1⟩] ⟨sameNameStore, 2⟩ := by
  have hempty : "".length ≤ cplPrefixLen := by decide
  have hname : "e".length ≤ cplNameLen := by decide
  have first : CreationRun .ideal [⟨1, "", "e", cplEntity, 0⟩]
      ⟨Store.oneEntity "e" 0, 1⟩ :=
    .create (.start 0) hempty hname rfl
  exact .create first hempty hname rfl

theorem queries_reflect_creations_sameName : ReflectsCreations .ideal
    [⟨1, "", "e", cplEntity, 0⟩, ⟨2, "", "e", cplAgent, 1⟩] ⟨sameNameStore, 0⟩ :=
  queries_reflect_creations Server.ideal_reliable sameName_run 0

end ObjectQueries
