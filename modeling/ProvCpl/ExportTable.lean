import ProvCpl.ExportEntries
import ProvCpl.TwoRuns

/-! # The name table as a cache

The exporter takes the name of an end from its table and otherwise from the object info, which
has the name without its prefix. Fetching the info of a destination sets the flag of the source,
whose pointer is unset if the source was found in the table. To compare two exports at all, the
database must list the rows of one query on one store in one order. -/
namespace ExportTable

open CplTypes QualifiedName JsonValue ProvStore ProvServer ServerSpecs ImportDocument
open ImportFrame ImportAccepts ImportGraph ExportDocument ExportShape RoundTrip BundleMembers
open Reimport ExportEntries TwoRuns EarlyExit

/-- The order of the rows of a query depends on the rows only. -/
structure Steady (srv : Server) : Prop where
  order : ∀ n m {α : Type} (l : List α), srv.scan n l = srv.scan m l

theorem ideal_steady : Steady Server.ideal := ⟨fun _ _ _ _ => rfl⟩

def Both (t : Store) (w w' : World) : Prop := w.store = t ∧ w'.store = t

/-- From worlds with this store both programs end in the same way and leave the store. -/
def Same {α : Type} (t : Store) (m m' : Api α) : Prop :=
  Twin (Both t) m m' (fun a a' w w' => Both t w w' ∧ a = a') fun e e' w w' =>
    Both t w w' ∧ e = e'

section Rules

variable {α β γ : Type} {t : Store} {m m' : Api α} {f f' : α → Api β}

theorem same_pure (a : α) : Same t (pure a) (pure a) :=
  twin_pure fun _ _ h => ⟨h, rfl⟩

theorem same_leave (e : Stop) : Same t (leave e : Api α) (leave e) :=
  twin_leave fun _ _ h => ⟨h, rfl⟩

theorem same_orThrow (o : Option α) : Same t (orThrow o) (orThrow o) := by
  cases o with
  | none => exact same_leave _
  | some a => exact same_pure a

theorem same_bind (hm : Same t m m') (hf : ∀ a, Same t (f a) (f' a)) :
    Same t (m >>= f) (m' >>= f') := by
  apply twin_bind hm
  intro a a'
  apply twin_assume
  rintro rfl
  exact hf a

theorem same_bind_of {R : α → Prop} (hm : Same t m m') (hR : Keeps (· = t) m R)
    (hf : ∀ a, R a → Same t (f a) (f' a)) : Same t (m >>= f) (m' >>= f') := by
  intro w w' hw
  rcases Twin.cases hm w w' hw with ⟨a, a', u, u', hr, hr', hu, rfl⟩ | ⟨e, e', u, u', hr, hr', he⟩
  · have ha := hR w hw.1
    rw [hr] at ha
    rw [bind_run, bind_run, hr, hr']
    exact hf a ha.2 u u' hu
  · rw [bind_run, bind_run, hr, hr']
    exact he

theorem same_fold {g g' : β → γ → Api β} {xs : List γ}
    (step : ∀ b x, x ∈ xs → Same t (g b x) (g' b x)) (b : β) :
    Same t (fold g b xs) (fold g' b xs) := by
  induction xs generalizing b with
  | nil => exact same_pure b
  | cons x xs ih =>
    apply same_bind (step b x List.mem_cons_self)
    intro c
    exact ih (fun b y hy => step b y (List.mem_cons_of_mem x hy)) c

theorem Same.result (h : Same t m m') (calls calls' : ℕ) :
    (m ⟨t, calls⟩).1 = (m' ⟨t, calls'⟩).1 := by
  rcases Twin.cases h ⟨t, calls⟩ ⟨t, calls'⟩ ⟨rfl, rfl⟩ with
    ⟨a, a', u, u', hr, hr', -, rfl⟩ | ⟨e, e', u, u', hr, hr', -, rfl⟩
  · rw [hr, hr']
  · rw [hr, hr']

end Rules

section Exporter

variable {srv : Server} {t : Store} (hsrv : Reliable srv)

include hsrv

theorem same_query {α : Type} {id : ℕ} {read : ℕ → Store → ReturnCode × List α}
    (h : ∀ n m, read n t = read m t) :
    Same t (requireList (srv.list id (srv.query read [])))
      (requireList (srv.list id (srv.query read []))) := by
  rintro w w' ⟨hw, hw'⟩
  by_cases h0 : id = 0
  · subst h0
    simp [requireList, bind_run, call, Server.list, Server.ensureInitialized, hsrv.attached,
      cplNone, leave, Both, hw, hw']
  · simp only [requireList, bind_run, call, list_reliable hsrv h0, hw, hw', h w'.calls w.calls]
    by_cases hok : (read w.calls t).1.IsOk
    · simp only [if_pos hok, pure_run]
      exact ⟨⟨rfl, rfl⟩, trivial⟩
    · simp only [if_neg hok, leave]
      exact ⟨⟨rfl, rfl⟩, trivial⟩

variable (hsteady : Steady srv)

include hsteady

theorem same_properties (rows : Store → List PropertyRow) (id : ℕ) (type : ℤ) :
    Same t (requireList (srv.list id (srv.query (fun n s => listing (some
      ((srv.scan n (propertiesOf (rows s) id none none type)).map propertyEntry))) [])))
      (requireList (srv.list id (srv.query (fun n s => listing (some
        ((srv.scan n (propertiesOf (rows s) id none none type)).map propertyEntry))) []))) := by
  apply same_query hsrv
  intro n m
  rw [hsteady.order n m]

omit hsrv hsteady in
theorem same_exportProperties {read : PropertyReader} {id : ℕ}
    (h : ∀ type, Same t (requireList (read id type)) (requireList (read id type))) :
    Same t (exportProperties read id) (exportProperties read id) := by
  apply same_bind (h _)
  intro strings
  apply same_bind (h _)
  intro numerics
  apply same_bind (same_orThrow _)
  intro numbers
  apply same_bind (h _)
  intro booleans
  exact same_pure _

theorem same_relationProperties (id : ℕ) :
    Same t (exportProperties (relationReader srv) id)
      (exportProperties (relationReader srv) id) :=
  same_exportProperties (same_properties hsrv hsteady Store.relationProperties id)

end Exporter

def storedName (r : ObjectRow) : String := fullName (r.nsPrefix.getD "") (r.name.getD "")

def Correct (t : Store) (tbl : NameTable) : Prop :=
  ∀ id name, OrderedMap.find id tbl = some name → ∃ r ∈ t.objects, r.id = id ∧ name = storedName r

def Covers (t : Store) (b : ℕ) (tbl : NameTable) : Prop :=
  ∀ e ∈ relationEntries t b, ∀ id, id = e.queryObjectId ∨ id = e.otherObjectId →
    id ∈ t.objects.map (·.id) → (OrderedMap.find id tbl).isSome

def InfoIsFull (t : Store) (id : ℕ) : Prop :=
  ∀ r ∈ t.objects, r.id = id → r.nsPrefix.getD "" = "" ∧ (r.name.getD "").length < 4096

/-- What the table lacks is not missed: no relation has only its source in it, and the ends that
are not in it have no prefix. -/
structure CacheOnly (t : Store) (b : ℕ) (tbl : NameTable) : Prop where
  order : ∀ e ∈ relationEntries t b, (OrderedMap.find e.otherObjectId tbl).isSome ∨
    OrderedMap.find e.queryObjectId tbl = none
  names : ∀ e ∈ relationEntries t b, ∀ id, id = e.queryObjectId ∨ id = e.otherObjectId →
    OrderedMap.find id tbl = none → InfoIsFull t id

/-- The text that is fetched is the full name only if there is no prefix and it is short. -/
theorem fetch_eq_fullName_iff (p n : String) :
    fetchText 4096 n = fullName p n ↔ p = "" ∧ n.length < 4096 := by
  constructor
  · intro h
    have hlen := congrArg String.length h
    rw [fetchText, String.length_ofList, List.length_take, String.length_toList] at hlen
    by_cases hp : p = ""
    · refine ⟨hp, ?_⟩
      rw [fullName, hp] at hlen
      simp only [ne_eq, not_true_eq_false, if_false] at hlen
      omega
    · have hcolon : ":".length = 1 := rfl
      rw [fullName, if_pos hp, String.length_append, String.length_append] at hlen
      omega
  · rintro ⟨rfl, hn⟩
    rw [fetchText_of_short hn]
    rfl

theorem infoIsFull_iff {t : Store} (ht : t.Valid) {r : ObjectRow} (hr : r ∈ t.objects) :
    InfoIsFull t r.id ↔ infoName t r.id = storedName r := by
  rw [infoName_row ht hr, storedName, fetch_eq_fullName_iff]
  constructor
  · intro h
    exact h r hr rfl
  · intro h q hq hid
    rw [List.inj_on_of_nodup_map ht.object_ids hq hr hid]
    exact h

section Ends

variable {srv : Server} {t : Store} {tbl full : NameTable} (hsrv : Reliable srv)

theorem Correct.row (hc : Correct t tbl) (ht : t.Valid) {r : ObjectRow} (hr : r ∈ t.objects)
    {name : String} (h : OrderedMap.find r.id tbl = some name) : name = storedName r := by
  obtain ⟨q, hq, hid, hname⟩ := hc _ _ h
  rw [hname, List.inj_on_of_nodup_map ht.object_ids hq hr hid]

include hsrv

theorem getObjectInfo_row (ht : t.Valid) {r : ObjectRow} (hr : r ∈ t.objects) (h0 : r.id ≠ 0)
    (htype : r.type.isSome) {w : World} (hw : w.store = t) : ∃ i, i.name = infoName t r.id ∧
      srv.getObjectInfo r.id w = ((.ok, some i), ⟨t, w.calls + 1⟩) := by
  subst hw
  have hperm := srv.scan_perm w.calls (w.store.objects.filter fun q => q.id = r.id)
  rw [filter_key_eq ht.object_ids hr, List.perm_singleton] at hperm
  obtain ⟨type, htype⟩ := Option.isSome_iff_exists.mp htype
  simp only [Server.getObjectInfo, Server.ensureInitialized, hsrv.attached, if_true, cplNone,
    if_neg h0, Server.cplOdbcGetObjectInfo, query_reliable hsrv,
    filter_key_eq ht.object_ids hr, hperm, htype]
  exact ⟨_, (infoName_row ht hr).symm, rfl⟩

theorem getObjectInfo_none {id : ℕ} (h0 : id ≠ 0) (hid : id ∉ t.objects.map (·.id)) {w : World}
    (hw : w.store = t) :
    srv.getObjectInfo id w = ((.notFound, none), ⟨t, w.calls + 1⟩) := by
  subst hw
  have hrows : w.store.objects.filter (fun r => r.id = id) = [] := by
    rw [List.filter_eq_nil_iff]
    intro r hr he
    exact hid (List.mem_map.mpr ⟨r, hr, of_decide_eq_true he⟩)
  have hperm := srv.scan_perm w.calls (w.store.objects.filter fun r => r.id = id)
  rw [hrows, List.perm_nil] at hperm
  simp only [Server.getObjectInfo, Server.ensureInitialized, hsrv.attached, if_true, cplNone,
    if_neg h0, Server.cplOdbcGetObjectInfo, query_reliable hsrv, hrows, hperm]

/-- An end gets the same name from both tables, or both exports leave with the same code. -/
theorem twin_exportEndpoint (ht : t.Reachable) (hc : Correct t tbl) (hf : Correct t full) {id : ℕ}
    (hcover : id ∈ t.objects.map (·.id) → (OrderedMap.find id full).isSome)
    (hname : OrderedMap.find id tbl = none → InfoIsFull t id) (h0 : id ≠ 0) :
    Twin (Both t) (exportEndpoint srv tbl id) (exportEndpoint srv full id)
      (fun out out' w w' => Both t w w' ∧
        out = (out'.1, (OrderedMap.find id tbl).isNone) ∧ out'.2 = false)
      fun e e' w w' => Both t w w' ∧ e = e' := by
  rintro w w' ⟨hw, hw'⟩
  by_cases hid : id ∈ t.objects.map (·.id)
  · obtain ⟨r, hr, rfl⟩ := List.mem_map.mp hid
    obtain ⟨name, hfull⟩ := Option.isSome_iff_exists.mp (hcover hid)
    have hfullName := hf.row ht.valid hr hfull
    cases htbl : OrderedMap.find r.id tbl with
    | some name' =>
      have htblName := hc.row ht.valid hr htbl
      simp only [exportEndpoint, hfull, htbl, pure_run]
      exact ⟨⟨hw, hw'⟩, by rw [htblName, hfullName]; rfl, trivial⟩
    | none =>
      obtain ⟨p, n, type, -, -, -, htype⟩ := ht.columns.objects r hr h0
      obtain ⟨i, hi, hrun⟩ := getObjectInfo_row hsrv ht.valid hr h0 (by rw [htype]; rfl) hw
      have hinfo := (infoIsFull_iff ht.valid hr).mp (hname htbl)
      simp only [exportEndpoint, hfull, htbl, bind_run, call, hrun, isOk_ok, if_true, pure_run]
      exact ⟨⟨rfl, hw'⟩, by rw [hi, hinfo, hfullName]; rfl, trivial⟩
  · have hnone : ∀ {table}, Correct t table → OrderedMap.find id table = none := by
      intro table htable
      cases hfind : OrderedMap.find id table with
      | none => rfl
      | some name =>
        obtain ⟨r, hr, hrid, -⟩ := htable _ _ hfind
        exact absurd (List.mem_map.mpr ⟨r, hr, hrid⟩) hid
    simp only [exportEndpoint, hnone hc, hnone hf, bind_run, call,
      getObjectInfo_none hsrv h0 hid hw, getObjectInfo_none hsrv h0 hid hw',
      if_neg not_isOk_notFound, leave]
    exact ⟨⟨rfl, rfl⟩, trivial⟩

end Ends

section Cache

variable {srv : Server} {t : Store} {b : ℕ} {tbl full : NameTable} (hsrv : Reliable srv)
  (hsteady : Steady srv) (ht : t.Reachable) (hc : Correct t tbl) (hf : Correct t full)
  (hall : Covers t b full)

include hsrv hsteady ht hc hf hall

theorem same_exportRelation (hcache : CacheOnly t b tbl) {e : RelationEntry}
    (he : e ∈ relationEntries t b) (document : Json) :
    Same t (exportRelation srv tbl document e) (exportRelation srv full document e) := by
  obtain ⟨r, hr, hre⟩ := List.mem_filterMap.mp he
  obtain ⟨e', he', hfrom, hto, -⟩ := bundleRelations_entry ht hr
  obtain rfl : e = e' := Option.some.inj (hre.symm.trans he')
  have hends := ht.columns.ends (mem_bundleRelations.mp hr).1
  rw [hfrom, hto] at hends
  have hquery0 : e.queryObjectId ≠ 0 := fun h0 => hends.1 (congrArg some h0)
  have hother0 : e.otherObjectId ≠ 0 := fun h0 => hends.2 (congrArg some h0)
  have hdata : Same t (relationData e.type) (relationData e.type) := by
    unfold relationData
    split
    · exact same_pure _
    · exact same_leave _
  apply same_bind (same_relationProperties hsrv hsteady e.id)
  intro properties
  refine twin_bind (twin_exportEndpoint hsrv ht hc hf (hall e he _ (Or.inl rfl))
    (hcache.names e he _ (Or.inl rfl)) hquery0) fun source source' => ?_
  apply twin_assume
  rintro ⟨rfl, hsource⟩
  apply same_bind hdata
  intro d
  refine twin_bind (twin_exportEndpoint hsrv ht hc hf (hall e he _ (Or.inr rfl))
    (hcache.names e he _ (Or.inr rfl)) hother0) fun dest dest' => ?_
  apply twin_assume
  rintro ⟨rfl, hdest⟩
  -- In neither run is only the source found in the table.
  have htbl : ¬ ((OrderedMap.find e.otherObjectId tbl).isNone = true ∧
      (OrderedMap.find e.queryObjectId tbl).isNone = false) := by
    rintro ⟨hother, hquery⟩
    rcases hcache.order e he with h | h
    · rw [Option.isNone_iff_eq_none.mp hother] at h
      cases h
    · rw [h] at hquery
      cases hquery
  have hfull : ¬ (dest'.2 = true ∧ source'.2 = false) := by
    rw [hdest]
    simp
  dsimp only
  rw [if_neg htbl, if_neg hfull]
  exact same_pure _

/-- With a table that is only a cache the export ends as with one that has every end. -/
theorem same_exportRelationsJson (hcache : CacheOnly t b tbl) (document : Json) :
    Same t (exportRelationsJson srv [b] tbl document)
      (exportRelationsJson srv [b] full document) := by
  have hlist : Same t (requireList (srv.getBundleRelations b))
      (requireList (srv.getBundleRelations b)) := by
    apply same_query hsrv
    intro n m
    rw [hsteady.order n m]
  refine same_bind_of hlist (keeps_listing hsrv fun s => s.bundleRelations b) fun es hes => ?_
  apply same_fold
  intro document e he
  exact same_exportRelation hsrv hsteady ht hc hf hall hcache (hes.1.mem_iff.mp he) document

omit hsteady hc in
/-- If both exports return one document, the table is only a cache. -/
theorem cacheOnly_of_same {document out : Json} {calls calls' : ℕ}
    (htbl : (exportRelationsJson srv [b] tbl document ⟨t, calls⟩).1 = .ok out)
    (hfull : (exportRelationsJson srv [b] full document ⟨t, calls'⟩).1 = .ok out) :
    CacheOnly t b tbl := by
  have hentries : ∀ {table : NameTable} {n : ℕ},
      (exportRelationsJson srv [b] table document ⟨t, n⟩).1 = .ok out →
      Entries t (endName t table) [] ([] ++ relationEntries t b) out ∧
        ∀ e ∈ relationEntries t b, Resolved t table e := by
    intro table n hrun
    have hkeeps : Keeps (· = t) (exportRelationsJson srv [b] table document) fun out =>
        Entries t (endName t table) [] ([] ++ relationEntries t b) out ∧
          ∀ e ∈ relationEntries t b, Resolved t table e :=
      keeps_exportRelationsJson_entries hsrv ht ⟨by simp, by simp⟩ (by simp) b
        fun _ _ _ => ⟨rfl, rfl⟩
    rcases Triple.cases hkeeps (s := ⟨t, n⟩) rfl with ⟨a, u, hr, ha⟩ | ⟨x, u, hr, -⟩
    · rw [hr] at hrun
      cases hrun
      exact ha.2
    · rw [hr] at hrun
      cases hrun
  obtain ⟨hdoc, hres⟩ := hentries htbl
  obtain ⟨hdoc', hres'⟩ := hentries hfull
  have hsame : ∀ e ∈ relationEntries t b, ∀ id, id = e.queryObjectId ∨ id = e.otherObjectId →
      endName t tbl id = endName t full id := by
    intro e he
    obtain ⟨d, hd, properties, -, hentry⟩ := hdoc.relations e he
    obtain ⟨d', hd', properties', -, hentry'⟩ := hdoc'.relations e he
    obtain rfl := hd.unique hd'
    have hkeys := rdataArray_keys_ne d hd.mem
    have hrecord := Option.some.inj (hentry.symm.trans hentry')
    have hsource := congrArg (fun j => j.find d.sourceStr) hrecord
    have hdest := congrArg (fun j => j.find d.destStr) hrecord
    simp only [recordFor, find_assign, if_neg hkeys, if_true, Option.some.injEq,
      Json.string.injEq] at hsource hdest
    rintro id (rfl | rfl)
    · exact hsource
    · exact hdest
  constructor
  · intro e he
    exact (hres e he).order
  · intro e he id hid hnone
    have hmem : id ∈ t.objects.map (·.id) := by
      rcases hid with rfl | rfl
      · exact (hres e he).source.resolve_left (by simp [hnone])
      · exact (hres e he).dest.resolve_left (by simp [hnone])
    obtain ⟨name, hname⟩ := Option.isSome_iff_exists.mp (hall e he id hid hmem)
    obtain ⟨r, hr, rfl⟩ := List.mem_map.mp hmem
    rw [infoIsFull_iff ht.valid hr, ← hf.row ht.valid hr hname]
    have hends := hsame e he r.id hid
    rwa [endName, hnone, endName, hname, Option.getD_none, Option.getD_some] at hends

end Cache

def prefixedStore : Store :=
  ((((Store.fresh.insertObject "" "b" cplBundle 0).insertObject "p" "e1" cplEntity 1).insertObject
    "p" "e2" cplEntity 2).insertRelation 2 3 wasDerivedFrom).insertRelation 1 1 bundleRelation

theorem prefixedStore_reachable : prefixedStore.Reachable :=
  .addRelation 1 1 bundleRelation (by decide) (by decide) (by decide)
    (.addRelation 2 3 wasDerivedFrom (by decide) (by decide) (by decide)
      (.createObject "p" "e2" cplEntity 2 (by decide)
        (.createObject "p" "e1" cplEntity 1 (by decide)
          (.createObject "" "b" cplBundle 0 (by decide) .fresh))))

def derivation (source dest : String) : Json := .object [("wasDerivedFrom", .object [("1",
  .object [("prov:generatedEntity", .string source), ("prov:usedEntity", .string dest)])])]

theorem correct_of_members {t : Store} {tbl : NameTable}
    (h : ∀ e ∈ tbl, ∃ r ∈ t.objects, r.id = e.1 ∧ e.2 = storedName r) : Correct t tbl := by
  intro id name hfind
  exact h (id, name) (OrderedMap.mem_of_find hfind)

/-- Three correct tables: with both ends, with none and with the source only. -/
theorem table_decides_names : prefixedStore.Reachable ∧
    Correct prefixedStore [(2, "p:e1"), (3, "p:e2")] ∧ Correct prefixedStore [] ∧
    Correct prefixedStore [(2, "p:e1")] ∧
    (exportRelationsJson .ideal [1] [(2, "p:e1"), (3, "p:e2")] .null ⟨prefixedStore, 0⟩).1 =
      .ok (derivation "p:e1" "p:e2") ∧
    (exportRelationsJson .ideal [1] [] .null ⟨prefixedStore, 0⟩).1 =
      .ok (derivation "e1" "e2") ∧
    derivation "p:e1" "p:e2" ≠ derivation "e1" "e2" ∧
    (exportRelationsJson .ideal [1] [(2, "p:e1")] .null ⟨prefixedStore, 0⟩).1 =
      .error .undefined := by
  refine ⟨prefixedStore_reachable, correct_of_members (by decide), correct_of_members (by simp),
    correct_of_members (by decide), rfl, rfl, ?_, rfl⟩
  simp [derivation]

/-- A correct table that is only a cache gives the export of a table with every end, whatever
that is. Where the latter returns a document, the former returns it only then. -/
theorem table_is_cache_iff {srv : Server} (hsrv : Reliable srv) (hsteady : Steady srv)
    {t : Store} (ht : t.Reachable) {b : ℕ} {tbl full : NameTable} (hc : Correct t tbl)
    (hf : Correct t full) (hall : Covers t b full) (document : Json) (calls calls' : ℕ) :
    (CacheOnly t b tbl → (exportRelationsJson srv [b] tbl document ⟨t, calls⟩).1 =
      (exportRelationsJson srv [b] full document ⟨t, calls'⟩).1) ∧
    ∀ out, (exportRelationsJson srv [b] full document ⟨t, calls'⟩).1 = .ok out →
      ((exportRelationsJson srv [b] tbl document ⟨t, calls⟩).1 = .ok out ↔
        CacheOnly t b tbl) := by
  have hsame : CacheOnly t b tbl → (exportRelationsJson srv [b] tbl document ⟨t, calls⟩).1 =
      (exportRelationsJson srv [b] full document ⟨t, calls'⟩).1 := fun hcache =>
    (same_exportRelationsJson hsrv hsteady ht hc hf hall hcache document).result calls calls'
  refine ⟨hsame, fun out hout => ?_⟩
  constructor
  · intro h
    exact cacheOnly_of_same hsrv ht hf hall h hout
  · intro hcache
    rw [hsame hcache, hout]

theorem table_is_cache_iff_unprefixed :
    (exportRelationsJson .ideal [1] [] .null ⟨bundleStore 2 2 wasDerivedFrom, 0⟩).1 =
      (exportRelationsJson .ideal [1] [(2, "e")] .null ⟨bundleStore 2 2 wasDerivedFrom, 0⟩).1 := by
  have hrelations : relationEntries (bundleStore 2 2 wasDerivedFrom) 1 =
      [⟨1, 2, 2, wasDerivedFrom⟩] := by decide
  have hreach : (bundleStore 2 2 wasDerivedFrom).Reachable :=
    bundleStore_reachable (by decide) (by decide) (by decide)
  refine (table_is_cache_iff Server.ideal_reliable ideal_steady hreach
    (correct_of_members (by simp)) (correct_of_members (by decide)) ?_ .null 0 0).1 ?_
  · intro e he id hid _
    rw [hrelations, List.mem_singleton] at he
    subst he
    rcases hid with rfl | rfl <;> rfl
  · constructor
    · exact fun _ _ => Or.inr rfl
    · intro e he id hid _
      rw [hrelations, List.mem_singleton] at he
      subst he
      have hid : id = 2 := by simpa using hid
      subst hid
      unfold InfoIsFull
      decide

end ExportTable
