import ProvCpl.PropertyFilters
import ProvCpl.StoreHistory

/-! # Strings at the column limits

The columns take as many characters as the limits say, the buffers that they are read into hold
one less and the terminator. A string comes back whole exactly when it is below its limit. -/
namespace ColumnLimits

open CplTypes QualifiedName ProvStore ProvServer ServerSpecs PropertyWrites PropertyFilters
open PreparedQueries StoreHistory EarlyExit EventTrace InsertOnce

inductive Addition where
  | property (o : Owner) (id : ℕ) (nsPrefix key value : String)
  | iri (bundle : ℕ) (nsPrefix iri : String)
  deriving DecidableEq, Repr

def propertyRow (id : ℕ) (nsPrefix key value : String) : PropertyRow :=
  ⟨id, nsPrefix, key, value, stringProperty⟩

def Addition.perform (srv : Server) : Addition → Call World ReturnCode
  | .property o id p k v => Write.perform srv ⟨o, id, p, k, .string v⟩
  | .iri id p i => srv.addPrefix id (some p) (some i)

def Addition.target : Addition → ℕ
  | .property _ id _ _ _ => id
  | .iri id _ _ => id

def Addition.First (s : Store) : Addition → Prop
  | .property o id p k v => ∀ r ∈ o.rows s, ¬ SameKey r (propertyRow id p k v)
  | .iri id p _ => ∀ r ∈ s.prefixes, ¬ (r.id = id ∧ r.nsPrefix = p)

def Addition.Within : Addition → Prop
  | .property _ _ p k v =>
    p.length ≤ cplPrefixLen ∧ k.length ≤ cplKeyLen ∧ v.length ≤ cplValueLen
  | .iri _ p i => p.length ≤ cplPrefixLen ∧ i.length ≤ cplValueLen

def Addition.Below : Addition → Prop
  | .property _ _ p k v =>
    p.length < cplPrefixLen ∧ k.length < cplKeyLen ∧ v.length < cplValueLen
  | .iri _ p i => p.length < cplPrefixLen ∧ i.length < cplValueLen

def Addition.Stored (s : Store) : Addition → Prop
  | .property o id p k v => propertyRow id p k v ∈ o.rows s
  | .iri id p i => ⟨id, p, i⟩ ∈ s.prefixes

/-- The get with all filters NULL reports exactly the strings that were given. -/
def Addition.Reported (srv : Server) (w : World) : Addition → Prop
  | .property o id p k v =>
    ⟨p, k, v⟩ ∈ (getProperties srv o id none none stringProperty w).1.2
  | .iri id p i => ⟨p, i⟩ ∈ (srv.listPrefixes id w).1.2

/-- Every later get that is answered reports the strings, whatever was called in between. -/
def ComesBack (srv : Server) (w : World) (a : Addition) : Prop :=
  ∀ (later : List Effect) (srv' : Server) (calls : ℕ), srv'.attached = true →
    (srv'.outcome calls).failure = none →
      a.Reported srv' ⟨runTrace applyEffect (a.perform srv w).2.store later, calls⟩

theorem Addition.Stored.grows {s t : Store} (h : Grows s t) {a : Addition} (ha : a.Stored s) :
    a.Stored t := by
  cases a with
  | property o id p k v =>
    cases o with
    | object => exact h.objectProperties.subset ha
    | relation => exact h.relationProperties.subset ha
  | iri id p i => exact h.prefixes.subset ha

section Store

variable {srv : Server} {w : World}

theorem execute_ok {α : Type} {stmt : ℕ → Store → Option (α × Store)}
    (hok : (srv.execute stmt w).1.1 = .ok) : ∃ s a,
      (∀ I : Store → Prop, (∀ s a t, I s → stmt (srv.clock w.calls) s = some (a, t) → I t) →
        I w.store → I s) ∧
      stmt (srv.clock w.calls) s = some (a, (srv.execute stmt w).2.store) := by
  refine ⟨replay (stmt (srv.clock w.calls)) (srv.outcome w.calls).lost w.store, ?_⟩
  cases hf : (srv.outcome w.calls).failure with
  | some f =>
    simp only [Server.execute, hf] at hok
    exact absurd (hok ▸ isOk_ok) f.failed
  | none =>
    cases hs : stmt (srv.clock w.calls)
        (replay (stmt (srv.clock w.calls)) (srv.outcome w.calls).lost w.store) with
    | none => simp [Server.execute, hf, hs] at hok
    | some out =>
      simp only [Server.execute, hf, hs]
      exact ⟨out.1, fun I hI hw => replay_keeps hI _ _ hw, rfl⟩

/-- The first row of a key is stored by the call that reports success. -/
theorem execute_stores {ρ : Type} (same : ρ → ρ → Prop) [DecidableRel same]
    (rows : Store → List ρ) {r : ρ} {insert : Store → Option Store}
    (hinsert : ∀ s t, insert s = some t → rows t = insertOnce same (rows s) r)
    (hfirst : ∀ q ∈ rows w.store, ¬ same q r)
    (hok : (srv.execute (fun _ s => (insert s).map fun t => ((), t)) w).1.1 = .ok) :
    r ∈ rows (srv.execute (fun _ s => (insert s).map fun t => ((), t)) w).2.store := by
  obtain ⟨s, u, hkeep, hs⟩ := execute_ok hok
  have honly := hkeep (fun s => ∀ q ∈ rows s, same q r → q = r) ?_ ?_
  · obtain ⟨t, ht, he⟩ := Option.map_eq_some_iff.mp hs
    rw [← (Prod.mk.inj he).2, hinsert s t ht]
    exact (only_insertOnce honly).1
  · intro s a t hI he
    obtain ⟨t', ht, he'⟩ := Option.map_eq_some_iff.mp he
    obtain rfl : t' = t := congrArg Prod.snd he'
    rw [hinsert s t' ht]
    exact (only_insertOnce hI).2
  · intro q hq hsame
    exact absurd hsame (hfirst q hq)

theorem rows_insert {o : Owner} {s t : Store} {r : PropertyRow} (h : o.insert s r = some t) :
    o.rows t = insertOnce SameKey (o.rows s) r := by
  cases o with
  | object =>
    obtain ⟨-, rfl⟩ := insertObjectProperty_eq h
    rfl
  | relation =>
    obtain ⟨-, rfl⟩ := insertRelationProperty_eq h
    rfl

theorem target_of_ok (ha : srv.attached = true) {a : Addition}
    (hok : (a.perform srv w).1 = .ok) : a.target ≠ 0 := by
  intro h0
  cases a with
  | property o id p k v =>
    simp only [Addition.target] at h0
    cases o <;>
      simp [Addition.perform, Write.perform, Server.addObjectStringProperty,
        Server.addRelationStringProperty, Server.addProperty, Server.ensureInitialized, ha,
        cplNone, h0] at hok
  | iri id p i =>
    simp only [Addition.target] at h0
    simp [Addition.perform, Server.addPrefix, Server.ensureInitialized, ha, cplNone, h0] at hok

theorem stored_of_ok (ha : srv.attached = true) {a : Addition} (hfirst : a.First w.store)
    (hok : (a.perform srv w).1 = .ok) : a.Stored (a.perform srv w).2.store := by
  have h0 := target_of_ok ha hok
  cases a with
  | property o id p k v =>
    have hperform := perform_eq ha w (q := ⟨o, id, p, k, .string v⟩) h0
    simp only [Addition.perform, Addition.Stored] at hok ⊢
    rw [hperform] at hok ⊢
    exact execute_stores SameKey o.rows (fun s t h => rows_insert h) hfirst hok
  | iri id p i =>
    have hid : ¬ id = cplNone := h0
    have hperform : (Addition.iri id p i).perform srv w = codeOnly (srv.execute fun _ s =>
        (s.insertPrefix ⟨id, p, i⟩).map fun t => ((), t)) w := by
      simp only [Addition.perform, Server.addPrefix, Server.ensureInitialized, ha, if_true,
        if_neg hid, Server.cplOdbcAddPrefix]
    simp only [Addition.Stored] at hok ⊢
    rw [hperform] at hok ⊢
    refine execute_stores (fun q r : PrefixRow => q.id = r.id ∧ q.nsPrefix = r.nsPrefix)
      Store.prefixes ?_ hfirst hok
    intro s t h
    obtain ⟨-, rfl⟩ := insertPrefix_eq h
    rfl

end Store

section Reading

variable {srv : Server} {w : World} (ha : srv.attached = true)
  (hf : (srv.outcome w.calls).failure = none)

include ha hf

theorem listPrefixes_perm {id : ℕ} (h0 : id ≠ 0) : (srv.listPrefixes id w).1.2.Perm
    ((w.store.prefixes.filter fun r => r.id = id).map fun r =>
      ⟨fetchText cplPrefixLen r.nsPrefix, fetchText cplValueLen r.iri⟩) := by
  have hid : ¬ id = cplNone := h0
  have hread : ∀ rows : List PrefixRow,
      ((rows.map prefixCells).map getPrefixesStmts.project).filterMap readPrefix =
        rows.map fun r => ⟨fetchText cplPrefixLen r.nsPrefix, fetchText cplValueLen r.iri⟩ := by
    intro rows
    induction rows with
    | nil => rfl
    | cons r rows ih =>
      have hr : readPrefix (getPrefixesStmts.project (prefixCells r)) =
          some ⟨fetchText cplPrefixLen r.nsPrefix, fetchText cplValueLen r.iri⟩ := rfl
      simp only [List.map_cons, List.filterMap_cons, hr]
      rw [ih]
  have hm : (prefixesQuery id none).1.matching (database w.store) (prefixesQuery id none).2 =
      some ((w.store.prefixes.filter fun r => r.id = id).map prefixCells) := matching_prefixes
  have hsel : (srv.select (prefixesQuery id none)
      (fun rows => listing (some (rows.filterMap readPrefix))) [] w).1 = _ :=
    (select_answers _ hf hm).2
  have hget : (srv.listPrefixes id w).1 = (srv.select (prefixesQuery id none)
      (fun rows => listing (some (rows.filterMap readPrefix))) [] w).1 := by
    simp only [Server.listPrefixes, Server.list, Server.ensureInitialized, ha, if_true, if_neg hid,
      Server.runGetPrefixes]
  rw [hget, hsel, listing_rows, ← hread]
  exact ((srv.scan_perm _ _).map _).filterMap _

/-- A stored string is reported as it is when it is below its limit, and never otherwise. -/
theorem reported_iff {a : Addition} (h0 : a.target ≠ 0) (hs : a.Stored w.store) :
    a.Reported srv w ↔ a.Below := by
  have hcut : ∀ size s, 0 < size → (fetchText size s).length < size := by
    intro size s hpos
    rw [length_fetchText]
    omega
  cases a with
  | property o id p k v =>
    have hid : id ≠ 0 := h0
    simp only [Addition.Reported, Addition.Below]
    rw [(getProperties_perm ha hf o hid none none stringProperty).mem_iff, List.mem_map]
    constructor
    · rintro ⟨r, -, he⟩
      obtain ⟨rfl, rfl, rfl⟩ := PropertyEntry.mk.inj he
      exact ⟨hcut _ _ (by decide), hcut _ _ (by decide), hcut _ _ (by decide)⟩
    · rintro ⟨hp, hk, hv⟩
      refine ⟨propertyRow id p k v, ?_, propertyEntry_of_short ⟨hp, hk, hv⟩⟩
      simp only [propertiesOf, List.mem_filter, decide_eq_true_eq]
      exact ⟨hs, rfl, rfl⟩
  | iri id p i =>
    have hid : id ≠ 0 := h0
    simp only [Addition.Reported, Addition.Below]
    rw [(listPrefixes_perm ha hf hid).mem_iff, List.mem_map]
    constructor
    · rintro ⟨r, -, he⟩
      obtain ⟨rfl, rfl⟩ := PrefixEntry.mk.inj he
      exact ⟨hcut _ _ (by decide), hcut _ _ (by decide)⟩
    · rintro ⟨hp, hi⟩
      refine ⟨⟨id, p, i⟩, ?_, ?_⟩
      · simp only [List.mem_filter, decide_eq_true_eq]
        exact ⟨hs, trivial⟩
      · rw [fetchText_of_short hp, fetchText_of_short hi]

end Reading

/-- The strings of a successful first call come back in every later get exactly when each of them
is below its limit. -/
theorem comesBack_iff {srv : Server} (ha : srv.attached = true) {w : World} {a : Addition}
    (hfirst : a.First w.store) (hok : (a.perform srv w).1 = .ok) : ComesBack srv w a ↔ a.Below := by
  have h0 := target_of_ok ha hok
  have hstored := stored_of_ok ha hfirst hok
  constructor
  · intro h
    have hnow := h [] Server.ideal 0 rfl rfl
    exact (reported_iff (w := ⟨(a.perform srv w).2.store, 0⟩) (rfl : Server.ideal.attached = true)
      rfl h0 hstored).mp hnow
  · intro h later srv' calls ha' hf'
    exact (reported_iff ha' hf' h0 (hstored.grows (run_grows _ later))).mpr h

def fullPrefix : String := String.ofList (List.replicate cplPrefixLen 'p')

def fullProperty : Addition := .property .object 1 fullPrefix "k" "v"

theorem full_prefix_cut : entityWorld.store.Reachable ∧ fullProperty.Within ∧
    fullProperty.First entityWorld.store ∧ (fullProperty.perform .ideal entityWorld).1 = .ok ∧
    ¬ ComesBack .ideal entityWorld fullProperty := by
  have hlen : fullPrefix.length = cplPrefixLen := by
    simp [fullPrefix, String.length_ofList]
  have hfirst : fullProperty.First entityWorld.store := by
    intro r hr
    cases hr
  have hok : (fullProperty.perform .ideal entityWorld).1 = .ok := by decide
  refine ⟨.createObject "" "e" cplEntity 0 (by decide) .fresh, ?_, hfirst, hok, ?_⟩
  · exact ⟨Nat.le_of_eq hlen, by decide, by decide⟩
  · intro h
    have hnow := h [] Server.ideal 0 rfl rfl
    have hstored := stored_of_ok (rfl : Server.ideal.attached = true) hfirst hok
    have hbelow := (reported_iff (w := ⟨(fullProperty.perform .ideal entityWorld).2.store, 0⟩)
      (rfl : Server.ideal.attached = true) rfl (by decide) hstored).mp hnow
    have hlt : fullPrefix.length < cplPrefixLen := hbelow.1
    omega

theorem short_strings_come_back :
    ComesBack .ideal entityWorld (.property .object 1 "p" "k" "v") := by
  have hfirst : (Addition.property .object 1 "p" "k" "v").First entityWorld.store := by
    intro r hr
    cases hr
  exact (comesBack_iff (rfl : Server.ideal.attached = true) hfirst (by decide)).mpr
    ⟨by decide, by decide, by decide⟩

end ColumnLimits
