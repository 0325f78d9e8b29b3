import ProvCpl.PreparedQueries
import ProvCpl.PropertyWrites
import Mathlib.Algebra.Order.BigOperators.Group.List

/-! # Property queries with a prefix or a key

The statement with the two filters runs only when both are given; a lone filter is dropped. The
answer is what was asked for exactly when every property of that id and type would pass the
dropped filter and fits the buffers it is read into. -/
namespace PropertyFilters

open CplTypes QualifiedName ProvStore ProvServer PropertyWrites InsertOnce

def storedEntry (r : PropertyRow) : PropertyEntry := ⟨r.nsPrefix, r.name, r.value⟩

def getProperties (srv : Server) (o : Owner) (id : ℕ) (nsPrefix key : Option String) (type : ℤ) :
    EarlyExit.Call World (ReturnCode × List PropertyEntry) :=
  match o with
  | .object => srv.getObjectProperties id nsPrefix key type
  | .relation => srv.getRelationProperties id nsPrefix key type

/-- A property asked for; NULL stands for all prefixes or all keys. -/
def Wanted (id : ℕ) (nsPrefix key : Option String) (type : ℤ) (r : PropertyRow) : Prop :=
  r.id = id ∧ r.type = type ∧ (∀ p ∈ nsPrefix, r.nsPrefix = p) ∧ ∀ k ∈ key, r.name = k

instance (id : ℕ) (nsPrefix key : Option String) (type : ℤ) (r : PropertyRow) :
    Decidable (Wanted id nsPrefix key type r) :=
  inferInstanceAs (Decidable (_ ∧ _ ∧ _ ∧ _))

def ReportsWanted (srv : Server) (w : World) (o : Owner) (id : ℕ) (nsPrefix key : Option String)
    (type : ℤ) : Prop :=
  (getProperties srv o id nsPrefix key type w).1.2.Perm
    (((o.rows w.store).filter (Wanted id nsPrefix key type)).map storedEntry)

/-- Both filters or none, or a lone filter that all properties of the id and type pass. -/
def FilterHarmless (rows : List PropertyRow) (id : ℕ) (nsPrefix key : Option String) (type : ℤ) :
    Prop :=
  nsPrefix.isSome = key.isSome ∨
    ∀ r ∈ rows, r.id = id → r.type = type → Wanted id nsPrefix key type r

/-- The columns of the row fit the buffers with their terminators. -/
structure Short (r : PropertyRow) : Prop where
  nsPrefix : r.nsPrefix.length < cplPrefixLen
  name : r.name.length < cplKeyLen
  value : r.value.length < cplValueLen

def entryLength (e : PropertyEntry) : ℕ := e.nsPrefix.length + e.key.length + e.value.length

theorem length_fetchText (size : ℕ) (s : String) :
    (fetchText size s).length = min (size - 1) s.length := by
  simp [fetchText, String.length_ofList, String.length_toList]

theorem propertyEntry_of_short {r : PropertyRow} (h : Short r) :
    propertyEntry r = storedEntry r := by
  simp only [propertyEntry, storedEntry, fetchText_of_short h.nsPrefix,
    fetchText_of_short h.name, fetchText_of_short h.value]

theorem entryLength_le (r : PropertyRow) :
    entryLength (propertyEntry r) ≤ entryLength (storedEntry r) := by
  simp only [entryLength, propertyEntry, storedEntry, length_fetchText]
  omega

theorem entryLength_lt_of_not_short {r : PropertyRow} (h : ¬ Short r) :
    entryLength (propertyEntry r) < entryLength (storedEntry r) := by
  simp only [entryLength, propertyEntry, storedEntry, length_fetchText, cplPrefixLen, cplKeyLen,
    cplValueLen]
  by_contra hle
  apply h
  constructor <;> simp only [cplPrefixLen, cplKeyLen, cplValueLen] <;> omega

/-- Reading shortens the entries as soon as one of them does not fit. -/
theorem perm_storedEntry_iff (rows : List PropertyRow) :
    (rows.map propertyEntry).Perm (rows.map storedEntry) ↔ ∀ r ∈ rows, Short r := by
  constructor
  · intro hp
    by_contra hs
    push Not at hs
    obtain ⟨r, hr, hshort⟩ := hs
    have hlt := List.sum_lt_sum (l := rows) (fun r => entryLength (propertyEntry r))
      (fun r => entryLength (storedEntry r)) (fun r _ => entryLength_le r)
      ⟨r, hr, entryLength_lt_of_not_short hshort⟩
    have hsum := (hp.map entryLength).sum_eq
    simp only [List.map_map, Function.comp_def] at hsum
    omega
  · intro hs
    have he : rows.map propertyEntry = rows.map storedEntry := by
      apply List.map_congr_left
      intro r hr
      exact propertyEntry_of_short (hs r hr)
    rw [he]

section Filter

variable {rows : List PropertyRow} {id : ℕ} {p k : Option String} {type : ℤ}

theorem mem_propertiesOf_of_wanted {r : PropertyRow} (hr : r ∈ rows)
    (h : Wanted id p k type r) : r ∈ propertiesOf rows id p k type := by
  obtain ⟨hid, ht, hp, hk⟩ := h
  unfold propertiesOf
  split
  · simp only [List.mem_filter, decide_eq_true_eq]
    exact ⟨hr, hid, hp _ rfl, hk _ rfl, ht⟩
  · simp only [List.mem_filter, decide_eq_true_eq]
    exact ⟨hr, hid, ht⟩

theorem filter_wanted : rows.filter (Wanted id p k type) =
    (propertiesOf rows id p k type).filter (Wanted id p k type) := by
  have hfilter : ∀ f : PropertyRow → Bool, (∀ r ∈ rows, Wanted id p k type r → f r = true) →
      rows.filter (Wanted id p k type) = (rows.filter f).filter (Wanted id p k type) := by
    intro f hf
    rw [List.filter_filter]
    apply List.filter_congr
    intro r hr
    by_cases hw : Wanted id p k type r
    · simp [hw, hf r hr hw]
    · simp [hw]
  unfold propertiesOf
  split
  · apply hfilter
    intro r _ ⟨hid, ht, hp, hk⟩
    simp [hid, ht, hp _ rfl, hk _ rfl]
  · apply hfilter
    intro r _ ⟨hid, ht, _, _⟩
    simp [hid, ht]

theorem propertiesOf_wanted_iff :
    (∀ r ∈ propertiesOf rows id p k type, Wanted id p k type r) ↔
      FilterHarmless rows id p k type := by
  cases p with
  | none =>
    cases k with
    | none => simp [propertiesOf, FilterHarmless, Wanted]
    | some k => simp [propertiesOf, FilterHarmless]
  | some p =>
    cases k with
    | none => simp [propertiesOf, FilterHarmless]
    | some k =>
      simp only [propertiesOf, FilterHarmless, Wanted, List.mem_filter, decide_eq_true_eq,
        Option.isSome_some, true_or, iff_true]
      rintro r ⟨-, hid, hp, hk, ht⟩
      exact ⟨hid, ht, by simpa using hp, by simpa using hk⟩

theorem read_perm_iff : ((propertiesOf rows id p k type).map propertyEntry).Perm
      ((rows.filter (Wanted id p k type)).map storedEntry) ↔
    FilterHarmless rows id p k type ∧ ∀ r ∈ rows, Wanted id p k type r → Short r := by
  rw [filter_wanted]
  constructor
  · intro hp
    have hlen := hp.length_eq
    rw [List.length_map, List.length_map] at hlen
    have hall := List.length_filter_eq_length_iff.mp hlen.symm
    have hwanted : ∀ r ∈ propertiesOf rows id p k type, Wanted id p k type r := by
      intro r hr
      simpa using hall r hr
    rw [List.filter_eq_self.mpr hall] at hp
    refine ⟨propertiesOf_wanted_iff.mp hwanted, ?_⟩
    intro r hr hw
    exact (perm_storedEntry_iff _).mp hp r (mem_propertiesOf_of_wanted hr hw)
  · intro ⟨hf, hs⟩
    have hwanted := propertiesOf_wanted_iff.mpr hf
    have hall : ∀ r ∈ propertiesOf rows id p k type, decide (Wanted id p k type r) = true := by
      intro r hr
      simpa using hwanted r hr
    rw [List.filter_eq_self.mpr hall, perm_storedEntry_iff]
    intro r hr
    have hmem : r ∈ rows := by
      unfold propertiesOf at hr
      split at hr <;> exact (List.mem_filter.mp hr).1
    exact hs r hmem (hwanted r hr)

end Filter

theorem listing_rows {β : Type} (es : List β) : (listing (some es)).2 = es := by
  cases es <;> rfl

theorem getProperties_perm {srv : Server} (ha : srv.attached = true) {w : World}
    (hf : (srv.outcome w.calls).failure = none) (o : Owner) {id : ℕ} (h0 : id ≠ 0)
    (p k : Option String) (type : ℤ) : (getProperties srv o id p k type w).1.2.Perm
      ((propertiesOf (o.rows w.store) id p k type).map propertyEntry) := by
  have hid : ¬ id = cplNone := h0
  have hrows : (getProperties srv o id p k type w).1.2 = (srv.scan w.calls
      (propertiesOf (o.rows w.store) id p k type)).map propertyEntry := by
    cases o <;>
      simp only [getProperties, Server.getObjectProperties, Server.getRelationProperties,
        Server.list, Server.ensureInitialized, ha, if_true, if_neg hid,
        Server.cplOdbcGetObjectProperties, Server.cplOdbcGetRelationProperties, Server.query, hf,
        listing_rows, Owner.rows]
  rw [hrows]
  exact (srv.scan_perm _ _).map _

theorem getProperties_none {srv : Server} (w : World) (o : Owner) (p k : Option String)
    (type : ℤ) : (getProperties srv o 0 p k type w).1.2 = [] := by
  cases o <;>
    simp only [getProperties, Server.getObjectProperties, Server.getRelationProperties,
      Server.list, Server.ensureInitialized] <;> split <;> rfl

theorem rows_id_ne_zero {s : Store} (h : s.Reachable) (o : Owner) :
    ∀ r ∈ o.rows s, r.id ≠ 0 := by
  induction h with
  | fresh => cases o <;> simp [Owner.rows, Store.fresh]
  | createObject p n t now _ _ ih => cases o <;> exact ih
  | addRelation f t ty _ _ _ _ ih => cases o <;> exact ih
  | addObjectProperty r h0 _ he ih =>
    obtain ⟨-, rfl⟩ := insertObjectProperty_eq he
    cases o with
    | object =>
      intro q hq
      rcases mem_insertOnce hq with hq | rfl
      · exact ih q hq
      · exact h0
    | relation => exact ih
  | addRelationProperty r h0 _ he ih =>
    obtain ⟨-, rfl⟩ := insertRelationProperty_eq he
    cases o with
    | object => exact ih
    | relation =>
      intro q hq
      rcases mem_insertOnce hq with hq | rfl
      · exact ih q hq
      · exact h0
  | addPrefix r _ _ he ih =>
    obtain ⟨-, rfl⟩ := insertPrefix_eq he
    cases o <;> exact ih

/-- A query is answered as asked exactly when it has both filters or none, or the properties of
the id and type all pass the one it has, and what was asked for fits its buffers. -/
theorem reportsWanted_iff {srv : Server} (ha : srv.attached = true) {w : World}
    (hw : w.store.Reachable) (hf : (srv.outcome w.calls).failure = none) (o : Owner) (id : ℕ)
    (p k : Option String) (type : ℤ) : ReportsWanted srv w o id p k type ↔
      FilterHarmless (o.rows w.store) id p k type ∧
        ∀ r ∈ o.rows w.store, Wanted id p k type r → Short r := by
  by_cases h0 : id = 0
  · subst h0
    have hrows := rows_id_ne_zero hw o
    have hnone : (o.rows w.store).filter (Wanted 0 p k type) = [] := by
      rw [List.filter_eq_nil_iff]
      intro r hr hwant
      exact hrows r hr (of_decide_eq_true hwant).1
    rw [ReportsWanted, getProperties_none, hnone]
    constructor
    · intro _
      constructor
      · exact Or.inr fun r hr hid => absurd hid (hrows r hr)
      · intro r hr hwant
        exact absurd hwant.1 (hrows r hr)
    · intro _
      exact List.Perm.refl _
  · have hread := getProperties_perm ha hf o h0 p k type
    rw [← read_perm_iff]
    constructor
    · intro h
      exact hread.symm.trans h
    · intro h
      exact hread.trans h

def twoPrefixes : World :=
  ⟨{ Store.oneEntity "e" 0 with
      objectProperties :=
        [⟨1, "a", "k", "x", stringProperty⟩, ⟨1, "b", "k", "y", stringProperty⟩] },
    0⟩

theorem twoPrefixes_reachable : twoPrefixes.store.Reachable := by
  have he := Store.oneEntity_reachable "e" 0
  have ha := Store.Reachable.addObjectProperty ⟨1, "a", "k", "x", stringProperty⟩ (by decide) he rfl
  exact .addObjectProperty ⟨1, "b", "k", "y", stringProperty⟩ (by decide) ha rfl

/-- With the prefix alone the other prefix is reported too. -/
theorem lone_filter_dropped : twoPrefixes.store.Reachable ∧
    ¬ ReportsWanted .ideal twoPrefixes .object 1 (some "a") none stringProperty := by
  refine ⟨twoPrefixes_reachable, ?_⟩
  unfold ReportsWanted
  decide

theorem both_filters_reported :
    ReportsWanted .ideal twoPrefixes .object 1 (some "a") (some "k") stringProperty :=
  (reportsWanted_iff (rfl : Server.ideal.attached = true) twoPrefixes_reachable rfl .object 1
    (some "a") (some "k") stringProperty).mpr
      ⟨Or.inl rfl, fun r hr _ => by
        have hshort : ∀ r ∈ twoPrefixes.store.objectProperties, r.nsPrefix.length < cplPrefixLen ∧
            r.name.length < cplKeyLen ∧ r.value.length < cplValueLen := by decide
        exact ⟨(hshort r hr).1, (hshort r hr).2.1, (hshort r hr).2.2⟩⟩

end PropertyFilters
