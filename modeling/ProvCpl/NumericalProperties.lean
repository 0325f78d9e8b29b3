import ProvCpl.ColumnLimits
import ProvCpl.DecimalText

/-! # Numerical properties

A number is stored as its text with six decimals, the callback reads the text back and a lookup
compares texts. The number comes back exactly when it is the double nearest to a multiple of a
millionth, and a lookup finds the numbers that agree to six decimals, sign included. -/
namespace NumericalProperties

open CplTypes QualifiedName ProvStore ProvServer ServerSpecs PropertyWrites PropertyFilters
open PreparedQueries SqlSelect StoreHistory ColumnLimits EarlyExit EventTrace InsertOnce
open FloatText FloatRounding DecimalText

/-- `cplxx_numerical_property_entry_t`, without the id that was asked for. -/
structure NumericalEntry where
  nsPrefix : String
  key : String
  value : BinaryFloat
  deriving DecidableEq, Repr

/-- `cpl_cb_collect_properties_vector`; a text that is no number throws. -/
def collectNumerical (e : PropertyEntry) : Option NumericalEntry :=
  (ofText e.value).map fun x => ⟨e.nsPrefix, e.key, x⟩

/-- The vector that is collected, none when the callback throws. -/
def numericalProperties (srv : Server) (o : Owner) (id : ℕ) (nsPrefix key : Option String)
    (w : World) : Option (List NumericalEntry) :=
  readAll collectNumerical (getProperties srv o id nsPrefix key numericalProperty w).1.2

def numericalRow (id : ℕ) (nsPrefix key : String) (x : BinaryFloat) : PropertyRow :=
  ⟨id, nsPrefix, key, toText x, numericalProperty⟩

def Reports (srv : Server) (o : Owner) (id : ℕ) (nsPrefix key : String) (x : BinaryFloat)
    (w : World) : Prop :=
  ∃ e, numericalProperties srv o id (some nsPrefix) (some key) w = some [e] ∧
    value e.value = value x

def Finds (srv : Server) (id : ℕ) (nsPrefix key : String) (y : BinaryFloat) (w : World) : Prop :=
  id ∈ (srv.lookupObjectByNumericalProperty (some nsPrefix) (some key) y w).1.2

def later (s : Store) (effects : List Effect) (calls : ℕ) : World :=
  ⟨runTrace applyEffect s effects, calls⟩

/-- From now on every get reports `x`, and every lookup of `y` finds the object if and only if
the numbers are equal. -/
def Keeps (s : Store) (id : ℕ) (nsPrefix key : String) (x y : BinaryFloat) : Prop :=
  ∀ (effects : List Effect) (srv : Server) (calls : ℕ), srv.attached = true →
    (srv.outcome calls).failure = none →
      Reports srv .object id nsPrefix key x (later s effects calls) ∧
        (Finds srv id nsPrefix key y (later s effects calls) ↔ value y = value x)

def NearMillionth : BinaryFloat → Prop
  | .finite negative m e =>
    ∃ k : ℕ, value (double.round negative k (10 ^ 6)) = value (.finite negative m e)
  | .infinite _ => False
  | .nan => False

/-- The same sign and, rounded, the same number of millionths. -/
def SixDecimals : BinaryFloat → BinaryFloat → Prop
  | .finite s m e, .finite s' m' e' => s = s' ∧ millionths m e = millionths m' e'
  | _, _ => False

def Sole (rows : List PropertyRow) (r : PropertyRow) : Prop :=
  rows.filter (fun q => SameKey q r) = [r]

section Rows

variable {rows : List PropertyRow} {r : PropertyRow}

theorem sole_of_absent (h : rows.filter (fun q => SameKey q r) = []) :
    Sole (insertOnce SameKey rows r) r := by
  have hp : ¬ Present SameKey rows r := by
    intro ⟨q, hq, hs⟩
    have := List.filter_eq_nil_iff.mp h q hq
    simp [hs] at this
  rw [Sole, insertOnce_of_absent hp, List.filter_append, h]
  simp [sameKey_refl]

theorem Sole.mem (h : Sole rows r) : r ∈ rows := by
  apply List.mem_of_mem_filter
  rw [h]
  exact List.mem_singleton_self r

theorem Sole.insertOnce (h : Sole rows r) (q : PropertyRow) :
    Sole (insertOnce SameKey rows q) r := by
  by_cases hp : Present SameKey rows q
  · rwa [insertOnce_of_present hp]
  · have hq : ¬ SameKey q r := by
      intro ⟨h1, h2, h3, h4⟩
      exact hp ⟨r, h.mem, h1.symm, h2.symm, h3.symm, h4.symm⟩
    rw [Sole, insertOnce_of_absent hp, List.filter_append, h]
    simp [hq]

end Rows

section Store

variable {s : Store} {o : Owner} {r : PropertyRow}

theorem sole_applyEffect (h : Sole (o.rows s) r) (e : Effect) :
    Sole (o.rows (applyEffect s e)) r := by
  cases e with
  | createObject p n t now => cases o <;> exact h
  | addRelation f t ty => cases o <;> exact h
  | addObjectProperty q =>
    simp only [applyEffect]
    cases hq : s.insertObjectProperty q with
    | none => exact h
    | some t =>
      obtain ⟨-, rfl⟩ := insertObjectProperty_eq hq
      cases o with
      | object => exact h.insertOnce q
      | relation => exact h
  | addRelationProperty q =>
    simp only [applyEffect]
    cases hq : s.insertRelationProperty q with
    | none => exact h
    | some t =>
      obtain ⟨-, rfl⟩ := insertRelationProperty_eq hq
      cases o with
      | object => exact h
      | relation => exact h.insertOnce q
  | addPrefix q =>
    simp only [applyEffect]
    cases hq : s.insertPrefix q with
    | none => exact h
    | some t =>
      obtain ⟨-, rfl⟩ := insertPrefix_eq hq
      cases o <;> exact h

theorem sole_later (h : Sole (o.rows s) r) (effects : List Effect) (calls : ℕ) :
    Sole (o.rows (later s effects calls).store) r := by
  show Sole (o.rows (runTrace applyEffect s effects)) r
  induction effects generalizing s with
  | nil => exact h
  | cons e effects ih => exact ih (sole_applyEffect h e)

/-- A first write that reports success has stored its row, however often it was executed. -/
theorem sole_of_ok {srv : Server} {w : World}
    (hfirst : (o.rows w.store).filter (fun q => SameKey q r) = [])
    (hok : (srv.execute (fun _ s => (o.insert s r).map fun t => ((), t)) w).1.1 = .ok) :
    Sole (o.rows (srv.execute (fun _ s => (o.insert s r).map fun t => ((), t)) w).2.store) r := by
  have hstep : ∀ s t, (o.rows s).filter (fun q => SameKey q r) = [] ∨ Sole (o.rows s) r →
      o.insert s r = some t → Sole (o.rows t) r := by
    intro s t h ht
    rw [rows_insert ht]
    rcases h with h | h
    · exact sole_of_absent h
    · exact h.insertOnce r
  obtain ⟨s, u, hkeep, hs⟩ := execute_ok hok
  obtain ⟨t, ht, he⟩ := Option.map_eq_some_iff.mp hs
  rw [← (Prod.mk.inj he).2]
  refine hstep s t ?_ ht
  apply hkeep (fun s => (o.rows s).filter (fun q => SameKey q r) = [] ∨ Sole (o.rows s) r)
  · intro s a t hI he
    obtain ⟨t', ht, he'⟩ := Option.map_eq_some_iff.mp he
    obtain rfl : t' = t := congrArg Prod.snd he'
    exact Or.inr (hstep s t' hI ht)
  · exact Or.inl hfirst

end Store

section Reading

variable {srv : Server} {w : World} (ha : srv.attached = true)
  (hf : (srv.outcome w.calls).failure = none)

include ha hf

theorem getProperties_sole {o : Owner} {r : PropertyRow} (h0 : r.id ≠ 0)
    (h : Sole (o.rows w.store) r) :
    (getProperties srv o r.id (some r.nsPrefix) (some r.name) r.type w).1.2 =
      [propertyEntry r] := by
  have hrows : propertiesOf (o.rows w.store) r.id (some r.nsPrefix) (some r.name) r.type = [r] := h
  have hperm := getProperties_perm ha hf o h0 (some r.nsPrefix) (some r.name) r.type
  rw [hrows] at hperm
  exact List.perm_singleton.mp hperm

theorem reports_iff {o : Owner} {id : ℕ} {p k : String} {x : BinaryFloat} (h0 : id ≠ 0)
    (hx : (toText x).length < cplValueLen) (h : Sole (o.rows w.store) (numericalRow id p k x)) :
    Reports srv o id p k x w ↔ ReadsBack x := by
  have hlist : (getProperties srv o id (some p) (some k) numericalProperty w).1.2 =
      [propertyEntry (numericalRow id p k x)] := getProperties_sole ha hf h0 h
  have hentry : (propertyEntry (numericalRow id p k x)).value = toText x := fetchText_of_short hx
  unfold Reports ReadsBack numericalProperties
  rw [hlist]
  simp only [readAll, collectNumerical, hentry]
  constructor
  · rintro ⟨e, he, hv⟩
    cases hread : ofText (toText x) with
    | none => simp [hread] at he
    | some y =>
      simp only [hread, Option.map_some, Option.some.injEq, List.cons.injEq, and_true] at he
      subst he
      exact ⟨y, rfl, hv⟩
  · rintro ⟨y, hread, hv⟩
    simp only [hread, Option.map_some, Option.some.injEq, List.cons.injEq, and_true]
    exact ⟨_, rfl, hv⟩

/-- The lookup compares the texts. -/
theorem finds_iff {id : ℕ} {p k : String} {x y : BinaryFloat}
    (h : Sole w.store.objectProperties (numericalRow id p k x)) :
    Finds srv id p k y w ↔ toText y = toText x := by
  have hids : ∀ rows : List PropertyRow,
      ((rows.map propertyCells).map lookupObjectByPropertyStmts.project).filterMap readId =
        rows.map (·.id) := by
    intro rows
    induction rows with
    | nil => rfl
    | cons r rows ih =>
      have hr : readId (lookupObjectByPropertyStmts.project (propertyCells r)) = some r.id := rfl
      simp only [List.map_cons, List.filterMap_cons, hr]
      rw [ih]
  have hlookup : srv.lookupObjectByNumericalProperty (some p) (some k) y w =
      srv.cplOdbcLookupObjectByProperty p k (toText y) numericalProperty w := by
    simp only [Server.lookupObjectByNumericalProperty, Server.lookupObjectByProperty,
      Server.ensureInitialized, ha, if_true]
  have hm := @matching_lookupByProperty w.store numericalProperty p k (toText y)
  unfold Finds
  rw [hlookup, Server.cplOdbcLookupObjectByProperty,
    (select_answers (lookupObjectByPropertyStmts, _) hf hm).2, reportIds_snd]
  have hperm := (((srv.scan_perm w.calls ((w.store.objectProperties.filter fun r =>
    r.nsPrefix = p ∧ r.name = k ∧ r.value = toText y ∧ r.type = numericalProperty).map
      propertyCells)).map lookupObjectByPropertyStmts.project).filterMap readId)
  rw [hids] at hperm
  refine hperm.mem_iff.trans ?_
  rw [List.mem_map]
  constructor
  · rintro ⟨r, hr, hid⟩
    rw [List.mem_filter, decide_eq_true_eq] at hr
    obtain ⟨hr, hp, hk, hv, ht⟩ := hr
    have hsame : r ∈ w.store.objectProperties.filter
        (fun q => SameKey q (numericalRow id p k x)) := by
      rw [List.mem_filter, decide_eq_true_eq]
      exact ⟨hr, hid, hp, hk, ht⟩
    rw [h, List.mem_singleton] at hsame
    rw [← hv, hsame]
    rfl
  · intro hv
    refine ⟨numericalRow id p k x, ?_, rfl⟩
    rw [List.mem_filter, decide_eq_true_eq]
    exact ⟨h.mem, rfl, rfl, hv.symm, rfl⟩

end Reading

theorem sixDecimals_iff {x y : BinaryFloat} (hx : InFormat double x) (hy : InFormat double y) :
    SixDecimals x y ↔ toText y = toText x := by
  cases x with
  | infinite s => exact hx.elim
  | nan => exact hx.elim
  | finite s m e =>
    cases y with
    | infinite s => exact hy.elim
    | nan => exact hy.elim
    | finite s' m' e' =>
      rw [SixDecimals, eq_comm (a := toText _), toText_inj]

theorem nearMillionth_iff {x : BinaryFloat} (hx : InFormat double x) :
    NearMillionth x ↔ ReadsBack x := by
  cases x with
  | infinite s => exact hx.elim
  | nan => exact hx.elim
  | finite s m e => exact (readsBack_iff hx).symm

/-- After a first write that reports success, the number is kept exactly when it is the double
nearest to a multiple of a millionth and the other number agrees with it to six decimals only if
it is equal, and then has the same sign bit. -/
theorem keeps_iff {srv : Server} (ha : srv.attached = true) {w : World} {id : ℕ} {p k : String}
    {x y : BinaryFloat} (hx : InFormat double x) (hy : InFormat double y)
    (hfirst : ∀ r ∈ w.store.objectProperties,
      ¬ (r.id = id ∧ r.nsPrefix = p ∧ r.name = k ∧ r.type = numericalProperty))
    (hok : (srv.addObjectNumericalProperty id (some p) (some k) x w).1 = .ok) :
    Keeps (srv.addObjectNumericalProperty id (some p) (some k) x w).2.store id p k x y ↔
      NearMillionth x ∧ (SixDecimals x y ↔ value y = value x) := by
  have h0 : id ≠ 0 := by
    intro h0
    simp [Server.addObjectNumericalProperty, Server.addProperty, Server.ensureInitialized, ha,
      cplNone, h0] at hok
  have hid : ¬ id = cplNone := h0
  have hperform : srv.addObjectNumericalProperty id (some p) (some k) x w =
      codeOnly (srv.execute fun _ s => (Owner.object.insert s (numericalRow id p k x)).map
        fun t => ((), t)) w := by
    simp only [Server.addObjectNumericalProperty, Server.addProperty, Server.ensureInitialized, ha,
      if_true, if_neg hid, Server.cplOdbcAddObjectProperty, Owner.insert, numericalRow]
  rw [hperform] at hok ⊢
  have hsole := sole_of_ok (o := .object) (r := numericalRow id p k x) (w := w) (by
    rw [List.filter_eq_nil_iff]
    intro r hr hs
    exact hfirst r hr (of_decide_eq_true hs)) hok
  have hlen : (toText x).length < cplValueLen :=
    (length_toText_lt hx).trans (by decide)
  rw [nearMillionth_iff hx, sixDecimals_iff hx hy]
  constructor
  · intro h
    obtain ⟨hreports, hfinds⟩ := h [] .ideal 0 rfl rfl
    have hnow := sole_later hsole [] 0
    exact ⟨(reports_iff (w := later _ [] 0) rfl rfl h0 hlen hnow).mp hreports,
      (finds_iff (w := later _ [] 0) rfl rfl hnow).symm.trans hfinds⟩
  · rintro ⟨hreads, htext⟩ effects srv' calls ha' hf'
    have hnow := sole_later hsole effects calls
    exact ⟨(reports_iff ha' hf' h0 hlen hnow).mpr hreads, (finds_iff ha' hf' hnow).trans htext⟩

def tiny : BinaryFloat := .finite false 1 (-30)

theorem tiny_lost : entityWorld.store.Reachable ∧ InFormat double tiny ∧
    (Server.ideal.addObjectNumericalProperty 1 (some "p") (some "k") tiny entityWorld).1 = .ok ∧
    ofText (toText tiny) = some (.finite false 0 0) ∧
    ¬ Keeps (Server.ideal.addObjectNumericalProperty 1 (some "p") (some "k") tiny
      entityWorld).2.store 1 "p" "k" tiny tiny := by
  have hread : ofText (toText tiny) = some (.finite false 0 0) := by decide
  refine ⟨.createObject "" "e" cplEntity 0 (by decide) .fresh, ⟨by decide, by decide, by decide⟩,
    by decide, hread, ?_⟩
  intro h
  have hreports := (h [] .ideal 0 rfl rfl).1
  have hsole : Sole (Owner.object.rows (later (Server.ideal.addObjectNumericalProperty 1 (some "p")
      (some "k") tiny entityWorld).2.store [] 0).store) (numericalRow 1 "p" "k" tiny) := rfl
  obtain ⟨y, hy, hv⟩ := (reports_iff (w := later _ [] 0) rfl rfl (by decide) (by decide)
    hsole).mp hreports
  rw [hread] at hy
  cases hy
  norm_num [value, tiny] at hv

/-- Two and a half is kept apart from three. -/
theorem half_kept :
    Keeps (Server.ideal.addObjectNumericalProperty 1 (some "test") (some "LABEL")
      (.finite false 5 (-1)) entityWorld).2.store 1 "test" "LABEL" (.finite false 5 (-1))
        (.finite false 3 0) := by
  have hround : double.round false 2500000 (10 ^ 6) = .finite false (5 * 2 ^ 50) (-51) := by decide
  have hnear : NearMillionth (.finite false 5 (-1)) := by
    refine ⟨2500000, ?_⟩
    rw [hround]
    norm_num [value]
  have hapart : SixDecimals (.finite false 5 (-1)) (.finite false 3 0) ↔
      value (.finite false 3 0) = value (.finite false 5 (-1)) := by
    apply iff_of_false
    · intro h
      exact absurd h.2 (by decide)
    · norm_num [value]
  have hx : InFormat double (.finite false 5 (-1)) := ⟨by decide, by decide, by decide⟩
  have hy : InFormat double (.finite false 3 0) := ⟨by decide, by decide, by decide⟩
  have hfirst : ∀ r ∈ entityWorld.store.objectProperties, ¬ (r.id = 1 ∧ r.nsPrefix = "test" ∧
      r.name = "LABEL" ∧ r.type = numericalProperty) := by
    intro r hr
    cases hr
  exact (keeps_iff (rfl : Server.ideal.attached = true) hx hy hfirst (by decide)).mpr
    ⟨hnear, hapart⟩

end NumericalProperties
