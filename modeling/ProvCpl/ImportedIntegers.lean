import ProvCpl.BundleMembers
import ProvCpl.NumericalProperties
import ProvCpl.RecordProperties

/-! # Integers in an imported document

The importer converts the value of a numerical member to single precision before it stores it.
An integer of a record comes back exactly when it has at most 24 significant bits, and for a
relation only when the record is not named like one of its endpoint keys. -/
namespace ImportedIntegers

open CplTypes QualifiedName JsonValue ProvStore ProvServer ServerSpecs ImportDocument
open ImportFrame ImportAccepts ImportGraph ImportLog PropertyWrites PropertyFilters InsertOnce
open ValidateDocument RecordProperties NumericalProperties EarlyExit ProgramLog
open FloatText FloatRounding DecimalText

/-- At most 24 significant bits. -/
def Single (n : ℤ) : Prop := ∃ a k : ℕ, a < 2 ^ 24 ∧ n.natAbs = a * 2 ^ k

section Conversion

variable {n : ℤ}

theorem signed_natAbs (n : ℤ) : (if decide (n < 0) then -1 else 1) * (n.natAbs : ℚ) = n := by
  have habs : (n.natAbs : ℤ) = |n| := Int.natCast_natAbs n
  have hcast : (n.natAbs : ℚ) = ((|n| : ℤ) : ℚ) := by rw [← habs]; rfl
  rw [hcast]
  by_cases h : n < 0
  · rw [abs_of_neg h]
    simp [h]
  · rw [abs_of_nonneg (not_lt.mp h)]
    simp [h]

theorem represents_single (hn : n.natAbs ≤ 2 ^ 53) :
    Represents float ((n.natAbs : ℚ) / (1 : ℕ)) ↔ Single n := by
  rw [Nat.cast_one, div_one]
  constructor
  · intro ⟨a, e, ha, _, hq, _⟩
    by_cases he : 0 ≤ e
    · obtain ⟨k, rfl⟩ := Int.eq_ofNat_of_zero_le he
      refine ⟨a, k, ha, ?_⟩
      exact_mod_cast hq
    · refine ⟨n.natAbs, 0, ?_, by simp⟩
      have hle : (n.natAbs : ℚ) ≤ a := by
        rw [hq]
        apply mul_le_of_le_one_right (Nat.cast_nonneg a)
        exact zpow_le_one_of_nonpos₀ one_le_two (by omega)
      have : n.natAbs ≤ a := by exact_mod_cast hle
      exact lt_of_le_of_lt this ha
  · intro ⟨a, k, ha, hq⟩
    refine ⟨a, k, ha, ?_, ?_, ?_⟩
    · show (-149 : ℤ) ≤ k
      omega
    · rw [hq]
      push_cast
      rw [zpow_natCast]
    · have hle : (n.natAbs : ℚ) ≤ 2 ^ 53 := by exact_mod_cast hn
      show (n.natAbs : ℚ) < 2 ^ (128 : ℤ)
      norm_num at hle ⊢
      linarith

theorem ofInt_run (h0 : n ≠ 0) (hn : n.natAbs ≤ 2 ^ 53) :
    unitExponent float n.natAbs 1 = binaryExponent n.natAbs 1 - 23 ∧
      0 ≤ binaryExponent n.natAbs 1 ∧ binaryExponent n.natAbs 1 ≤ 53 ∧
      float.ofInt n = .finite (n < 0) (mantissa float n.natAbs 1)
        (unitExponent float n.natAbs 1) := by
  have hpos : 0 < n.natAbs := Int.natAbs_pos.mpr h0
  obtain ⟨hlow, hhigh⟩ := binaryExponent_spec (d := 1) hpos one_pos
  rw [Nat.cast_one, div_one] at hlow hhigh
  have h1 : (1 : ℚ) ≤ n.natAbs := by exact_mod_cast hpos
  have h2 : (n.natAbs : ℚ) ≤ 2 ^ (53 : ℤ) := by exact_mod_cast hn
  have htwo : (1 : ℚ) < 2 := one_lt_two
  have hk0 : 0 < binaryExponent n.natAbs 1 + 1 := by
    apply (zpow_lt_zpow_iff_right₀ htwo).mp
    rw [zpow_zero]
    exact lt_of_le_of_lt h1 hhigh
  have hk53 : binaryExponent n.natAbs 1 ≤ 53 :=
    (zpow_le_zpow_iff_right₀ htwo).mp (le_trans hlow h2)
  have hmin : float.minExponent = -149 := rfl
  have hprec : (float.precision : ℤ) = 24 := rfl
  have hmax : float.maxExponent = 127 := rfl
  have hunit : unitExponent float n.natAbs 1 = binaryExponent n.natAbs 1 - 23 := by
    unfold unitExponent
    omega
  exact ⟨hunit, by omega, hk53, round_inRange hpos one_pos (by omega)⟩

theorem value_ofInt_iff (hn : n.natAbs ≤ 2 ^ 53) :
    value (float.ofInt n) = some (n : ℚ) ↔ Single n := by
  by_cases h0 : n = 0
  · subst h0
    apply iff_of_true
    · have hzero : float.ofInt 0 = .finite false 0 0 := by decide
      rw [hzero]
      norm_num [value]
    · exact ⟨0, 0, by decide, rfl⟩
  have hpos : 0 < n.natAbs := Int.natAbs_pos.mpr h0
  obtain ⟨-, -, -, hrun⟩ := ofInt_run h0 hn
  have hsign : (if decide (n < 0) then (-1 : ℚ) else 1) ≠ 0 := by split <;> norm_num
  have hvalue : value (float.ofInt n) = some (n : ℚ) ↔
      (mantissa float n.natAbs 1 : ℚ) * 2 ^ unitExponent float n.natAbs 1 =
        (n.natAbs : ℚ) / (1 : ℕ) := by
    rw [hrun, value, Option.some.injEq, Nat.cast_one, div_one]
    conv_lhs => rw [← signed_natAbs n]
    exact mul_right_inj' hsign
  rw [hvalue, ← represents_single hn]
  constructor
  · exact represents_of_round hpos one_pos hrun
  · intro hrep
    obtain ⟨m, hround, hm⟩ := round_exact (decide (n < 0)) hpos one_pos hrep
    have hsame : (BinaryFloat.finite (decide (n < 0)) (mantissa float n.natAbs 1)
        (unitExponent float n.natAbs 1)) = .finite (decide (n < 0)) m
          (unitExponent float n.natAbs 1) := hrun.symm.trans hround
    rw [(BinaryFloat.finite.inj hsame).2.1]
    exact hm

theorem readsBack_ofInt (hn : n.natAbs ≤ 2 ^ 53) :
    InFormat double (float.ofInt n) ∧ ReadsBack (float.ofInt n) := by
  by_cases h0 : n = 0
  · subst h0
    have hx : InFormat double (.finite false 0 0) := ⟨by decide, by decide, by decide⟩
    exact ⟨hx, readsBack_integer (N := 0) (represents_of_inFormat hx) (by simp)⟩
  have hpos : 0 < n.natAbs := Int.natAbs_pos.mpr h0
  obtain ⟨hunit, hk0, hk53, hrun⟩ := ofInt_run h0 hn
  have hm := mantissa_le (f := float) hpos one_pos
  have hx : InFormat double (float.ofInt n) := by
    rw [hrun]
    refine ⟨lt_of_le_of_lt hm (by decide), ?_, ?_⟩
    · show -1074 ≤ unitExponent float n.natAbs 1
      omega
    · show unitExponent float n.natAbs 1 + 53 ≤ 1024
      omega
  refine ⟨hx, ?_⟩
  rw [hrun] at hx ⊢
  have hrep := represents_of_inFormat hx
  by_cases he : 0 ≤ unitExponent float n.natAbs 1
  · obtain ⟨j, hj⟩ := Int.eq_ofNat_of_zero_le he
    apply readsBack_integer (N := mantissa float n.natAbs 1 * 2 ^ j) hrep
    rw [hj]
    push_cast
    rw [zpow_natCast]
  · have hsmall : Single n := by
      refine ⟨n.natAbs, 0, ?_, by simp⟩
      have hlt := (binaryExponent_spec (d := 1) hpos one_pos).2
      rw [Nat.cast_one, div_one] at hlt
      have hle : (2 : ℚ) ^ (binaryExponent n.natAbs 1 + 1) ≤ 2 ^ (24 : ℤ) :=
        zpow_le_zpow_right₀ one_le_two (by omega)
      have : (n.natAbs : ℚ) < 2 ^ 24 := by exact_mod_cast lt_of_lt_of_le hlt hle
      exact_mod_cast this
    obtain ⟨m, hround, hv⟩ := round_exact (decide (n < 0)) hpos one_pos
      ((represents_single hn).mpr hsmall)
    have hsame : (BinaryFloat.finite (decide (n < 0)) (mantissa float n.natAbs 1)
        (unitExponent float n.natAbs 1)) = .finite (decide (n < 0)) m
          (unitExponent float n.natAbs 1) := hrun.symm.trans hround
    apply readsBack_integer (N := n.natAbs) hrep
    rw [(BinaryFloat.finite.inj hsame).2.1, hv, Nat.cast_one, div_one]

end Conversion

section Rows

def integerOf : Json → Option ℤ
  | .integer n => some n
  | .unsigned n => some n
  | _ => none

def UniqueIn (members : List (String × Json)) (m : String × Json) : Prop :=
  ∀ m' ∈ members, storedTokens m'.1 = storedTokens m.1 → m' = m

def integerRow (id : ℕ) (name : String) (n : ℤ) : PropertyRow :=
  numericalRow id (storedTokens name).1 (storedTokens name).2 (float.ofInt n)

/-- Each integer with name tokens of its own has its row, and no other row has its key. -/
def HasIntegers (o : Owner) (id : ℕ) (members : List (String × Json)) (t : Store) : Prop :=
  ∀ m ∈ members, ∀ n, integerOf m.2 = some n → UniqueIn members m →
    Sole (o.rows t) (integerRow id m.1 n)

structure Filling (o : Owner) (id : ℕ) (done : List (String × Json)) (t : Store) : Prop where
  nonzero : id ≠ 0
  stored : id ∈ o.ids t
  rows : ∀ q ∈ o.rows t, q.id = id → ∃ m ∈ done, (q.nsPrefix, q.name) = storedTokens m.1
  integers : HasIntegers o id done t

variable {o : Owner} {id : ℕ} {done : List (String × Json)} {t t' : Store} {r : PropertyRow}

theorem rows_of_insert (h : o.insert t r = some t') (o' : Owner) :
    o'.rows t' = if o' = o then InsertOnce.insertOnce SameKey (o'.rows t) r else o'.rows t := by
  cases o with
  | object =>
    obtain ⟨-, rfl⟩ := insertObjectProperty_eq h
    cases o' <;> rfl
  | relation =>
    obtain ⟨-, rfl⟩ := insertRelationProperty_eq h
    cases o' <;> rfl

theorem ids_of_insert (h : o.insert t r = some t') (o' : Owner) : o'.ids t' = o'.ids t := by
  cases o with
  | object =>
    obtain ⟨-, rfl⟩ := insertObjectProperty_eq h
    cases o' <;> rfl
  | relation =>
    obtain ⟨-, rfl⟩ := insertRelationProperty_eq h
    cases o' <;> rfl

theorem HasIntegers.insert {o' : Owner} (h : HasIntegers o id done t)
    (ht : o'.insert t r = some t') : HasIntegers o id done t' := by
  intro m hm n hn hunique
  have hsole := h m hm n hn hunique
  rw [rows_of_insert ht]
  split
  · exact hsole.insertOnce r
  · exact hsole

theorem Filling.insert (h : Filling o id done t) {e : String × Json} (hid : r.id = id)
    (htokens : (r.nsPrefix, r.name) = storedTokens e.1)
    (hrow : ∀ n, integerOf e.2 = some n → r = integerRow id e.1 n)
    (ht : o.insert t r = some t') : Filling o id (done ++ [e]) t' := by
  have hrows := rows_of_insert ht o
  rw [if_pos rfl] at hrows
  refine ⟨h.nonzero, (ids_of_insert ht o).symm ▸ h.stored, ?_, ?_⟩
  · intro q hq hqid
    rw [hrows] at hq
    rcases mem_insertOnce hq with hq | rfl
    · obtain ⟨m, hm, hmt⟩ := h.rows q hq hqid
      exact ⟨m, List.mem_append_left _ hm, hmt⟩
    · exact ⟨e, by simp, htokens⟩
  · intro m hm n hn hunique
    rw [hrows]
    by_cases hdone : m ∈ done
    · apply (h.integers m hdone n hn ?_).insertOnce
      intro m' hm' he
      exact hunique m' (List.mem_append_left _ hm') he
    · obtain rfl : m = e := by simpa [hdone] using hm
      rw [hrow n hn]
      apply sole_of_absent
      rw [List.filter_eq_nil_iff]
      intro q hq hs
      obtain ⟨h1, h2, h3, -⟩ := of_decide_eq_true hs
      obtain ⟨m', hm', hmt⟩ := h.rows q hq h1
      have hsame : storedTokens m'.1 = storedTokens m.1 := by
        rw [← hmt, h2, h3]
        rfl
      exact hdone (hunique m' (List.mem_append_left _ hm') hsame ▸ hm')

end Rows

section Writes

def addProperty (srv : Server) : Owner → ℕ → String → String → String → ℤ → Call World ReturnCode
  | .object => srv.cplOdbcAddObjectProperty
  | .relation => srv.cplOdbcAddRelationProperty

variable {srv : Server} (hsrv : Reliable srv) {o : Owner} {id : ℕ}

include hsrv

theorem addProperty_stored {w : World} (h0 : id ≠ 0) (h : id ∈ o.ids w.store) (p k v : String)
    (type : ℤ) : o.insert w.store ⟨id, p, k, v, type⟩ =
      some (srv.addProperty (addProperty srv o) id (some p) (some k) (some v) type w).2.store := by
  have hid : ¬ id = cplNone := h0
  rw [insert_eq h]
  cases o with
  | object =>
    simp only [Server.addProperty, Server.ensureInitialized, hsrv.attached, if_true, if_neg hid,
      addProperty, addObjectProperty_store hsrv]
    exact (congrArg (fun u : Option Store => some (u.getD w.store))
      (insert_eq (o := .object) (r := ⟨id, p, k, v, type⟩) h)).symm
  | relation =>
    simp only [Server.addProperty, Server.ensureInitialized, hsrv.attached, if_true, if_neg hid,
      addProperty, addRelationProperty_store hsrv]
    exact (congrArg (fun u : Option Store => some (u.getD w.store))
      (insert_eq (o := .relation) (r := ⟨id, p, k, v, type⟩) h)).symm

theorem ensures_importProperty {I J : Store → Prop} (e : String × Json)
    (hstored : ∀ t, I t → id ≠ 0 ∧ id ∈ o.ids t)
    (hstep : ∀ t t' (r : PropertyRow), I t → r.id = id →
      (r.nsPrefix, r.name) = storedTokens e.1 →
      (∀ n, integerOf e.2 = some n → r = integerRow id e.1 n) →
      o.insert t r = some t' → J t') :
    Ensures I (importProperty (ownerWriter srv o) id e) fun _ => J := by
  have hwrite : ∀ v type c, (∀ n, integerOf e.2 = some n →
      (⟨id, (storedTokens e.1).1, (storedTokens e.1).2, v, type⟩ : PropertyRow) =
        integerRow id e.1 n) →
      (∀ w : World, c w = srv.addProperty (addProperty srv o) id (some (storedTokens e.1).1)
        (some (storedTokens e.1).2) (some v) type w) →
      Ensures I (callUnchecked c) fun _ => J := by
    intro v type c hrow hc
    apply ensures_callUnchecked
    intro w hw
    obtain ⟨h0, h⟩ := hstored w.store hw
    have hrun := addProperty_stored hsrv h0 h (storedTokens e.1).1 (storedTokens e.1).2 v type
    rw [hc w]
    exact hstep w.store _ ⟨id, (storedTokens e.1).1, (storedTokens e.1).2, v, type⟩ hw rfl rfl
      hrow hrun
  obtain ⟨name, value⟩ := e
  cases value with
  | string s =>
    apply hwrite (cStr s) stringProperty _ (by simp [integerOf])
    intro w
    cases o <;> rfl
  | integer n | unsigned n =>
    apply hwrite (toText (float.ofInt n)) numericalProperty
    · intro n' hn
      cases hn
      rfl
    · intro w
      cases o <;> rfl
  | float x =>
    apply hwrite (toText (float.cast x)) numericalProperty _ (by simp [integerOf])
    intro w
    cases o <;> rfl
  | boolean b =>
    apply hwrite (boolText b) booleanProperty _ (by simp [integerOf])
    intro w
    cases o <;> rfl
  | null => exact ensures_leave
  | array l => exact ensures_leave
  | object m => exact ensures_leave

end Writes

structure CreatedRecord where
  entry : Option ProvRelationData
  record : String × Json
  id : ℕ

def createdFor (a : Attempt) : Option CreatedRecord :=
  match a.write, a.id with
  | .object _ e, some id => some ⟨none, e, id⟩
  | .relation d e, some id => some ⟨some d, e, id⟩
  | _, _ => none

def createdIn (log : List Attempt) : List CreatedRecord := log.filterMap createdFor

def CreatedRecord.owner (k : CreatedRecord) : Owner :=
  match k.entry with
  | none => .object
  | some _ => .relation

def CreatedRecord.Skipped (k : CreatedRecord) : Prop :=
  ∃ d, k.entry = some d ∧ NamedLikeEnd d k.record

def CreatedRecord.origin (k : CreatedRecord) : Option ProvRelationData × (String × Json) :=
  (k.entry, k.record)

def allRecords (document : Json) : List (Option ProvRelationData × (String × Json)) :=
  (objectSections.flatMap fun u => (document.membersAt u.2).map fun e => (none, e)) ++
    (documentRecords document).map fun r => (some r.1, r.2)

structure Filled (known : List CreatedRecord) (t : Store) : Prop where
  reachable : t.Reachable
  integers : ∀ k ∈ known, ¬ k.Skipped → HasIntegers k.owner k.id k.record.2.members t

section Known

variable {known : List CreatedRecord} {t t' : Store} {o : Owner} {r : PropertyRow}

theorem Filled.insert (h : Filled known t) (h0 : r.id ≠ 0) (ht : o.insert t r = some t') :
    Filled known t' := by
  constructor
  · cases o with
    | object => exact h.reachable.addObjectProperty r h0 ht
    | relation => exact h.reachable.addRelationProperty r h0 ht
  · intro k hk hs
    exact (h.integers k hk hs).insert ht

theorem Filled.of_rows (h : Filled known t) (hreach : t'.Reachable)
    (hrows : ∀ o : Owner, o.rows t' = o.rows t) : Filled known t' := by
  refine ⟨hreach, ?_⟩
  intro k hk hs m hm n hn hunique
  rw [hrows]
  exact h.integers k hk hs m hm n hn hunique

theorem Filled.insertObject (h : Filled known t) (p n : String) {type : ℤ} (now : ℕ)
    (ht : EnsureOType type) : Filled known (t.insertObject p n type now) := by
  apply h.of_rows (.createObject p n type now ht h.reachable)
  intro o
  cases o <;> rfl

theorem Filled.insertRelation (h : Filled known t) {f g : ℕ} {type : ℤ} (hf : f ≠ 0) (hg : g ≠ 0)
    (ht : EnsureRType type) : Filled known (t.insertRelation f g type) := by
  apply h.of_rows (.addRelation f g type hf hg ht h.reachable)
  intro o
  cases o <;> rfl

theorem Filled.insertPrefix (h : Filled known t) {q : PrefixRow} (h0 : q.id ≠ 0)
    (ht : t.insertPrefix q = some t') : Filled known t' := by
  apply h.of_rows (h.reachable.addPrefix q h0 ht)
  obtain ⟨-, rfl⟩ := insertPrefix_eq ht
  intro o
  cases o <;> rfl

theorem importClosed_filled (known : List CreatedRecord) : ImportClosed (Filled known) 0 0 where
  next := fun _ _ => ⟨Nat.zero_le _, Nat.zero_le _⟩
  object := fun _ p n _ now ht h => h.insertObject p n now ht
  relation := fun _ _ _ _ hf hg ht h => h.insertRelation hf hg ht
  objectProperty := fun _ _ _ _ h0 _ ht h => h.insert (o := .object) h0 ht
  relationProperty := fun _ _ _ _ h0 _ ht h => h.insert (o := .relation) h0 ht
  prefixRow := fun _ _ _ _ h0 ht h => h.insertPrefix h0 ht

theorem Filled.close (h : Filled known t) {k : CreatedRecord}
    (hk : ¬ k.Skipped → HasIntegers k.owner k.id k.record.2.members t) :
    Filled (known ++ [k]) t := by
  refine ⟨h.reachable, ?_⟩
  intro k' hk' hs
  rcases List.mem_append.mp hk' with hk' | hk'
  · exact h.integers k' hk' hs
  · obtain rfl := List.mem_singleton.mp hk'
    exact hk hs

theorem filling_newObject (h : t.Reachable) (p n : String) (type : ℤ) (now : ℕ) :
    Filling .object t.nextObject [] (t.insertObject p n type now) := by
  have hvalid := h.valid
  refine ⟨Nat.pos_iff_ne_zero.mp hvalid.next_object, ?_, ?_, ?_⟩
  · simp [Owner.ids, Store.insertObject]
  · intro q hq hid
    obtain ⟨c, hc, hcid⟩ := List.mem_map.mp (hvalid.objectProperty_owner q hq)
    have := hvalid.object_bound c hc
    omega
  · intro m hm
    cases hm

theorem filling_newRelation (h : t.Reachable) (f g : ℕ) (type : ℤ) :
    Filling .relation t.nextRelation [] (t.insertRelation f g type) := by
  have hvalid := h.valid
  refine ⟨Nat.pos_iff_ne_zero.mp hvalid.next_relation, ?_, ?_, ?_⟩
  · simp [Owner.ids, Store.insertRelation]
  · intro q hq hid
    obtain ⟨c, hc, hcid⟩ := List.mem_map.mp (hvalid.relationProperty_owner q hq)
    have := hvalid.relation_bound c hc
    omega
  · intro m hm
    cases hm

theorem Filling.insertRelation {id : ℕ} (h : Filling .relation id [] t) (f g : ℕ) (type : ℤ) :
    Filling .relation id [] (t.insertRelation f g type) := by
  refine ⟨h.nonzero, ?_, h.rows, ?_⟩
  · have hs := h.stored
    simp only [Owner.ids, Store.insertRelation, List.map_append, List.mem_append] at hs ⊢
    exact Or.inl hs
  · intro m hm
    cases hm

end Known

section Run

variable {srv : Server} (hsrv : Reliable srv) {known : List CreatedRecord}

include hsrv

theorem ensures_importProperties {o : Owner} {id : ℕ} (record : Json) :
    Ensures (fun t => Filled known t ∧ Filling o id [] t)
      (importProperties (ownerWriter srv o) id record)
      fun _ t => Filled known t ∧ HasIntegers o id record.members t := by
  have step : ∀ (done : List (String × Json)) e,
      Ensures (fun t => Filled known t ∧ Filling o id done t)
        (importProperty (ownerWriter srv o) id e)
        fun _ t => Filled known t ∧ Filling o id (done ++ [e]) t := by
    intro done e
    apply ensures_importProperty hsrv e
    · intro t h
      exact ⟨h.2.nonzero, h.2.stored⟩
    · intro t t' r h hid htokens hrow ht
      exact ⟨h.1.insert (hid ▸ h.2.nonzero) ht, h.2.insert hid htokens hrow ht⟩
  have hitems : ∀ items, record.items = some items → record.members = items ∨
      record.members = [] := by
    intro items h
    cases record with
    | object m =>
      cases h
      exact Or.inl rfl
    | _ => exact Or.inr rfl
  refine ensures_bind (Q := fun items t => record.items = some items ∧
    (Filled known t ∧ Filling o id [] t)) ?_ fun items => ensures_assume fun h => ?_
  · exact ensures_conseq (ensures_of_keeps_value (keeps_orThrow_value _)) (fun _ h => h)
      fun _ _ h => ⟨h.2, h.1⟩
  · apply ensures_conseq (ensures_forEach (I := fun done t => Filled known t ∧
      Filling o id done t) step) (fun _ h => h)
    intro _ t h'
    refine ⟨h'.1, ?_⟩
    rcases hitems items h with he | he
    · rw [he]
      exact h'.2.integers
    · rw [he]
      intro m hm
      cases hm

/-- Each of the records has an owner, and the rows of its integers. -/
structure Imported (recs : List (Option ProvRelationData × (String × Json))) (t : Store)
    (l : List Attempt) : Prop where
  filled : Filled (createdIn l) t
  origins : (createdIn l).map CreatedRecord.origin = recs

omit hsrv in
theorem Imported.of_record {α : Type} {m : Logged α}
    {recs : List (Option ProvRelationData × (String × Json))}
    {entry : Option ProvRelationData} {e : String × Json}
    (h : ∀ known, LogEnsures (fun t l => Filled known t ∧ createdIn l = known) m fun _ t l =>
      ∃ id, Filled (known ++ [⟨entry, e, id⟩]) t ∧ createdIn l = known ++ [⟨entry, e, id⟩]) :
    LogEnsures (Imported recs) m fun _ => Imported (recs ++ [(entry, e)]) := by
  rintro ⟨w, l⟩ hs
  refine (logs_conseq (h (createdIn l)) (fun t l h => h) fun _ t l' h => ?_) (w, l) ⟨hs.filled, rfl⟩
  obtain ⟨id, hfilled, hl⟩ := h
  refine ⟨hl ▸ hfilled, ?_⟩
  rw [hl, List.map_append, hs.origins]
  rfl

omit hsrv in
theorem Imported.of_unselected {α : Type} {m : Logged α} {n : Api α} {R : α → Prop}
    {recs : List (Option ProvRelationData × (String × Json))} (he : Erases m n)
    (hk : ∀ known, Keeps (Filled known) n R) (hu : Unselected createdFor m) :
    LogEnsures (Imported recs) m fun _ => Imported recs := by
  rintro ⟨w, l⟩ hs
  refine (logs_conseq (logs_conj (logs_of_keeps he (hk (createdIn l))) (hu (createdIn l)))
    (fun t l h => h) fun _ t l' h => ?_) (w, l) ⟨hs.filled, rfl⟩
  have hl : createdIn l' = createdIn l := h.2
  exact ⟨hl ▸ h.1, hl ▸ hs.origins⟩

theorem filled_logObject (type : ℤ) (tbl : LookupTable) (e : String × Json) :
    LogEnsures (fun t l => Filled known t ∧ createdIn l = known) (logObject srv type tbl e)
      fun _ t l => ∃ id, Filled (known ++ [⟨none, e, id⟩]) t ∧
        createdIn l = known ++ [⟨none, e, id⟩] := by
  refine logs_bind (Q := fun id t l => (Filled known t ∧ Filling .object id [] t) ∧
    createdIn l = known ++ [⟨none, e, id⟩]) (logs_logId ?_) fun id => ?_
  · intro w l ⟨hfilled, hl⟩ hok id hid
    have ht := (createObject_ok hok).2.1
    rw [createObject_reliable hsrv _ _ ht] at hid ⊢
    cases hid
    refine ⟨⟨hfilled.insertObject _ _ _ ht, filling_newObject hfilled.reachable _ _ _ _⟩, ?_⟩
    rw [createdIn, List.filterMap_append, ← createdIn, hl]
    rfl
  · have hmembers : LogEnsures (fun t _ => Filled known t ∧ Filling .object id [] t)
        (logProperties (objectWriter srv) .objectProperty id e.2)
        fun _ t _ => Filled known t ∧ HasIntegers .object id e.2.members t :=
      logs_of_erases (erases_logProperties _ _ _ _)
        (ensures_importProperties hsrv (o := .object) e.2)
    refine logs_bind (logs_conj hmembers
      (unselected_logProperties (fun _ _ _ _ => rfl) e.2 _)) fun _ => logs_pure fun t l h => ?_
    exact ⟨id, h.1.1.close fun _ => h.1.2, h.2⟩

theorem imported_logObjectsJson {recs : List (Option ProvRelationData × (String × Json))}
    (type : ℤ) (typeStr : String) (tbl : LookupTable) (document : Json) :
    LogEnsures (Imported recs) (logObjectsJson srv type typeStr tbl document) fun _ =>
      Imported (recs ++ (document.membersAt typeStr).map fun e => (none, e)) := by
  have h : LogEnsures (Imported (recs ++ ([] : List (String × Json)).map fun e => (none, e)))
      (fold (logObject srv type) tbl (document.membersAt typeStr)) fun _ =>
        Imported (recs ++ (document.membersAt typeStr).map fun e => (none, e)) :=
    logs_fold (I := fun (done : List (String × Json)) _ =>
      Imported (recs ++ done.map fun e => (none, e))) fun done e tbl _ => by
        rw [List.map_append, List.map_singleton, ← List.append_assoc]
        exact Imported.of_record fun known => filled_logObject hsrv type tbl e
  exact logs_ite (fun _ => by simpa using h) fun _ => logs_leave

theorem filled_logRelation (d : ProvRelationData) (bundleId : ℕ) (tbl : LookupTable)
    (externObjF : Bool) (e : String × Json) :
    LogEnsures (fun t l => Filled known t ∧ createdIn l = known)
      (logRelation srv bundleId tbl externObjF d e)
      fun _ t l => ∃ id, Filled (known ++ [⟨some d, e, id⟩]) t ∧
        createdIn l = known ++ [⟨some d, e, id⟩] := by
  refine logs_bind (logs_quiet fun _ => keeps_importEndpoint tbl externObjF e.2 _ _)
    fun source => logs_assume fun _ => ?_
  refine logs_bind (logs_quiet fun _ => keeps_importEndpoint tbl externObjF e.2 _ _)
    fun dest => logs_assume fun _ => ?_
  refine logs_bind (Q := fun id t l => (Filled known t ∧ Filling .relation id [] t) ∧
    createdIn l = known ++ [⟨some d, e, id⟩]) (logs_logId ?_) fun id => ?_
  · intro w l ⟨hfilled, hl⟩ hok id hid
    obtain ⟨hf, hg, ht⟩ := addRelation_isOk hok
    rw [addRelation_reliable hsrv hf hg ht] at hid ⊢
    cases hid
    refine ⟨⟨hfilled.insertRelation hf hg ht, filling_newRelation hfilled.reachable _ _ _⟩, ?_⟩
    rw [createdIn, List.filterMap_append, ← createdIn, hl]
    rfl
  · have hmember : Keeps (fun t => Filled known t ∧ Filling .relation id [] t)
        (requireOk (codeOnly (srv.addRelation bundleId id bundleRelation))) fun _ => True :=
      keeps_requireOk fun w => addRelation_keeps
        (I := fun t => Filled known t ∧ Filling .relation id [] t) fun s hf hg ht h =>
          ⟨h.1.insertRelation hf hg ht, h.2.insertRelation _ _ _⟩
    have hmembers : LogEnsures (fun t _ => Filled known t ∧ Filling .relation id [] t)
        (logProperties (relationWriter srv) .relationProperty id e.2)
        fun _ t _ => Filled known t ∧ HasIntegers .relation id e.2.members t :=
      logs_of_erases (erases_logProperties _ _ _ _)
        (ensures_importProperties hsrv (o := .relation) e.2)
    refine logs_bind (logs_conj (logs_of_keeps erases_logOk hmember)
      (unselected_logOk (fun _ _ _ => rfl) _ _)) fun _ => logs_ite (fun hno => ?_) fun hnamed => ?_
    · refine logs_conseq (logs_conj hmembers
        (unselected_logProperties (fun _ _ _ _ => rfl) e.2 _)) (fun t l h => h) fun _ t l h => ?_
      exact ⟨id, h.1.1.close fun _ => h.1.2, h.2⟩
    · refine logs_pure fun t l h => ⟨id, h.1.1.close fun hno => absurd ?_ hno, h.2⟩
      refine ⟨d, rfl, ?_⟩
      by_contra hends
      exact hnamed (not_or.mp hends)

theorem imported_logRelationsJson {recs : List (Option ProvRelationData × (String × Json))}
    (bundleId : ℕ) (tbl : LookupTable) (document : Json) (externObjF : Bool) :
    LogEnsures (Imported recs) (logRelationsJson srv bundleId tbl document externObjF) fun _ =>
      Imported (recs ++ (documentRecords document).map fun r => (some r.1, r.2)) := by
  have h : LogEnsures
      (Imported (recs ++ (([] : List ProvRelationData).flatMap fun d =>
        (records document d).map fun e => (d, e)).map fun r => (some r.1, r.2)))
      (logRelationsJson srv bundleId tbl document externObjF) fun _ =>
        Imported (recs ++ (documentRecords document).map fun r => (some r.1, r.2)) := by
    refine logs_forEach (I := fun done => Imported (recs ++ (done.flatMap fun d =>
      (records document d).map fun e => (d, e)).map fun r => (some r.1, r.2))) fun done d _ => ?_
    refine logs_ite (fun _ => ?_) fun _ => logs_leave
    rw [List.flatMap_append, List.flatMap_singleton, List.map_append, ← List.append_assoc]
    have step : ∀ recs, LogEnsures
        (Imported (recs ++ (([] : List (String × Json)).map fun e => (d, e)).map
          fun r => (some r.1, r.2)))
        (forEach (logRelation srv bundleId tbl externObjF d) (document.membersAt d.typeStr))
        fun _ => Imported (recs ++ ((records document d).map fun e => (d, e)).map
          fun r => (some r.1, r.2)) := fun recs =>
      logs_forEach (I := fun es => Imported (recs ++ (es.map fun e => (d, e)).map
        fun r => (some r.1, r.2))) fun es e _ => by
          rw [List.map_append, List.map_append, ← List.append_assoc]
          exact Imported.of_record fun known => filled_logRelation hsrv d bundleId tbl externObjF e
    simpa [List.append_assoc] using step (recs ++ (done.flatMap fun d =>
      (records document d).map fun e => (d, e)).map fun r => (some r.1, r.2))
  simpa using h

theorem imported_logContents (document : Json) (bundleName : String)
    (anchors : List (ℕ × String)) (externObjF : Bool) :
    LogEnsures (fun t l => t.Reachable ∧ l = [])
      (logContents srv document bundleName anchors externObjF)
      fun _ => Imported (allRecords document) := by
  have hI := fun known => importClosed_filled known
  rw [logContents_stage]
  refine logs_bind (Q := fun _ => Imported (objectSections.flatMap fun u =>
    (document.membersAt u.2).map fun e => (none, e))) ?_ fun out => ?_
  · refine logs_bind (Q := fun _ => Imported []) (logs_logId ?_) fun b => ?_
    · rintro w l ⟨hreach, rfl⟩ - id -
      exact ⟨createObject_keeps (I := Filled []) (fun s p n now ht hs => hs.insertObject p n now ht)
        ⟨hreach, by simp⟩, rfl⟩
    refine logs_bind (Imported.of_unselected (erases_logBundlePrefixesJson b document)
      (fun known => keeps_importBundlePrefixesJson (fun _ _ _ _ h0 he h => h.insertPrefix h0 he)
        document) (unselected_logBundlePrefixesJson (fun _ _ _ _ => rfl) b document)) fun _ => ?_
    refine logs_bind (imported_logObjectsJson hsrv _ _ _ _) fun tbl1 => ?_
    refine logs_bind (imported_logObjectsJson hsrv _ _ _ _) fun tbl2 => ?_
    refine logs_bind (imported_logObjectsJson hsrv _ _ _ _) fun tbl3 => ?_
    exact logs_pure fun t l h => by simpa [objectSections] using h
  · refine logs_bind (Imported.of_unselected (erases_forEach (erases_logAnchor out.1) anchors)
      (fun known => maintains_forEach fun a _ => keeps_connectAnchor (hI known).relations a)
      (unselected_forEach (fun a => unselected_logAnchor (fun _ _ _ _ => rfl)
        (fun _ _ _ _ => rfl) out.1 a) anchors)) fun _ => ?_
    exact logs_bind (imported_logRelationsJson hsrv out.1 out.2 document externObjF) fun _ =>
      logs_pure fun _ _ h => h

end Run

section Report

/-- From now on every get for the key reports the integer, and nothing else. -/
def Reported (s : Store) (k : CreatedRecord) (name : String) (n : ℤ) : Prop :=
  ∀ (effects : List StoreHistory.Effect) (reader : Server) (calls : ℕ), reader.attached = true →
    (reader.outcome calls).failure = none →
      ∃ e, numericalProperties reader k.owner k.id (some (storedTokens name).1)
        (some (storedTokens name).2) (later s effects calls) = some [e] ∧
          value e.value = some (n : ℚ)

variable {s : Store} {k : CreatedRecord} {m : String × Json} {n : ℤ}

theorem reported_iff_single (hn : n.natAbs ≤ 2 ^ 53) (h0 : k.id ≠ 0)
    (h : Sole (k.owner.rows s) (integerRow k.id m.1 n)) : Reported s k m.1 n ↔ Single n := by
  obtain ⟨hformat, hreads⟩ := readsBack_ofInt hn
  have hlen : (toText (float.ofInt n)).length < cplValueLen :=
    (length_toText_lt hformat).trans (by decide)
  have hreport : ∀ effects (reader : Server) calls, reader.attached = true →
      (reader.outcome calls).failure = none →
        Reports reader k.owner k.id (storedTokens m.1).1 (storedTokens m.1).2 (float.ofInt n)
          (later s effects calls) := by
    intro effects reader calls ha hf
    exact (reports_iff ha hf h0 hlen (sole_later h effects calls)).mpr hreads
  rw [← value_ofInt_iff hn]
  constructor
  · intro hr
    obtain ⟨e, he, hv⟩ := hr [] .ideal 0 rfl rfl
    obtain ⟨e', he', hv'⟩ := hreport [] .ideal 0 rfl rfl
    have hsame : [e] = [e'] := Option.some.inj (he.symm.trans he')
    rw [← hv', ← (List.cons.inj hsame).1, hv]
  · intro hv effects reader calls ha hf
    obtain ⟨e, he, hv'⟩ := hreport effects reader calls ha hf
    exact ⟨e, he, hv'.trans hv⟩

theorem not_reported_of_skipped (h : ∀ q ∈ k.owner.rows s, q.id ≠ k.id) :
    ¬ Reported s k m.1 n := by
  intro hr
  obtain ⟨e, he, -⟩ := hr [] .ideal 0 rfl rfl
  have hnone : (getProperties .ideal k.owner k.id (some (storedTokens m.1).1)
      (some (storedTokens m.1).2) numericalProperty (later s [] 0)).1.2 = [] := by
    by_cases h0 : k.id = 0
    · rw [h0, getProperties_none]
    · have hattached : Server.ideal.attached = true := rfl
      have hperm := getProperties_perm (w := later s [] 0) hattached rfl k.owner h0
        (some (storedTokens m.1).1) (some (storedTokens m.1).2) numericalProperty
      have hrows : propertiesOf (k.owner.rows (later s [] 0).store) k.id
          (some (storedTokens m.1).1) (some (storedTokens m.1).2) numericalProperty = [] := by
        apply List.filter_eq_nil_iff.mpr
        intro q hq hkey
        exact h q hq (of_decide_eq_true hkey).1
      rw [hrows] at hperm
      exact List.perm_nil.mp hperm
  rw [numericalProperties, hnone] at he
  cases he

theorem relationOf_created {a : Attempt} {d : ProvRelationData} (h : createdFor a = some k)
    (hd : k.entry = some d) : relationOf a = some ⟨d, k.record, k.id⟩ := by
  obtain ⟨write, call, code, id⟩ := a
  cases write with
  | relation d' e =>
    cases id with
    | none => cases h
    | some id =>
      cases h
      cases hd
      rfl
  | object type e =>
    cases id with
    | none => cases h
    | some id =>
      cases h
      cases hd
  | _ => cases h

end Report

section Document

variable {parse : String → Option Json} {srv : Server} (hsrv : Reliable srv) {s : Store}
  (hs : s.Reachable) {calls : ℕ} {jsonString bundleName : String} {anchors : List (ℕ × String)}
  {flags : ℤ} {outId : Option ℕ} {document : Json} (hp : parse jsonString = some document)
  (hok : (importDocumentJson parse srv jsonString bundleName anchors flags outId
    ⟨s, calls⟩).1.1 = .ret .ok)

include hsrv hs hp hok

theorem imported_of_ok : Imported (allRecords document)
    (importDocumentJson parse srv jsonString bundleName anchors flags outId ⟨s, calls⟩).2.store
    (attempts parse srv jsonString bundleName anchors flags ⟨s, calls⟩) := by
  obtain ⟨b, hlog, -⟩ := logged_of_ok hp (imported_logContents hsrv document bundleName anchors _)
    ⟨hs, rfl⟩ hok
  exact hlog

theorem rows_of_skipped {k : CreatedRecord} (hk : k ∈ createdIn
      (attempts parse srv jsonString bundleName anchors flags ⟨s, calls⟩)) (hskip : k.Skipped) :
    ∀ q ∈ k.owner.rows (importDocumentJson parse srv jsonString bundleName anchors flags outId
      ⟨s, calls⟩).2.store, q.id ≠ k.id := by
  obtain ⟨d, hd, hnamed⟩ := hskip
  obtain ⟨next, hknown⟩ := (recorded_of_ok hsrv hs hp hok).rows
  obtain ⟨a, ha, hcreated⟩ := List.mem_filterMap.mp hk
  have hmem : (⟨d, k.record, k.id⟩ : CreatedRelation) ∈ relationsIn
      (attempts parse srv jsonString bundleName anchors flags ⟨s, calls⟩) :=
    List.mem_filterMap.mpr ⟨a, ha, relationOf_created hcreated hd⟩
  have howner : k.owner = .relation := by rw [CreatedRecord.owner, hd]
  rw [howner]
  exact (hknown.rows _ hmem).2.none hnamed

end Document

/-- After an import that reports success an integer of a record is reported for what was created
for the record exactly when it has at most 24 significant bits and the record is not a relation
named like one of its endpoint keys. -/
theorem integer_reported_iff {parse : String → Option Json} {srv : Server} (hsrv : Reliable srv)
    {s : Store} (hs : s.Reachable) {calls : ℕ} {jsonString bundleName : String}
    {anchors : List (ℕ × String)} {flags : ℤ} {outId : Option ℕ} {document : Json}
    (hp : parse jsonString = some document)
    (hok : (importDocumentJson parse srv jsonString bundleName anchors flags outId
      ⟨s, calls⟩).1.1 = .ret .ok) :
    let out := importDocumentJson parse srv jsonString bundleName anchors flags outId ⟨s, calls⟩
    let created := createdIn (attempts parse srv jsonString bundleName anchors flags ⟨s, calls⟩)
    created.map CreatedRecord.origin = allRecords document ∧
      ∀ k ∈ created, ∀ m ∈ k.record.2.members, ∀ n : ℤ, integerOf m.2 = some n →
        n.natAbs ≤ 2 ^ 53 → UniqueIn k.record.2.members m →
          (Reported out.2.store k m.1 n ↔ Single n ∧ ¬ k.Skipped) := by
  have himp := imported_of_ok hsrv hs hp hok
  refine ⟨himp.origins, ?_⟩
  intro k hk m hm n hn hsize hunique
  by_cases hskip : k.Skipped
  · apply iff_of_false
    · exact not_reported_of_skipped (rows_of_skipped hsrv hs hp hok hk hskip)
    · intro h
      exact h.2 hskip
  · have hsole := himp.filled.integers k hk hskip m hm n hn hunique
    have h0 : k.id ≠ 0 := rows_id_ne_zero himp.filled.reachable k.owner _ hsole.mem
    rw [reported_iff_single hsize h0 hsole]
    exact (and_iff_left hskip).symm

/-- A text and its parse: an entity with two numbers. -/
def numbersText : String :=
  "\x7b\"entity\": \x7b\"e\": \x7b\"p:j\": 16777216, \"p:k\": 16777217\x7d\x7d\x7d"

def numbersMembers : List (String × Json) :=
  [("p:j", .unsigned 16777216), ("p:k", .unsigned 16777217)]

def numbersParse (text : String) : Option Json :=
  if text = numbersText then
    some (.object [("entity", .object [("e", .object numbersMembers)])])
  else none

def numbersRecord : CreatedRecord := ⟨none, ("e", .object numbersMembers), 2⟩

theorem numbers_imported : (importDocumentJson numbersParse .ideal numbersText "b" [] 0 none
    ⟨Store.fresh, 0⟩).1.1 = .ret .ok := by decide

theorem numbersRecord_created : numbersRecord ∈ createdIn
    (attempts numbersParse .ideal numbersText "b" [] 0 ⟨Store.fresh, 0⟩) := by
  have hall : createdIn (attempts numbersParse .ideal numbersText "b" [] 0 ⟨Store.fresh, 0⟩) =
      [numbersRecord] := rfl
  rw [hall]
  exact List.mem_singleton_self _

theorem numbers_unique {m : String × Json} (hm : m ∈ numbersMembers) :
    UniqueIn numbersMembers m := by
  have h : ∀ m ∈ numbersMembers, ∀ m' ∈ numbersMembers,
      storedTokens m'.1 = storedTokens m.1 → m'.1 = m.1 := by decide
  intro m' hm' he
  have hname := h m hm m' hm' he
  revert m m'
  simp [numbersMembers]

theorem numbers_not_single : ¬ Single 16777217 := by
  intro ⟨a, k, ha, h⟩
  cases k with
  | zero => omega
  | succ k =>
    have heven : a * 2 ^ (k + 1) = 2 * (a * 2 ^ k) := by ring
    omega

theorem numbers_sole : Sole (numbersRecord.owner.rows (importDocumentJson numbersParse .ideal
    numbersText "b" [] 0 none ⟨Store.fresh, 0⟩).2.store)
      (integerRow numbersRecord.id "p:k" 16777217) := by
  unfold Sole
  decide

/-- The importer stores 16777216 for 16777217. -/
theorem long_integer_changed :
    let out := importDocumentJson numbersParse .ideal numbersText "b" [] 0 none ⟨Store.fresh, 0⟩
    out.1.1 = .ret .ok ∧ numbersRecord ∈ createdIn
      (attempts numbersParse .ideal numbersText "b" [] 0 ⟨Store.fresh, 0⟩) ∧
    UniqueIn numbersMembers ("p:k", .unsigned 16777217) ∧
    toText (float.ofInt 16777217) = "16777216.000000" ∧
    ¬ Reported out.2.store numbersRecord "p:k" 16777217 := by
  refine ⟨numbers_imported, numbersRecord_created, numbers_unique (by simp [numbersMembers]),
    by decide, ?_⟩
  intro h
  have hiff := reported_iff_single (k := numbersRecord) (m := ("p:k", .unsigned 16777217))
    (n := 16777217) (by decide) (by decide) numbers_sole
  exact numbers_not_single (hiff.mp h)

theorem short_integer_reported : Reported (importDocumentJson numbersParse .ideal numbersText "b" []
    0 none ⟨Store.fresh, 0⟩).2.store numbersRecord "p:j" 16777216 := by
  have hmem : ("p:j", .unsigned 16777216) ∈ numbersMembers := List.mem_cons_self
  have hiff := (integer_reported_iff Server.ideal_reliable .fresh (if_pos rfl)
    numbers_imported).2 numbersRecord numbersRecord_created _ hmem 16777216 rfl (by decide)
    (numbers_unique hmem)
  apply hiff.mpr
  constructor
  · exact ⟨1, 24, by decide, by decide⟩
  · intro ⟨d, hd, _⟩
    cases hd

end ImportedIntegers
