import ProvCpl.ImportAccepts
import ProvCpl.PropertyWrites
import ProvCpl.TwoRuns
import Mathlib.Order.Interval.Set.Defs
import Mathlib.Data.Set.Function

/-! # Import into two stores

The importer decides by its document and by the ids that it was handed. Rows that are there
before belong to older ids, so they decide nothing; two imports of one document add the same
rows, up to the numbers at which the sequences of the two stores stand. -/
namespace ImportSimulation

open CplTypes QualifiedName JsonValue ProvStore ProvServer ServerSpecs ImportDocument
open ImportAccepts InsertOnce PropertyWrites TwoRuns EarlyExit

def newObjects (s t : Store) : Set ℕ := Set.Ico s.nextObject t.nextObject

def newRelations (s t : Store) : Set ℕ := Set.Ico s.nextRelation t.nextRelation

/-- The creation time is not compared. -/
structure SameObject (φ : ℕ → ℕ) (r r' : ObjectRow) : Prop where
  id : r'.id = φ r.id
  nsPrefix : r'.nsPrefix = r.nsPrefix
  name : r'.name = r.name
  type : r'.type = r.type

def renameRelation (φ ρ : ℕ → ℕ) (r : RelationRow) : RelationRow :=
  ⟨ρ r.id, r.fromId.map φ, r.toId.map (if r.type = some bundleRelation then ρ else φ), r.type⟩

def renameProperty (φ : ℕ → ℕ) (r : PropertyRow) : PropertyRow := { r with id := φ r.id }

def renamePrefix (φ : ℕ → ℕ) (r : PrefixRow) : PrefixRow := { r with id := φ r.id }

structure EndsIn (objects relations : Set ℕ) (r : RelationRow) : Prop where
  id : r.id ∈ relations
  source : ∀ i, r.fromId = some i → i ∈ objects
  dest : ∀ i, r.toId = some i →
    i ∈ if r.type = some bundleRelation then relations else objects

/-- `t` has the rows of `s` and then rows for the given ids; `t'` has those of `s'` and then the
same rows under the ids that `φ` and `ρ` give. -/
structure Corresponds (φ ρ : ℕ → ℕ) (objects relations : Set ℕ) (s t s' t' : Store) : Prop where
  objectRows : Mirrored (SameObject φ) (·.id ∈ objects) s.objects t.objects s'.objects t'.objects
  relationRows : Mirrored (fun r r' => r' = renameRelation φ ρ r) (EndsIn objects relations)
    s.relations t.relations s'.relations t'.relations
  objectProperties : Mirrored (fun r r' => r' = renameProperty φ r) (·.id ∈ objects)
    s.objectProperties t.objectProperties s'.objectProperties t'.objectProperties
  relationProperties : Mirrored (fun r r' => r' = renameProperty ρ r) (·.id ∈ relations)
    s.relationProperties t.relationProperties s'.relationProperties t'.relationProperties
  prefixes : Mirrored (fun r r' => r' = renamePrefix φ r) (·.id ∈ objects)
    s.prefixes t.prefixes s'.prefixes t'.prefixes

def SameGrowth (s t s' t' : Store) : Prop :=
  ∃ φ ρ, Set.BijOn φ (newObjects s t) (newObjects s' t') ∧
    Set.BijOn ρ (newRelations s t) (newRelations s' t') ∧
    Corresponds φ ρ (newObjects s t) (newRelations s t) s t s' t'

/-- The number that stands to `b` as `i` does to `a`. -/
def shift (a b i : ℕ) : ℕ := b + (i - a)

theorem shift_self (a b : ℕ) : shift a b a = b := by simp [shift]

theorem shift_succ {a b i : ℕ} (h : a ≤ i) : shift a b (i + 1) = shift a b i + 1 := by
  unfold shift
  omega

theorem shift_inj {a b i j : ℕ} (hi : a ≤ i) (hj : a ≤ j) : shift a b i = shift a b j ↔ i = j := by
  unfold shift
  omega

theorem le_shift (a b i : ℕ) : b ≤ shift a b i := Nat.le_add_right b _

theorem shift_ne_zero {a b i : ℕ} (ha : 0 < a) (hb : 0 < b) (h : a ≤ i) :
    i ≠ 0 ∧ shift a b i ≠ 0 := by
  have hle := le_shift a b i
  omega

theorem shift_bijOn {a n : ℕ} (b : ℕ) (h : a ≤ n) :
    Set.BijOn (shift a b) (Set.Ico a n) (Set.Ico b (shift a b n)) := by
  refine ⟨?_, ?_, ?_⟩
  · intro i hi
    have hlt : i - a < n - a := by have := hi.1; have := hi.2; omega
    exact ⟨le_shift a b i, Nat.add_lt_add_left hlt b⟩
  · intro i hi j hj he
    exact (shift_inj hi.1 hj.1).mp he
  · rintro i ⟨hi, hin⟩
    refine ⟨a + (i - b), ⟨by omega, ?_⟩, ?_⟩
    · unfold shift at hin
      omega
    · unfold shift
      omega

def objectMap (s s' : Store) : ℕ → ℕ := shift s.nextObject s'.nextObject

def relationMap (s s' : Store) : ℕ → ℕ := shift s.nextRelation s'.nextRelation

/-- Two runs from `s` and `s'` have reached `t` and `t'`; ids of the first run that are known
to be new are named. -/
structure Mirror (s s' : Store) (objects relations : Set ℕ) (t t' : Store) : Prop where
  rows : Corresponds (objectMap s s') (relationMap s s') (newObjects s t) (newRelations s t)
    s t s' t'
  leObject : s.nextObject ≤ t.nextObject
  leRelation : s.nextRelation ≤ t.nextRelation
  nextObject : t'.nextObject = objectMap s s' t.nextObject
  nextRelation : t'.nextRelation = relationMap s s' t.nextRelation
  knownObjects : objects ⊆ newObjects s t
  knownRelations : relations ⊆ newRelations s t

variable {s s' t t' : Store} {objects relations : Set ℕ} {φ ρ : ℕ → ℕ}

theorem EndsIn.mono {objects' relations' : Set ℕ} {r : RelationRow}
    (h : EndsIn objects relations r) (ho : objects ⊆ objects') (hr : relations ⊆ relations') :
    EndsIn objects' relations' r where
  id := hr h.id
  source := fun i hi => ho (h.source i hi)
  dest := by
    intro i hi
    have hdest := h.dest i hi
    split at hdest
    · rw [if_pos ‹_›]
      exact hr hdest
    · rw [if_neg ‹_›]
      exact ho hdest

theorem Corresponds.mono {objects' relations' : Set ℕ}
    (h : Corresponds φ ρ objects relations s t s' t') (ho : objects ⊆ objects')
    (hr : relations ⊆ relations') : Corresponds φ ρ objects' relations' s t s' t' where
  objectRows := h.objectRows.mono fun _ hid => ho hid
  relationRows := h.relationRows.mono fun _ hends => hends.mono ho hr
  objectProperties := h.objectProperties.mono fun _ hid => ho hid
  relationProperties := h.relationProperties.mono fun _ hid => hr hid
  prefixes := h.prefixes.mono fun _ hid => ho hid

theorem mirror_refl (s s' : Store) : Mirror s s' ∅ ∅ s s' where
  rows := ⟨mirrored_refl, mirrored_refl, mirrored_refl, mirrored_refl, mirrored_refl⟩
  leObject := Nat.le_refl _
  leRelation := Nat.le_refl _
  nextObject := (shift_self _ _).symm
  nextRelation := (shift_self _ _).symm
  knownObjects := Set.empty_subset _
  knownRelations := Set.empty_subset _

theorem Mirror.forget {objects' relations' : Set ℕ} (h : Mirror s s' objects relations t t')
    (ho : objects' ⊆ objects) (hr : relations' ⊆ relations) :
    Mirror s s' objects' relations' t t' :=
  { h with
    knownObjects := ho.trans h.knownObjects
    knownRelations := hr.trans h.knownRelations }

theorem Mirror.sameGrowth (h : Mirror s s' objects relations t t') : SameGrowth s t s' t' := by
  refine ⟨objectMap s s', relationMap s s', ?_, ?_, h.rows⟩
  · rw [newObjects, newObjects, h.nextObject]
    exact shift_bijOn _ h.leObject
  · rw [newRelations, newRelations, h.nextRelation]
    exact shift_bijOn _ h.leRelation

theorem Mirror.insertObject (h : Mirror s s' objects relations t t') (p n : String) (type : ℤ)
    (now now' : ℕ) : Mirror s s' (insert t.nextObject objects) relations
      (t.insertObject p n type now) (t'.insertObject p n type now') := by
  have hwide : newObjects s t ⊆ newObjects s (t.insertObject p n type now) :=
    fun i hi => ⟨hi.1, Nat.lt_succ_of_lt hi.2⟩
  have hnew : t.nextObject ∈ newObjects s (t.insertObject p n type now) :=
    ⟨h.leObject, Nat.lt_succ_self _⟩
  have hrows := h.rows.mono hwide (Set.Subset.refl _)
  refine { h with
    rows := { hrows with objectRows := ?_ }
    leObject := Nat.le_succ_of_le h.leObject
    nextObject := ?_
    knownObjects := Set.insert_subset hnew (h.knownObjects.trans hwide) }
  · exact hrows.objectRows.append ⟨h.nextObject, rfl, rfl, rfl⟩ hnew
  · show t'.nextObject + 1 = shift _ _ (t.nextObject + 1)
    rw [shift_succ h.leObject, h.nextObject]
    rfl

theorem Mirror.insertRelation (h : Mirror s s' objects relations t t') {f : ℕ} (o : ℕ) (type : ℤ)
    (hf : f ∈ objects) (ho : o ∈ if type = bundleRelation then relations else objects) :
    Mirror s s' objects (insert t.nextRelation relations) (t.insertRelation f o type)
      (t'.insertRelation (objectMap s s' f)
        ((if type = bundleRelation then relationMap s s' else objectMap s s') o) type) := by
  have hwide : newRelations s t ⊆ newRelations s (t.insertRelation f o type) :=
    fun i hi => ⟨hi.1, Nat.lt_succ_of_lt hi.2⟩
  have hnew : t.nextRelation ∈ newRelations s (t.insertRelation f o type) :=
    ⟨h.leRelation, Nat.lt_succ_self _⟩
  have hrows := h.rows.mono (Set.Subset.refl _) hwide
  refine { h with
    rows := { hrows with relationRows := ?_ }
    leRelation := Nat.le_succ_of_le h.leRelation
    nextRelation := ?_
    knownRelations := Set.insert_subset hnew (h.knownRelations.trans hwide) }
  · refine hrows.relationRows.append ?_ ⟨hnew, ?_, ?_⟩
    · simp [renameRelation, h.nextRelation]
    · rintro i ⟨⟩
      exact h.knownObjects hf
    · rintro i ⟨⟩
      by_cases hty : type = bundleRelation
      · rw [if_pos hty] at ho
        rw [if_pos (congrArg some hty)]
        exact hwide (h.knownRelations ho)
      · rw [if_neg hty] at ho
        rw [if_neg fun he => hty (Option.some.inj he)]
        exact h.knownObjects ho
  · show t'.nextRelation + 1 = shift _ _ (t.nextRelation + 1)
    rw [shift_succ h.leRelation, h.nextRelation]
    rfl

theorem stored_object_lt (h : s.Valid) {i : ℕ} (hi : i ∈ s.objects.map (·.id)) :
    i < s.nextObject := by
  obtain ⟨r, hr, rfl⟩ := List.mem_map.mp hi
  exact h.object_bound r hr

theorem stored_relation_lt (h : s.Valid) {i : ℕ} (hi : i ∈ s.relations.map (·.id)) :
    i < s.nextRelation := by
  obtain ⟨r, hr, rfl⟩ := List.mem_map.mp hi
  exact h.relation_bound r hr

theorem mirrored_insertNew {α : Type} {same : α → α → Prop} [DecidableRel same] {id : α → ℕ}
    {move : α → α} {a b : ℕ} {ids : Set ℕ} {base rows base' rows' : List α} {r : α}
    (h : Mirrored (fun r r' => r' = move r) (fun r => id r ∈ ids) base rows base' rows')
    (hids : ids ⊆ Set.Ici a) (hbase : ∀ q ∈ base, id q < a) (hbase' : ∀ q ∈ base', id q < b)
    (hr : id r ∈ ids) (hmove : ∀ r, id (move r) = shift a b (id r))
    (hsame : ∀ q r, same q r → id q = id r)
    (hkey : ∀ q r, (id q = id r ↔ id (move q) = id (move r)) →
      (same q r ↔ same (move q) (move r))) :
    Mirrored (fun r r' => r' = move r) (fun r => id r ∈ ids) base (insertOnce same rows r) base'
      (insertOnce same rows' (move r)) := by
  apply h.insertOnce rfl hr
  · intro q hq hqr
    have hlt := hbase q hq
    have hle : a ≤ id r := hids hr
    rw [hsame q r hqr] at hlt
    omega
  · intro q hq hqr
    have hlt := hbase' q hq
    rw [hsame q _ hqr, hmove] at hlt
    exact absurd hlt (Nat.not_lt.mpr (le_shift a b (id r)))
  · rintro q _ hq rfl
    apply hkey
    rw [hmove, hmove]
    exact (shift_inj (hids hq) (hids hr)).symm

/-- New ids are found alike. -/
theorem mirrored_stored_iff {α : Type} {same : α → α → Prop} {new : α → Prop} {id : α → ℕ}
    {a b i : ℕ} {base rows base' rows' : List α} (h : Mirrored same new base rows base' rows')
    (hbase : ∀ q ∈ base, id q < a) (hbase' : ∀ q ∈ base', id q < b)
    (hnew : ∀ q, new q → a ≤ id q) (hsame : ∀ q q', same q q' → id q' = shift a b (id q))
    (hi : a ≤ i) : i ∈ rows.map id ↔ shift a b i ∈ rows'.map id := by
  simp only [List.mem_map]
  apply h.exists_iff
  · intro q hq he
    have hlt := hbase q hq
    omega
  · intro q hq he
    have hlt := hbase' q hq
    have hle := le_shift a b i
    omega
  · intro q q' hq hrel
    rw [hsame q q' hrel]
    exact (shift_inj (hnew q hq) hi).symm

theorem getD_insert_cases {c c' : Prop} [Decidable c] [Decidable c'] {P : Store → Store → Prop}
    {u u' : Store} (hiff : c ↔ c') (hin : P u u') (hout : P t t') :
    P ((if c then some u else none).getD t) ((if c' then some u' else none).getD t') := by
  by_cases hc : c
  · rw [if_pos hc, if_pos (hiff.mp hc)]
    exact hin
  · rw [if_neg hc, if_neg fun hc' => hc (hiff.mpr hc')]
    exact hout

section Valid

variable (hs : s.Valid) (hs' : s'.Valid)

include hs hs'

theorem Mirror.object_ne_zero (h : Mirror s s' objects relations t t') {i : ℕ}
    (hi : i ∈ objects) : i ≠ 0 ∧ objectMap s s' i ≠ 0 :=
  shift_ne_zero hs.next_object hs'.next_object (h.knownObjects hi).1

theorem Mirror.relation_ne_zero (h : Mirror s s' objects relations t t') {i : ℕ}
    (hi : i ∈ relations) : i ≠ 0 ∧ relationMap s s' i ≠ 0 :=
  shift_ne_zero hs.next_relation hs'.next_relation (h.knownRelations hi).1

theorem Mirror.object_stored_iff (h : Mirror s s' objects relations t t') {i : ℕ}
    (hi : i ∈ objects) :
    i ∈ t.objects.map (·.id) ↔ objectMap s s' i ∈ t'.objects.map (·.id) :=
  mirrored_stored_iff h.rows.objectRows hs.object_bound hs'.object_bound (fun _ hq => hq.1)
    (fun _ _ hsame => hsame.id) (h.knownObjects hi).1

theorem Mirror.relation_stored_iff (h : Mirror s s' objects relations t t') {i : ℕ}
    (hi : i ∈ relations) :
    i ∈ t.relations.map (·.id) ↔ relationMap s s' i ∈ t'.relations.map (·.id) :=
  mirrored_stored_iff h.rows.relationRows hs.relation_bound hs'.relation_bound
    (fun _ hq => hq.id.1) (fun _ _ hsame => hsame ▸ rfl) (h.knownRelations hi).1

theorem Mirror.insertObjectProperty (h : Mirror s s' objects relations t t') {r : PropertyRow}
    (hr : r.id ∈ objects) :
    Mirror s s' objects relations ((t.insertObjectProperty r).getD t)
      ((t'.insertObjectProperty (renameProperty (objectMap s s') r)).getD t') := by
  apply getD_insert_cases (h.object_stored_iff hs hs' hr)
  · refine { h with rows := { h.rows with objectProperties := ?_ } }
    apply mirrored_insertNew h.rows.objectProperties
    · exact fun i hi => hi.1
    · exact fun q hq => stored_object_lt hs (hs.objectProperty_owner q hq)
    · exact fun q hq => stored_object_lt hs' (hs'.objectProperty_owner q hq)
    · exact h.knownObjects hr
    · exact fun _ => rfl
    · exact fun _ _ hsame => hsame.1
    · exact fun _ _ hids => and_congr_left fun _ => hids
  · exact h

theorem Mirror.insertRelationProperty (h : Mirror s s' objects relations t t') {r : PropertyRow}
    (hr : r.id ∈ relations) :
    Mirror s s' objects relations ((t.insertRelationProperty r).getD t)
      ((t'.insertRelationProperty (renameProperty (relationMap s s') r)).getD t') := by
  apply getD_insert_cases (h.relation_stored_iff hs hs' hr)
  · refine { h with rows := { h.rows with relationProperties := ?_ } }
    apply mirrored_insertNew h.rows.relationProperties
    · exact fun i hi => hi.1
    · exact fun q hq => stored_relation_lt hs (hs.relationProperty_owner q hq)
    · exact fun q hq => stored_relation_lt hs' (hs'.relationProperty_owner q hq)
    · exact h.knownRelations hr
    · exact fun _ => rfl
    · exact fun _ _ hsame => hsame.1
    · exact fun _ _ hids => and_congr_left fun _ => hids
  · exact h

theorem Mirror.insertPrefix (h : Mirror s s' objects relations t t') {r : PrefixRow}
    (hr : r.id ∈ objects) :
    Mirror s s' objects relations ((t.insertPrefix r).getD t)
      ((t'.insertPrefix (renamePrefix (objectMap s s') r)).getD t') := by
  apply getD_insert_cases (h.object_stored_iff hs hs' hr)
  · refine { h with rows := { h.rows with prefixes := ?_ } }
    apply mirrored_insertNew h.rows.prefixes
    · exact fun i hi => hi.1
    · exact fun q hq => stored_object_lt hs (hs.prefix_owner q hq)
    · exact fun q hq => stored_object_lt hs' (hs'.prefix_owner q hq)
    · exact h.knownObjects hr
    · exact fun _ => rfl
    · exact fun _ _ hsame => hsame.1
    · exact fun _ _ hids => and_congr_left fun _ => hids
  · exact h

end Valid

def SameNames (s s' : Store) (tbl tbl' : LookupTable) : Prop :=
  ∀ n, OrderedMap.find n tbl' = (OrderedMap.find n tbl).map (objectMap s s')

def known (b : ℕ) (tbl : LookupTable) : Set ℕ :=
  {i | i = b ∨ ∃ n, OrderedMap.find n tbl = some i}

theorem sameNames_nil : SameNames s s' [] [] := fun _ => rfl

theorem SameNames.emplace {tbl tbl' : LookupTable} (h : SameNames s s' tbl tbl') (n : String)
    (id : ℕ) : SameNames s s' (OrderedMap.emplace n id tbl)
      (OrderedMap.emplace n (objectMap s s' id) tbl') := by
  intro m
  rw [OrderedMap.find_emplace, OrderedMap.find_emplace, h m, h n]
  by_cases hm : m = n
  · rw [if_pos hm, if_pos hm]
    cases OrderedMap.find n tbl <;> rfl
  · rw [if_neg hm, if_neg hm]

theorem known_emplace (b : ℕ) (tbl : LookupTable) (n : String) (id : ℕ) :
    known b (OrderedMap.emplace n id tbl) ⊆ insert id (known b tbl) := by
  rintro i (rfl | ⟨m, hm⟩)
  · exact Or.inr (Or.inl rfl)
  · rw [OrderedMap.find_emplace] at hm
    by_cases hmn : m = n
    · rw [if_pos hmn] at hm
      cases hf : OrderedMap.find n tbl with
      | none =>
        rw [hf, Option.getD_none] at hm
        exact Or.inl (Option.some.inj hm).symm
      | some j =>
        rw [hf, Option.getD_some] at hm
        exact Or.inr (Or.inr ⟨n, hf.trans hm⟩)
    · rw [if_neg hmn] at hm
      exact Or.inr (Or.inr ⟨m, hm⟩)

/-- Returns are related by `Q`; exits are equal, and then too the stores mirror each other. -/
def Alike {α : Type} (s s' : Store) (P : Store → Store → Prop) (m m' : Api α)
    (Q : α → α → Store → Store → Prop) : Prop :=
  Twin (fun w w' => P w.store w'.store) m m' (fun a a' w w' => Q a a' w.store w'.store)
    fun e e' w w' => e' = e ∧ Mirror s s' ∅ ∅ w.store w'.store

section Rules

variable {α β : Type} {P : Store → Store → Prop} {Q : α → α → Store → Store → Prop}

theorem alike_pure {a a' : α} (h : ∀ u u', P u u' → Q a a' u u') :
    Alike s s' P (pure a) (pure a') Q :=
  twin_pure fun w w' hw => h w.store w'.store hw

theorem alike_leave {e : Stop} : Alike s s' (Mirror s s' objects relations) (leave e) (leave e) Q :=
  twin_leave fun _ _ hw =>
    ⟨rfl, hw.forget (Set.empty_subset objects) (Set.empty_subset relations)⟩

theorem alike_bind {m m' : Api α} {f f' : α → Api β} {R : β → β → Store → Store → Prop}
    (hm : Alike s s' P m m' Q) (hf : ∀ a a', Alike s s' (Q a a') (f a) (f' a') R) :
    Alike s s' P (m >>= f) (m' >>= f') R :=
  twin_bind hm hf

theorem alike_ite {c : Prop} [Decidable c] {m m' n n' : Api α} (ht : c → Alike s s' P m m' Q)
    (hf : ¬ c → Alike s s' P n n' Q) :
    Alike s s' P (if c then m else n) (if c then m' else n') Q :=
  twin_ite Iff.rfl ht hf

theorem alike_assume {c : Prop} {m m' : Api α} (h : c → Alike s s' P m m' Q) :
    Alike s s' (fun u u' => P u u' ∧ c) m m' Q :=
  twin_assume h

theorem alike_conseq {P' : Store → Store → Prop} {Q' : α → α → Store → Store → Prop}
    {m m' : Api α} (h : Alike s s' P' m m' Q') (hP : ∀ u u', P u u' → P' u u')
    (hQ : ∀ a a' u u', Q' a a' u u' → Q a a' u u') : Alike s s' P m m' Q :=
  twin_conseq h (fun w w' hw => hP w.store w'.store hw) fun a a' w w' hw =>
    hQ a a' w.store w'.store hw

theorem alike_fold {γ : Type} {f f' : β → γ → Api β} {I : β → β → Store → Store → Prop}
    {xs : List γ} (step : ∀ c c' x, x ∈ xs → Alike s s' (I c c') (f c x) (f' c' x) I) (b b' : β) :
    Alike s s' (I b b') (fold f b xs) (fold f' b' xs) I :=
  twin_fold (I := fun c c' (w w' : World) => I c c' w.store w'.store) step b b'

theorem alike_forEach {γ : Type} {f f' : γ → Api Unit} {xs : List γ}
    (step : ∀ x, x ∈ xs → Alike s s' P (f x) (f' x) fun _ _ => P) :
    Alike s s' P (forEach f xs) (forEach f' xs) fun _ _ => P :=
  twin_forEach step

theorem alike_orThrow (o : Option α) :
    Alike s s' (Mirror s s' objects relations) (orThrow o) (orThrow o) fun a a' u u' =>
      Mirror s s' objects relations u u' ∧ a' = a := by
  cases o with
  | none => exact alike_leave
  | some a => exact alike_pure fun _ _ hu => ⟨hu, rfl⟩

theorem alike_requireId {c c' : Call World (ReturnCode × Option ℕ)}
    {Q : ℕ → ℕ → Store → Store → Prop}
    (h : ∀ w w', P w.store w'.store → ∃ r id id', r.IsOk ∧ (c w).1 = (r, some id) ∧
      (c' w').1 = (r, some id') ∧ Q id id' (c w).2.store (c' w').2.store) :
    Alike s s' P (requireId c) (requireId c') Q := by
  intro w w' hw
  obtain ⟨r, id, id', hok, he, he', hQ⟩ := h w w' hw
  simp only [requireId, bind_run, call, he, he', if_pos hok, pure_run]
  exact hQ

theorem alike_requireOk {c c' : Call World ReturnCode}
    (h : ∀ w w', Mirror s s' objects relations w.store w'.store → (c' w').1 = (c w).1 ∧
      Mirror s s' objects relations (c w).2.store (c' w').2.store) :
    Alike s s' (Mirror s s' objects relations) (requireOk c) (requireOk c') fun _ _ =>
      Mirror s s' objects relations := by
  apply alike_bind (Q := fun r r' u u' => Mirror s s' objects relations u u' ∧ r' = r)
  · exact twin_call fun w w' hw => ⟨(h w w' hw).2, (h w w' hw).1⟩
  · intro r r'
    apply alike_assume
    rintro rfl
    exact alike_ite (fun _ => alike_pure fun _ _ hu => hu) fun _ => alike_leave

theorem alike_callUnchecked {c c' : Call World ReturnCode} {Q : Store → Store → Prop}
    (h : ∀ w w', P w.store w'.store → Q (c w).2.store (c' w').2.store) :
    Alike s s' P (callUnchecked c) (callUnchecked c') fun _ _ => Q :=
  fun w w' hw => h w w' hw

end Rules

/-- The writes of one property for two ids. -/
structure WritersMirror (s s' : Store) (objects relations : Set ℕ) (out out' : PropertyWriter)
    (id id' : ℕ) : Prop where
  addString : ∀ p k v w w', Mirror s s' objects relations w.store w'.store →
    Mirror s s' objects relations (out.addString id p k v w).2.store
      (out'.addString id' p k v w').2.store
  addNumerical : ∀ p k x w w', Mirror s s' objects relations w.store w'.store →
    Mirror s s' objects relations (out.addNumerical id p k x w).2.store
      (out'.addNumerical id' p k x w').2.store
  addBoolean : ∀ p k b w w', Mirror s s' objects relations w.store w'.store →
    Mirror s s' objects relations (out.addBoolean id p k b w).2.store
      (out'.addBoolean id' p k b w').2.store

theorem alike_importProperty {out out' : PropertyWriter} {id id' : ℕ}
    (h : WritersMirror s s' objects relations out out' id id') (e : String × Json) :
    Alike s s' (Mirror s s' objects relations) (importProperty out id e)
      (importProperty out' id' e) fun _ _ => Mirror s s' objects relations := by
  obtain ⟨n, v⟩ := e
  cases v with
  | string => exact alike_callUnchecked fun w w' => h.addString _ _ _ w w'
  | integer | unsigned | float => exact alike_callUnchecked fun w w' => h.addNumerical _ _ _ w w'
  | boolean => exact alike_callUnchecked fun w w' => h.addBoolean _ _ _ w w'
  | null | array | object => exact alike_leave

theorem alike_importProperties {out out' : PropertyWriter} {id id' : ℕ}
    (h : WritersMirror s s' objects relations out out' id id') (properties : Json) :
    Alike s s' (Mirror s s' objects relations) (importProperties out id properties)
      (importProperties out' id' properties) fun _ _ => Mirror s s' objects relations := by
  apply alike_bind (alike_orThrow properties.items)
  intro items items'
  apply alike_assume
  rintro rfl
  exact alike_forEach fun e _ => alike_importProperty h e

section Importer

variable {srv srv' : Server} (hsrv : Reliable srv) (hsrv' : Reliable srv')

include hsrv hsrv'

theorem addProperty_mirror
    {add add' : ℕ → String → String → String → ℤ → Call World ReturnCode} {id id' : ℕ} {type : ℤ}
    (h0 : id ≠ 0) (h0' : id' ≠ 0) {P : Store → Store → Prop}
    (h : ∀ p k v w w', P w.store w'.store →
      P (add id p k v type w).2.store (add' id' p k v type w').2.store)
    (p k v : Option String) (w w' : World) (hw : P w.store w'.store) :
    P (srv.addProperty add id p k v type w).2.store
      (srv'.addProperty add' id' p k v type w').2.store := by
  have hid : ¬ id = cplNone := h0
  have hid' : ¬ id' = cplNone := h0'
  simp only [Server.addProperty, Server.ensureInitialized, hsrv.attached, hsrv'.attached, if_true]
  cases p with
  | none => exact hw
  | some p =>
    cases k with
    | none => exact hw
    | some k =>
      cases v with
      | none => exact hw
      | some v => simpa only [if_neg hid, if_neg hid'] using h p k v w w' hw

theorem alike_createObject {p n : String} {type : ℤ} (ht : EnsureOType type) :
    Alike s s' (Mirror s s' objects relations)
      (requireId (srv.createObject (some p) (some n) type))
      (requireId (srv'.createObject (some p) (some n) type)) fun id id' u u' =>
        Mirror s s' (insert id objects) relations u u' ∧ id' = objectMap s s' id := by
  apply alike_requireId
  intro w w' hw
  rw [createObject_reliable hsrv p n ht, createObject_reliable hsrv' p n ht]
  exact ⟨_, _, _, isOk_objectCreated, rfl, rfl, hw.insertObject p n type _ _, hw.nextObject⟩

section Valid

variable (hs : s.Valid) (hs' : s'.Valid)

include hs hs'

theorem addObjectProperty_mirror {id : ℕ} (hid : id ∈ objects) (type : ℤ)
    (p k v : Option String) (w w' : World)
    (hw : Mirror s s' objects relations w.store w'.store) :
    Mirror s s' objects relations
      (srv.addProperty srv.cplOdbcAddObjectProperty id p k v type w).2.store
      (srv'.addProperty srv'.cplOdbcAddObjectProperty (objectMap s s' id) p k v type
        w').2.store := by
  obtain ⟨h0, h0'⟩ := hw.object_ne_zero hs hs' hid
  apply addProperty_mirror hsrv hsrv' h0 h0' _ p k v w w' hw
  intro p k v w w' hw
  rw [addObjectProperty_store hsrv, addObjectProperty_store hsrv']
  exact hw.insertObjectProperty hs hs' (r := ⟨id, p, k, v, type⟩) hid

theorem addRelationProperty_mirror {id : ℕ} (hid : id ∈ relations) (type : ℤ)
    (p k v : Option String) (w w' : World)
    (hw : Mirror s s' objects relations w.store w'.store) :
    Mirror s s' objects relations
      (srv.addProperty srv.cplOdbcAddRelationProperty id p k v type w).2.store
      (srv'.addProperty srv'.cplOdbcAddRelationProperty (relationMap s s' id) p k v type
        w').2.store := by
  obtain ⟨h0, h0'⟩ := hw.relation_ne_zero hs hs' hid
  apply addProperty_mirror hsrv hsrv' h0 h0' _ p k v w w' hw
  intro p k v w w' hw
  rw [addRelationProperty_store hsrv, addRelationProperty_store hsrv']
  exact hw.insertRelationProperty hs hs' (r := ⟨id, p, k, v, type⟩) hid

theorem objectWriters_mirror {id : ℕ} (hid : id ∈ objects) :
    WritersMirror s s' objects relations (objectWriter srv) (objectWriter srv') id
      (objectMap s s' id) where
  addString := fun p k v => addObjectProperty_mirror hsrv hsrv' hs hs' hid _ p k v
  addNumerical := fun p k _ => addObjectProperty_mirror hsrv hsrv' hs hs' hid _ p k _
  addBoolean := fun p k _ => addObjectProperty_mirror hsrv hsrv' hs hs' hid _ p k _

theorem relationWriters_mirror {id : ℕ} (hid : id ∈ relations) :
    WritersMirror s s' objects relations (relationWriter srv) (relationWriter srv') id
      (relationMap s s' id) where
  addString := fun p k v => addRelationProperty_mirror hsrv hsrv' hs hs' hid _ p k v
  addNumerical := fun p k _ => addRelationProperty_mirror hsrv hsrv' hs hs' hid _ p k _
  addBoolean := fun p k _ => addRelationProperty_mirror hsrv hsrv' hs hs' hid _ p k _

theorem alike_addRelation {f o : ℕ} {type : ℤ} (ht : EnsureRType type)
    (hne : type ≠ bundleRelation) (hf : f ∈ objects) (ho : o ∈ objects) :
    Alike s s' (Mirror s s' objects relations) (requireId (srv.addRelation f o type))
      (requireId (srv'.addRelation (objectMap s s' f) (objectMap s s' o) type)) fun id id' u u' =>
        Mirror s s' objects (insert id relations) u u' ∧ id' = relationMap s s' id := by
  apply alike_requireId
  intro w w' hw
  obtain ⟨hf0, hf0'⟩ := hw.object_ne_zero hs hs' hf
  obtain ⟨ho0, ho0'⟩ := hw.object_ne_zero hs hs' ho
  rw [addRelation_reliable hsrv hf0 ho0 ht, addRelation_reliable hsrv' hf0' ho0' ht]
  have hrow := hw.insertRelation o type hf (by rwa [if_neg hne])
  rw [if_neg hne] at hrow
  exact ⟨_, _, _, isOk_ok, rfl, rfl, hrow, hw.nextRelation⟩

theorem alike_addMembership {b r : ℕ} (hb : b ∈ objects) (hr : r ∈ relations) :
    Alike s s' (Mirror s s' objects relations)
      (requireOk (codeOnly (srv.addRelation b r bundleRelation)))
      (requireOk (codeOnly (srv'.addRelation (objectMap s s' b) (relationMap s s' r)
        bundleRelation))) fun _ _ => Mirror s s' objects relations := by
  apply alike_requireOk
  intro w w' hw
  obtain ⟨hb0, hb0'⟩ := hw.object_ne_zero hs hs' hb
  obtain ⟨hr0, hr0'⟩ := hw.relation_ne_zero hs hs' hr
  have ht : EnsureRType bundleRelation := by decide
  rw [codeOnly, codeOnly, addRelation_reliable hsrv hb0 hr0 ht,
    addRelation_reliable hsrv' hb0' hr0' ht]
  have hrow := hw.insertRelation r bundleRelation hb (by rwa [if_pos rfl])
  rw [if_pos rfl] at hrow
  exact ⟨rfl, hrow.forget (Set.Subset.refl _) (Set.subset_insert _ _)⟩

theorem alike_addPrefix {b : ℕ} (hb : b ∈ objects) (p i : String) :
    Alike s s' (Mirror s s' objects relations) (requireOk (srv.addPrefix b (some p) (some i)))
      (requireOk (srv'.addPrefix (objectMap s s' b) (some p) (some i))) fun _ _ =>
        Mirror s s' objects relations := by
  apply alike_requireOk
  intro w w' hw
  obtain ⟨h0, h0'⟩ := hw.object_ne_zero hs hs' hb
  have hiff := hw.object_stored_iff hs hs' hb
  rw [addPrefix_run hsrv h0, addPrefix_run hsrv' h0']
  exact ⟨if_congr hiff.symm rfl rfl, hw.insertPrefix hs hs' (r := ⟨b, p, i⟩) hb⟩

theorem alike_importBundlePrefixesJson {b : ℕ} (hb : b ∈ objects) (document : Json) :
    Alike s s' (Mirror s s' objects relations) (importBundlePrefixesJson srv b document)
      (importBundlePrefixesJson srv' (objectMap s s' b) document) fun _ _ =>
        Mirror s s' objects relations := by
  rw [importBundlePrefixesJson_eq, importBundlePrefixesJson_eq]
  apply alike_ite
  · intro _
    apply alike_forEach
    intro e _
    apply alike_ite
    · intro _
      apply alike_bind (alike_orThrow e.2.getString)
      intro iri iri'
      apply alike_assume
      rintro rfl
      exact alike_addPrefix hsrv hsrv' hs hs' hb _ _
    · exact fun _ => alike_leave
  · exact fun _ => alike_leave

theorem alike_importObject {b : ℕ} {tbl tbl' : LookupTable} {type : ℤ} (ht : EnsureOType type)
    (hn : SameNames s s' tbl tbl') (e : String × Json) :
    Alike s s' (Mirror s s' (known b tbl) relations) (importObject srv type tbl e)
      (importObject srv' type tbl' e) fun c c' u u' =>
        Mirror s s' (known b c) relations u u' ∧ SameNames s s' c c' := by
  apply alike_bind (alike_createObject hsrv hsrv' ht)
  intro id id'
  apply alike_assume
  rintro rfl
  have hw : WritersMirror s s' (insert id (known b tbl)) relations (objectWriter srv)
      (objectWriter srv') id (objectMap s s' id) :=
    objectWriters_mirror hsrv hsrv' hs hs' (Set.mem_insert id _)
  apply alike_bind (alike_importProperties hw e.2)
  intro _ _
  apply alike_pure
  intro u u' hu
  exact ⟨hu.forget (known_emplace b tbl e.1 id) (Set.Subset.refl _), hn.emplace e.1 id⟩

theorem alike_importObjectsJson {b : ℕ} {tbl tbl' : LookupTable} {type : ℤ}
    (ht : EnsureOType type) (hn : SameNames s s' tbl tbl') (typeStr : String) (document : Json) :
    Alike s s' (Mirror s s' (known b tbl) relations)
      (importObjectsJson srv type typeStr tbl document)
      (importObjectsJson srv' type typeStr tbl' document) fun c c' u u' =>
        Mirror s s' (known b c) relations u u' ∧ SameNames s s' c c' := by
  rw [importObjectsJson_eq, importObjectsJson_eq]
  apply alike_ite
  · intro _
    have step : ∀ c c' e, e ∈ document.membersAt typeStr → Alike s s'
        (fun u u' => Mirror s s' (known b c) relations u u' ∧ SameNames s s' c c')
        (importObject srv type c e) (importObject srv' type c' e) fun c c' u u' =>
          Mirror s s' (known b c) relations u u' ∧ SameNames s s' c c' :=
      fun c c' e _ => alike_assume fun hc => alike_importObject hsrv hsrv' hs hs' ht hc e
    exact alike_conseq (alike_fold step tbl tbl') (fun _ _ hu => ⟨hu, hn⟩) fun _ _ _ _ hu => hu
  · exact fun _ => alike_leave

omit hsrv hsrv' hs hs' in
theorem alike_importEndpoint {b : ℕ} {tbl tbl' : LookupTable} (hn : SameNames s s' tbl tbl')
    (record : Json) (key : String) (type : ℤ) :
    Alike s s' (Mirror s s' (known b tbl) relations) (importEndpoint srv tbl false record key type)
      (importEndpoint srv' tbl' false record key type) fun i i' u u' =>
        Mirror s s' (known b tbl) relations u u' ∧ i ∈ known b tbl ∧ i' = objectMap s s' i := by
  unfold importEndpoint
  cases record.find key with
  | none => exact alike_leave
  | some v =>
    apply alike_bind (alike_orThrow v.getString)
    intro n n'
    apply alike_assume
    rintro rfl
    rw [hn n']
    cases hf : OrderedMap.find n' tbl with
    | none => exact alike_leave
    | some i => exact alike_pure fun _ _ hu => ⟨hu, Or.inr ⟨n', hf⟩, rfl⟩

theorem alike_importRelation {b : ℕ} {tbl tbl' : LookupTable} (hn : SameNames s s' tbl tbl')
    {d : ProvRelationData} (hd : d ∈ relationSections) (e : String × Json) :
    Alike s s' (Mirror s s' (known b tbl) ∅) (importRelation srv b tbl false d e)
      (importRelation srv' (objectMap s s' b) tbl' false d e) fun _ _ =>
        Mirror s s' (known b tbl) ∅ := by
  obtain ⟨ht, hne⟩ := relationSections_ensureRType d hd
  apply alike_bind (alike_importEndpoint hn e.2 d.sourceStr d.sourceT)
  intro f f'
  apply alike_assume
  rintro ⟨hf, rfl⟩
  apply alike_bind (alike_importEndpoint hn e.2 d.destStr d.destT)
  intro o o'
  apply alike_assume
  rintro ⟨ho, rfl⟩
  apply alike_bind (alike_addRelation hsrv hsrv' hs hs' ht hne hf ho)
  intro id id'
  apply alike_assume
  rintro rfl
  have hid : id ∈ insert id (∅ : Set ℕ) := Set.mem_insert id ∅
  have hw : WritersMirror s s' (known b tbl) (insert id ∅) (relationWriter srv)
      (relationWriter srv') id (relationMap s s' id) :=
    relationWriters_mirror hsrv hsrv' hs hs' hid
  apply alike_bind (alike_addMembership hsrv hsrv' hs hs' (Or.inl rfl) hid)
  intro _ _
  apply alike_ite
  · intro _
    apply alike_conseq (alike_importProperties hw e.2)
    · exact fun _ _ hu => hu
    · exact fun _ _ _ _ hu => hu.forget (Set.Subset.refl _) (Set.empty_subset _)
  · intro _
    exact alike_pure fun _ _ hu => hu.forget (Set.Subset.refl _) (Set.empty_subset _)

theorem alike_importRelationsJson {b : ℕ} {tbl tbl' : LookupTable} (hn : SameNames s s' tbl tbl')
    (document : Json) :
    Alike s s' (Mirror s s' (known b tbl) ∅) (importRelationsJson srv b tbl document false)
      (importRelationsJson srv' (objectMap s s' b) tbl' document false) fun _ _ =>
        Mirror s s' (known b tbl) ∅ := by
  apply alike_forEach
  intro d hd
  rw [importRelationSection_eq, importRelationSection_eq]
  apply alike_ite
  · exact fun _ => alike_forEach fun e _ => alike_importRelation hsrv hsrv' hs hs' hn hd e
  · exact fun _ => alike_leave

theorem alike_importContents (document : Json) (bundleName : String) :
    Alike s s' (Mirror s s' ∅ ∅) (importContents srv document bundleName [] false)
      (importContents srv' document bundleName [] false) fun b b' u u' =>
        Mirror s s' ∅ ∅ u u' ∧ b' = objectMap s s' b := by
  have hsections : ∀ t ∈ [cplEntity, cplAgent, cplActivity, cplBundle], EnsureOType t := by decide
  apply alike_bind (alike_createObject hsrv hsrv' (hsections cplBundle (by simp)))
  intro b b'
  apply alike_assume
  rintro rfl
  apply alike_bind (alike_importBundlePrefixesJson hsrv hsrv' hs hs' (Set.mem_insert b ∅) document)
  intro _ _
  have hknown : known b [] ⊆ insert b ∅ := by
    rintro i (rfl | ⟨n, hn⟩)
    · exact Set.mem_insert _ ∅
    · cases hn
  apply alike_bind (alike_conseq (alike_importObjectsJson hsrv hsrv' hs hs'
      (hsections cplEntity (by simp)) sameNames_nil cplEntityStr document)
    (fun _ _ hu => hu.forget hknown (Set.Subset.refl ∅)) fun _ _ _ _ hu => hu)
  intro tbl1 tbl1'
  apply alike_assume
  intro hn1
  apply alike_bind (alike_importObjectsJson hsrv hsrv' hs hs' (hsections cplAgent (by simp)) hn1
    cplAgentStr document)
  intro tbl2 tbl2'
  apply alike_assume
  intro hn2
  apply alike_bind (alike_importObjectsJson hsrv hsrv' hs hs' (hsections cplActivity (by simp))
    hn2 cplActivityStr document)
  intro tbl3 tbl3'
  apply alike_assume
  intro hn3
  -- there are no anchors
  apply alike_bind (alike_pure (Q := fun _ _ => Mirror s s' (known b tbl3) ∅) fun _ _ hu => hu)
  intro _ _
  apply alike_bind (alike_importRelationsJson hsrv hsrv' hs hs' hn3 document)
  intro _ _
  exact alike_pure fun _ _ hu => ⟨hu.forget (Set.empty_subset _) (Set.Subset.refl ∅), rfl⟩

theorem alike_importDocument (parse : String → Option Json) (jsonString bundleName : String) :
    Alike s s' (Mirror s s' ∅ ∅) (importDocument parse srv jsonString bundleName [] 0)
      (importDocument parse srv' jsonString bundleName [] 0) fun b b' u u' =>
        Mirror s s' ∅ ∅ u u' ∧ b' = objectMap s s' b := by
  apply alike_bind (alike_orThrow (parse jsonString))
  intro document document'
  apply alike_assume
  rintro rfl
  apply alike_ite
  · exact fun _ => alike_leave
  · intro _
    apply alike_ite
    · exact fun _ => alike_leave
    · intro _
      apply twin_mapExit (alike_importContents hsrv hsrv' hs hs' document' bundleName)
      rintro e _ w w' ⟨rfl, hw⟩
      exact ⟨rfl, hw⟩

end Valid

end Importer

/-- Two imports of one document add the same rows, whatever the stores hold. -/
theorem import_independent_of_store {parse : String → Option Json} {srv srv' : Server}
    (hsrv : Reliable srv) (hsrv' : Reliable srv') {s s' : Store} (hs : s.Reachable)
    (hs' : s'.Reachable) (jsonString bundleName : String) (outId : Option ℕ)
    (calls calls' : ℕ) :
    let out := importDocumentJson parse srv jsonString bundleName [] 0 outId ⟨s, calls⟩
    let out' := importDocumentJson parse srv' jsonString bundleName [] 0 outId ⟨s', calls'⟩
    out'.1.1 = out.1.1 ∧ SameGrowth s out.2.store s' out'.2.store := by
  have h := alike_importDocument hsrv hsrv' hs.valid hs'.valid parse jsonString bundleName
  rcases Twin.cases h ⟨s, calls⟩ ⟨s', calls'⟩ (mirror_refl s s') with
    ⟨b, b', w, w', hr, hr', hw, -⟩ | ⟨e, e', w, w', hr, hr', he, hw⟩
  · unfold importDocumentJson
    rw [hr, hr']
    exact ⟨rfl, hw.sameGrowth⟩
  · unfold importDocumentJson
    rw [hr, hr']
    exact ⟨he, hw.sameGrowth⟩

def filledStore : Store :=
  { (Store.fresh.insertObject "" "e" cplEntity 3).insertRelation 1 1 wasDerivedFrom with
    objectProperties := [⟨1, "ex", "k", "v", stringProperty⟩] }

theorem filledStore_reachable : filledStore.Reachable :=
  .addObjectProperty ⟨1, "ex", "k", "v", stringProperty⟩ (by decide)
    (.addRelation 1 1 wasDerivedFrom (by decide) (by decide) (by decide)
      (.createObject "" "e" cplEntity 3 (by decide) .fresh)) rfl

def usageImport (s : Store) (calls : ℕ) : (Stop × Option ℕ) × World :=
  importDocumentJson usageParse .ideal usageText "b" [] 0 none ⟨s, calls⟩

theorem import_independent_of_store_usage :
    (usageImport filledStore 7).1.1 = (usageImport Store.fresh 0).1.1 ∧
      SameGrowth Store.fresh (usageImport Store.fresh 0).2.store filledStore
        (usageImport filledStore 7).2.store :=
  import_independent_of_store Server.ideal_reliable Server.ideal_reliable Store.Reachable.fresh
    filledStore_reachable usageText "b" none 0 7

end ImportSimulation
