import ProvCpl.BackendQueries
import ProvCpl.ExportEntries

/-! # The order in which properties are merged

The statements that list the properties of an owner ask for no order of their rows, and a member
that is assigned later replaces an earlier one of its name. The merged value is the same for all
orders as long as the rows of one type that share a name have one value, or lose the name to a
row of a later type or to what is written after the properties. -/
namespace MergeOrder

open CplTypes QualifiedName JsonValue ProvStore ProvServer ImportDocument ImportFrame
open ImportAccepts ExportDocument ExportEntries EarlyExit

def propertyTypes : List ℤ := [stringProperty, numericalProperty, booleanProperty]

/-- The rows of an owner as they are merged; each type is listed by a call of its own. -/
def listed (srv : Server) (rows : List PropertyRow) (id : ℕ) (callOf : ℤ → ℕ) :
    List PropertyRow :=
  propertyTypes.flatMap fun type => srv.scan (callOf type) (propertiesOf rows id none none type)

def Merges (srv : Server) (rows : List PropertyRow) (id : ℕ) (j : Json) : Prop :=
  ∃ callOf, j = assignAll .null ((listed srv rows id callOf).filterMap rowMember)

/-- Rows of one type with one joined name have one value, unless a row of a later type has the
name as well, or it is written over in the end. -/
def OneValue (rows : List PropertyRow) (id : ℕ) (writtenOver : List String) : Prop :=
  ∀ r ∈ rows, ∀ q ∈ rows, r.id = id → q.id = id → r.type = q.type → ∀ k v u,
    rowMember r = some (k, v) → rowMember q = some (k, u) →
      v = u ∨ k ∈ writtenOver ∨
        ∃ s ∈ rows, s.id = id ∧ r.type < s.type ∧ ∃ w, rowMember s = some (k, w)

theorem mem_propertiesOf {rows : List PropertyRow} {id : ℕ} {type : ℤ} {r : PropertyRow} :
    r ∈ propertiesOf rows id none none type ↔ r ∈ rows ∧ r.id = id ∧ r.type = type := by
  simp only [propertiesOf, List.mem_filter, decide_eq_true_eq]

theorem type_of_member {r : PropertyRow} {e : String × Json} (h : rowMember r = some e) :
    r.type ∈ propertyTypes := by
  unfold rowMember at h
  split_ifs at h with hs hn hb
  · simp [propertyTypes, hs]
  · simp [propertyTypes, hn]
  · simp [propertyTypes, hb]

section Listed

variable {srv : Server} {rows : List PropertyRow} {id : ℕ} {callOf : ℤ → ℕ}

theorem mem_listed {r : PropertyRow} : r ∈ listed srv rows id callOf ↔
    r ∈ rows ∧ r.id = id ∧ r.type ∈ propertyTypes := by
  simp only [listed, List.mem_flatMap, (srv.scan_perm _ _).mem_iff, mem_propertiesOf]
  constructor
  · rintro ⟨type, htype, hr, hid, rfl⟩
    exact ⟨hr, hid, htype⟩
  · rintro ⟨hr, hid, htype⟩
    exact ⟨r.type, htype, hr, hid, rfl⟩

theorem mem_listed_of_member {r : PropertyRow} {e : String × Json} (hr : r ∈ rows)
    (hid : r.id = id) (h : rowMember r = some e) : r ∈ listed srv rows id callOf :=
  mem_listed.mpr ⟨hr, hid, type_of_member h⟩

theorem listed_sorted : (listed srv rows id callOf).Pairwise (·.type ≤ ·.type) := by
  have hall : ∀ type, ∀ r ∈ srv.scan (callOf type) (propertiesOf rows id none none type),
      r.type = type := by
    intro type r hr
    rw [(srv.scan_perm _ _).mem_iff, mem_propertiesOf] at hr
    exact hr.2.2
  rw [listed, List.pairwise_flatMap]
  constructor
  · intro type _
    rw [List.pairwise_iff_forall_sublist]
    intro r q hrq
    rw [hall type r (hrq.subset (by simp)), hall type q (hrq.subset (by simp))]
  · have htypes : propertyTypes.Pairwise (· < ·) := by decide
    refine htypes.imp ?_
    intro type type' hlt r hr q hq
    rw [hall type r hr, hall type' q hq]
    exact hlt.le

end Listed

theorem assignAll_append (j : Json) (ms ms' : List (String × Json)) :
    assignAll j (ms ++ ms') = assignAll (assignAll j ms) ms' := by
  rw [assignAll, List.foldl_append]
  rfl

theorem find_assignAll_of_not_mem {k : String} :
    ∀ {ms : List (String × Json)} {j : Json}, (∀ v, (k, v) ∉ ms) →
      (assignAll j ms).find k = j.find k
  | [], _, _ => rfl
  | (i, u) :: ms, j, h => by
    have hne : k ≠ i := by
      rintro rfl
      exact h u List.mem_cons_self
    have htail : ∀ v, (k, v) ∉ ms := fun v hv => h v (List.mem_cons_of_mem _ hv)
    change (assignAll (j.assign i u) ms).find k = j.find k
    rw [find_assignAll_of_not_mem htail, find_assign, if_neg hne]

/-- The value found is that of a row such that no row of a later type has the name. -/
theorem find_merged {k : String} {v : Json} {order : List PropertyRow}
    (hsorted : order.Pairwise (·.type ≤ ·.type))
    (h : (assignAll .null (order.filterMap rowMember)).find k = some v) :
    ∃ r ∈ order, rowMember r = some (k, v) ∧
      ∀ q ∈ order, ∀ u, rowMember q = some (k, u) → q.type ≤ r.type := by
  induction order using List.reverseRecOn with
  | nil => cases h
  | append_singleton order r ih =>
    rw [List.pairwise_append] at hsorted
    rw [List.filterMap_append, assignAll_append] at h
    have hearlier : (assignAll .null (order.filterMap rowMember)).find k = some v →
        (∀ u, rowMember r ≠ some (k, u)) →
        ∃ r' ∈ order ++ [r], rowMember r' = some (k, v) ∧
          ∀ q ∈ order ++ [r], ∀ u, rowMember q = some (k, u) → q.type ≤ r'.type := by
      intro hfind hr
      obtain ⟨r', hr', hmember, htop⟩ := ih hsorted.1 hfind
      refine ⟨r', List.mem_append_left _ hr', hmember, fun q hq u hu => ?_⟩
      rcases List.mem_append.mp hq with hq | hq
      · exact htop q hq u hu
      · rw [List.mem_singleton.mp hq] at hu
        exact absurd hu (hr u)
    cases hm : rowMember r with
    | none =>
      rw [List.filterMap_cons_none hm, List.filterMap_nil] at h
      exact hearlier h (by simp [hm])
    | some e =>
      obtain ⟨i, w⟩ := e
      rw [List.filterMap_cons_some hm, List.filterMap_nil] at h
      change ((assignAll .null (order.filterMap rowMember)).assign i w).find k = some v at h
      rw [find_assign] at h
      split_ifs at h with hk
      · subst hk
        obtain rfl := Option.some.inj h
        refine ⟨r, by simp, hm, fun q hq u _ => ?_⟩
        rcases List.mem_append.mp hq with hq | hq
        · exact hsorted.2.2 q hq r (by simp)
        · rw [List.mem_singleton.mp hq]
      · apply hearlier h
        intro u hu
        rw [hm] at hu
        exact hk (congrArg Prod.fst (Option.some.inj hu)).symm

theorem find_merged_last {k : String} {v : Json} {before after : List PropertyRow}
    {r : PropertyRow} (hr : rowMember r = some (k, v))
    (hafter : ∀ q ∈ after, ∀ u, rowMember q ≠ some (k, u)) :
    (assignAll .null ((before ++ r :: after).filterMap rowMember)).find k = some v := by
  have hnone : ∀ u, (k, u) ∉ after.filterMap rowMember := by
    intro u hu
    obtain ⟨q, hq, hmember⟩ := List.mem_filterMap.mp hu
    exact hafter q hq u hmember
  rw [List.filterMap_append, List.filterMap_cons_some hr, assignAll_append]
  change (assignAll ((assignAll .null (before.filterMap rowMember)).assign k v)
    (after.filterMap rowMember)).find k = some v
  rw [find_assignAll_of_not_mem hnone, find_assign, if_pos rfl]

section OneValue

variable {srv srv' : Server} {rows : List PropertyRow} {id : ℕ} {writtenOver : List String}
  {j j' : Json}

theorem OneValue.find (h : OneValue rows id writtenOver) (hj : Merges srv rows id j)
    (hj' : Merges srv' rows id j') {k : String} (hk : k ∉ writtenOver) {v : Json}
    (hv : j.find k = some v) : j'.find k = some v := by
  obtain ⟨callOf, rfl⟩ := hj
  obtain ⟨callOf', rfl⟩ := hj'
  obtain ⟨r, hr, hmember, htop⟩ := find_merged listed_sorted hv
  obtain ⟨hrows, hid, -⟩ := mem_listed.mp hr
  have hin : (k, v) ∈ (listed srv' rows id callOf').filterMap rowMember :=
    List.mem_filterMap.mpr ⟨r, mem_listed_of_member hrows hid hmember, hmember⟩
  obtain ⟨u, hu⟩ := Option.isSome_iff_exists.mp
    (find_assignAll_isSome (j := .null) (Or.inl ⟨v, hin⟩))
  obtain ⟨q, hq, hmember', htop'⟩ := find_merged listed_sorted hu
  obtain ⟨hrows', hid', -⟩ := mem_listed.mp hq
  have htype : r.type = q.type := le_antisymm
    (htop' r (mem_listed_of_member hrows hid hmember) v hmember)
    (htop q (mem_listed_of_member hrows' hid' hmember') u hmember')
  rcases h r hrows q hrows' hid hid' htype k v u hmember hmember' with
    rfl | hover | ⟨s, hs, hsid, hlt, w, hw⟩
  · exact hu
  · exact absurd hover hk
  · have hle := htop s (mem_listed_of_member hs hsid hw) w hw
    exact absurd hlt (not_lt.mpr hle)

theorem OneValue.find_eq (h : OneValue rows id writtenOver) (hj : Merges srv rows id j)
    (hj' : Merges srv' rows id j') {k : String} (hk : k ∉ writtenOver) :
    j.find k = j'.find k := by
  ext v
  exact ⟨h.find hj hj' hk, h.find hj' hj hk⟩

end OneValue

structure Assigned (j : Json) : Prop where
  sorted : OrderedMap.Sorted j.members
  shape : j = .null ∨ j.members ≠ [] ∧ j = .object j.members

theorem assigned_null : Assigned .null := ⟨List.Pairwise.nil, Or.inl rfl⟩

theorem Assigned.assign {j : Json} (h : Assigned j) (k : String) (v : Json) :
    Assigned (j.assign k v) :=
  ⟨OrderedMap.sorted_set _ _ h.sorted, Or.inr ⟨OrderedMap.set_ne_nil _ _ _, rfl⟩⟩

theorem Assigned.assignAll {j : Json} (h : Assigned j) (ms : List (String × Json)) :
    Assigned (assignAll j ms) := by
  induction ms generalizing j with
  | nil => exact h
  | cons e ms ih => exact ih (h.assign e.1 e.2)

theorem Merges.assigned {srv : Server} {rows : List PropertyRow} {id : ℕ} {j : Json}
    (h : Merges srv rows id j) : Assigned j := by
  obtain ⟨callOf, rfl⟩ := h
  exact assigned_null.assignAll _

theorem Assigned.ext {j j' : Json} (h : Assigned j) (h' : Assigned j')
    (hfind : ∀ k, j.find k = j'.find k) : j = j' := by
  have hmembers : j.members = j'.members := by
    apply h.sorted.ext h'.sorted
    intro k
    rw [← find_eq_members, ← find_eq_members]
    exact hfind k
  rcases h.shape with rfl | ⟨hne, hj⟩
  · rcases h'.shape with rfl | ⟨hne', -⟩
    · rfl
    · exact absurd hmembers.symm hne'
  · rcases h'.shape with rfl | ⟨-, hj'⟩
    · exact absurd hmembers hne
    · rw [hj, hj', hmembers]

structure Arrangement where
  order : {α : Type} → List α → List α
  perm : ∀ {α : Type} (l : List α), (order l).Perm l

/-- A working server that lists rows in one order before its `n`-th call and in another from
then on. -/
def switching (first second : Arrangement) (n : ℕ) : Server where
  attached := true
  outcome := fun _ => .success
  clock := fun m => m
  scan := fun m _ l => if m < n then first.order l else second.order l
  scan_perm := by
    intro m α l
    split
    · exact first.perm l
    · exact second.perm l

theorem switching_reliable (first second : Arrangement) (n : ℕ) :
    Reliable (switching first second n) := ⟨rfl, fun _ => rfl⟩

def steadily (a : Arrangement) : Server := switching a a 0

theorem steadily_reliable (a : Arrangement) : Reliable (steadily a) := switching_reliable a a 0

@[simp] theorem steadily_scan (a : Arrangement) (n : ℕ) {α : Type} (l : List α) :
    (steadily a).scan n l = a.order l := by
  simp [steadily, switching]

theorem switching_scan_lt {first second : Arrangement} {n m : ℕ} (h : m < n) {α : Type}
    (l : List α) : (switching first second n).scan m l = (steadily first).scan m l := by
  rw [steadily_scan]
  exact if_pos h

theorem switching_scan_ge {first second : Arrangement} {n m : ℕ} (h : n ≤ m) {α : Type}
    (l : List α) : (switching first second n).scan m l = (steadily second).scan m l := by
  rw [steadily_scan]
  exact if_neg (not_lt.mpr h)

theorem Merges.unique {a : Arrangement} {rows : List PropertyRow} {id : ℕ} {j j' : Json}
    (h : Merges (steadily a) rows id j) (h' : Merges (steadily a) rows id j') : j = j' := by
  obtain ⟨callOf, rfl⟩ := h
  obtain ⟨callOf', rfl⟩ := h'
  simp only [listed, steadily_scan]

theorem exists_arrangement_last {ρ : Type} {l : List ρ} {r : ρ} (hr : r ∈ l) :
    ∃ (a : Arrangement) (before : List ρ), a.order l = before ++ [r] := by
  obtain ⟨before, after, rfl⟩ := List.append_of_mem hr
  have hperm : (before ++ r :: after).Perm (before ++ after ++ [r]) := by
    rw [List.append_assoc]
    exact (List.perm_append_singleton r after).symm.append_left before
  obtain ⟨scan, hscan, horder⟩ := BackendQueries.exists_arrangement hperm
  exact ⟨⟨scan, hscan⟩, before ++ after, horder⟩

/-- Some order gives the name the value of the row, if no row of a later type has it. -/
theorem exists_merge_of_top {rows : List PropertyRow} {id : ℕ} {r : PropertyRow} {k : String}
    {v : Json} (hr : r ∈ rows) (hid : r.id = id) (hmember : rowMember r = some (k, v))
    (htop : ∀ s ∈ rows, s.id = id → r.type < s.type → ∀ w, rowMember s ≠ some (k, w)) :
    ∃ a : Arrangement, ∀ j, Merges (steadily a) rows id j → j.find k = some v := by
  have htype := type_of_member hmember
  obtain ⟨a, before, ha⟩ := exists_arrangement_last (mem_propertiesOf.mpr ⟨hr, hid, rfl⟩)
  refine ⟨a, ?_⟩
  rintro j ⟨callOf, rfl⟩
  obtain ⟨earlier, later, htypes⟩ := List.append_of_mem htype
  have hsorted : propertyTypes.Pairwise (· < ·) := by decide
  rw [htypes, List.pairwise_append, List.pairwise_cons] at hsorted
  have hlisted : listed (steadily a) rows id callOf =
      (earlier.flatMap (fun type => a.order (propertiesOf rows id none none type)) ++ before) ++
        r :: later.flatMap fun type => a.order (propertiesOf rows id none none type) := by
    simp only [listed, steadily_scan, htypes, List.flatMap_append, List.flatMap_cons, ha,
      List.append_assoc, List.singleton_append]
  rw [hlisted]
  apply find_merged_last hmember
  intro q hq u hu
  obtain ⟨type, hlater, hq⟩ := List.mem_flatMap.mp hq
  obtain ⟨hqrows, hqid, rfl⟩ := mem_propertiesOf.mp ((a.perm _).mem_iff.mp hq)
  exact htop q hqrows hqid (hsorted.2.1.1 _ hlater) u hu

theorem exists_merges (srv : Server) (rows : List PropertyRow) (id : ℕ) :
    ∃ j, Merges srv rows id j := ⟨_, fun _ => 0, rfl⟩

/-- If no two orders give different values, the rows do not clash. -/
theorem oneValue_of_orders {rows : List PropertyRow} {id : ℕ} {writtenOver : List String}
    (h : ∀ (a a' : Arrangement) (j j' : Json), Merges (steadily a) rows id j →
      Merges (steadily a') rows id j' → ∀ k, k ∉ writtenOver → j.find k = j'.find k) :
    OneValue rows id writtenOver := by
  intro r hr q hq hrid hqid htype k v u hv hu
  by_contra hclash
  rw [not_or, not_or] at hclash
  obtain ⟨hne, hover, hlater⟩ := hclash
  have htop : ∀ s ∈ rows, s.id = id → r.type < s.type → ∀ w, rowMember s ≠ some (k, w) :=
    fun s hs hid hlt w hw => hlater ⟨s, hs, hid, hlt, w, hw⟩
  obtain ⟨a, ha⟩ := exists_merge_of_top hr hrid hv htop
  obtain ⟨a', ha'⟩ := exists_merge_of_top hq hqid hu (htype ▸ htop)
  obtain ⟨j, hj⟩ := exists_merges (steadily a) rows id
  obtain ⟨j', hj'⟩ := exists_merges (steadily a') rows id
  have hsame := h a a' j j' hj hj' k hover
  rw [ha j hj, ha' j' hj'] at hsame
  exact hne (Option.some.inj hsame)

/-- Every listing of the properties of the owner succeeds, and so does reading its numbers. -/
structure Readable (rows : List PropertyRow) (id : ℕ) : Prop where
  owner : id ≠ 0
  numbers : NumbersRead rows id

theorem filterMap_rowMember {l : List PropertyRow} {f : PropertyEntry → Option (String × Json)}
    (h : ∀ r ∈ l, rowMember r = f (propertyEntry r)) :
    l.filterMap rowMember = (l.map propertyEntry).filterMap f := by
  rw [List.filterMap_map]
  exact List.filterMap_congr h

section Reading

variable {srv : Server} {t : Store} {rows : List PropertyRow} {id : ℕ} {read : PropertyReader}

def ReadsInOrder (srv : Server) (t : Store) (rows : List PropertyRow) (read : PropertyReader)
    (id : ℕ) : Prop :=
  ∀ type, Keeps (· = t) (requireList (read id type)) fun es => id ≠ 0 ∧
    ∃ n, es = (srv.scan n (propertiesOf rows id none none type)).map propertyEntry

theorem readsInOrder (hsrv : Reliable srv) (rows : Store → List PropertyRow) (id : ℕ) :
    ReadsInOrder srv t (rows t) (fun id type => srv.list id (srv.query (fun n s => listing (some
      ((srv.scan n (propertiesOf (rows s) id none none type)).map propertyEntry))) [])) id := by
  intro type
  apply keeps_query hsrv
  intro n h0 _
  exact ⟨h0, n, (listing_some _).2⟩

theorem members_of_listed {n m k : ℕ} {numbers : List (String × Json)} (hnumbers :
      readAll numericalMember ((srv.scan m (propertiesOf rows id none none
        numericalProperty)).map propertyEntry) = some numbers) :
    ∃ callOf, (listed srv rows id callOf).filterMap rowMember =
      ((srv.scan n (propertiesOf rows id none none stringProperty)).map propertyEntry).map
        (propertyMember .string) ++ numbers ++
      ((srv.scan k (propertiesOf rows id none none booleanProperty)).map propertyEntry).map
        (propertyMember fun v => .boolean (v = "1")) := by
  have htypes : numericalProperty ≠ stringProperty ∧ booleanProperty ≠ stringProperty ∧
      booleanProperty ≠ numericalProperty := by decide
  have htype : ∀ n type, ∀ r ∈ srv.scan n (propertiesOf rows id none none type),
      r.type = type := by
    intro n type r hr
    exact (mem_propertiesOf.mp ((srv.scan_perm _ _).mem_iff.mp hr)).2.2
  refine ⟨fun type => if type = stringProperty then n
    else if type = numericalProperty then m else k, ?_⟩
  have hstrings := filterMap_rowMember (f := some ∘ propertyMember .string) fun r hr => by
    rw [rowMember, if_pos (htype n stringProperty r hr)]
    rfl
  have hnumerics := filterMap_rowMember (f := numericalMember) fun r hr => by
    rw [rowMember, htype m numericalProperty r hr, if_neg htypes.1, if_pos rfl]
  have hbooleans := filterMap_rowMember
    (f := some ∘ propertyMember fun v => .boolean (v = "1")) fun r hr => by
      rw [rowMember, htype k booleanProperty r hr, if_neg htypes.2.1, if_neg htypes.2.2,
        if_pos rfl]
      rfl
  simp only [listed, propertyTypes, List.flatMap_cons, List.flatMap_nil, List.append_nil,
    List.filterMap_append, if_true, if_neg htypes.1, if_neg htypes.2.1, if_neg htypes.2.2,
    hstrings, hnumerics, hbooleans, ← (readAll_some hnumbers).1, List.filterMap_eq_map,
    List.append_assoc]

theorem keeps_merges (hread : ReadsInOrder srv t rows read id) :
    Keeps (· = t) (exportProperties read id) fun j => Readable rows id ∧ Merges srv rows id j := by
  refine maintains_bind (hread stringProperty) ?_
  rintro strings ⟨h0, n, rfl⟩
  refine maintains_bind (hread numericalProperty) ?_
  rintro numerics ⟨-, m, rfl⟩
  refine maintains_bind (keeps_orThrow_value (I := (· = t)) _) fun numbers hnumbers => ?_
  refine maintains_bind (hread booleanProperty) ?_
  rintro booleans ⟨-, k, rfl⟩
  refine maintains_pure ⟨⟨h0, fun r hr hid htype => ?_⟩, ?_⟩
  · apply (readAll_some hnumbers).2
    apply List.mem_map_of_mem
    rw [(srv.scan_perm _ _).mem_iff]
    exact mem_propertiesOf.mpr ⟨hr, hid, htype⟩
  · obtain ⟨callOf, hmembers⟩ := members_of_listed (n := n) (k := k) hnumbers
    exact ⟨callOf, by rw [hmembers]⟩

theorem succeeds_merges (hlists : ReadsRows t rows read id)
    (hread : ReadsInOrder srv t rows read id) (h : Readable rows id) :
    Succeeds (· = t) (exportProperties read id) (Merges srv rows id) :=
  maintains_weaken
    (maintains_conj (succeeds_exportProperties hlists h.numbers) (keeps_merges hread))
    fun _ hj => hj.2.2

end Reading

end MergeOrder
