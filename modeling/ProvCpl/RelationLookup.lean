import ProvCpl.PreparedQueries
import Mathlib.Data.List.Rotate

/-! # Looking up a relation by its ends and type

The statement takes one matching row and does not say which. A lookup returns the last relation
added whatever order the rows come in exactly when no more than one matches. -/
namespace RelationLookup

open CplTypes ProvStore ProvServer ServerSpecs PreparedQueries SqlSelect

structure Ends where
  fromId : ℕ
  toId : ℕ
  type : ℤ
  deriving DecidableEq, Repr

/-- A call of `cpl_add_relation` with its code and the id that it returned. -/
structure Added where
  ends : Ends
  code : ReturnCode
  id : Option ℕ
  deriving DecidableEq, Repr

def add (srv : Server) (w : World) (e : Ends) : Added :=
  let out := srv.addRelation e.fromId e.toId e.type w
  ⟨e, out.1.1, out.1.2⟩

def afterAdd (srv : Server) (w : World) (e : Ends) : World :=
  (srv.addRelation e.fromId e.toId e.type w).2

def addAll (srv : Server) : World → List Ends → List Added × World
  | w, [] => ([], w)
  | w, e :: es =>
    let rest := addAll srv (afterAdd srv w e) es
    (add srv w e :: rest.1, rest.2)

/-- The id of the last call with these ends and this type; `earlier` if there is none. -/
def lastAdded (e : Ends) : Option ℕ → List Added → Option ℕ
  | earlier, [] => earlier
  | earlier, a :: log => lastAdded e (if a.ends = e then a.id else earlier) log

def found : Option ℕ → ReturnCode × Option ℕ
  | none => (.notFound, none)
  | some id => (.ok, some id)

/-- Every lookup that the database answers gives this, in whatever order it produces rows. -/
def LookupGives (w : World) (e : Ends) (latest : Option ℕ) : Prop :=
  ∀ srv : Server, srv.attached = true → (srv.outcome w.calls).failure = none →
    (srv.lookupRelation e.fromId e.toId e.type w).1 = found latest

def Ends.Valid (e : Ends) : Prop := e.fromId ≠ 0 ∧ e.toId ≠ 0 ∧ EnsureRType e.type

def Ends.Matches (e : Ends) (r : RelationRow) : Prop :=
  r.fromId = some e.fromId ∧ r.toId = some e.toId ∧ r.type = some e.type

instance (e : Ends) (r : RelationRow) : Decidable (e.Matches r) :=
  inferInstanceAs (Decidable (_ ∧ _ ∧ _))

instance (e : Ends) : Decidable e.Valid := inferInstanceAs (Decidable (_ ∧ _ ∧ _))

def Ends.matching (e : Ends) (s : Store) : List RelationRow := s.relations.filter e.Matches

def Known (e : Ends) (s : Store) : Option ℕ → Prop
  | none => e.matching s = []
  | some id => ∃ r ∈ e.matching s, r.id = id

/-- The server that produces the row number `k` first. -/
def startingAt (k : ℕ) : Server where
  attached := true
  outcome := fun _ => .success
  clock := fun n => n
  scan := fun _ _ l => l.rotate k
  scan_perm := fun _ _ l => l.rotate_perm k

section Run

variable {srv : Server} {w : World} {e : Ends}

theorem matching_insertRelation (e d : Ends) (s : Store) :
    e.matching (s.insertRelation d.fromId d.toId d.type) =
      e.matching s ++ if d = e then [⟨s.nextRelation, some d.fromId, some d.toId, some d.type⟩]
        else [] := by
  have hiff : e.Matches ⟨s.nextRelation, some d.fromId, some d.toId, some d.type⟩ ↔ d = e := by
    obtain ⟨f, o, t⟩ := d
    obtain ⟨f', o', t'⟩ := e
    simp [Ends.Matches]
  rw [Ends.matching, Store.insertRelation, List.filter_append]
  congr 1
  by_cases h : d = e
  · rw [if_pos h, List.filter_cons_of_pos (by simpa using hiff.mpr h)]
    rfl
  · rw [if_neg h, List.filter_cons_of_neg (by simpa using fun hm => h (hiff.mp hm))]
    rfl

/-- Executions that are lost add rows with the same ends. -/
theorem known_replay {s : Store} {latest : Option ℕ} (d : Ends) (hd : d ≠ e)
    (h : Known e s latest) (n : ℕ) : Known e (replay
      (fun s => some (s.nextRelation, s.insertRelation d.fromId d.toId d.type)) n s) latest := by
  refine replay_keeps (I := fun s => Known e s latest) (fun s a t hs he => ?_) n s h
  obtain ⟨-, rfl⟩ := Prod.mk.inj (Option.some.inj he)
  have hm := matching_insertRelation e d s
  rw [if_neg hd, List.append_nil] at hm
  cases latest with
  | none => exact hm.trans hs
  | some id =>
    obtain ⟨r, hr, hid⟩ := hs
    exact ⟨r, by rw [hm]; exact hr, hid⟩

theorem known_add {latest : Option ℕ} {d : Ends} (h : Known e w.store latest)
    (hok : (add srv w d).code = .ok) :
    Known e (afterAdd srv w d).store (if d = e then (add srv w d).id else latest) := by
  have hok' : (srv.addRelation d.fromId d.toId d.type w).1.1.IsOk := by
    rw [show (srv.addRelation d.fromId d.toId d.type w).1.1 = .ok from hok]
    exact isOk_ok
  obtain ⟨-, -, -, hid, hstore⟩ := addRelation_ok hok'
  rw [afterAdd, hstore]
  by_cases hd : d = e
  · rw [if_pos hd, show (add srv w d).id = _ from hid]
    refine ⟨⟨_, some d.fromId, some d.toId, some d.type⟩, ?_, rfl⟩
    rw [matching_insertRelation, if_pos hd]
    exact List.mem_append_right _ List.mem_cons_self
  · rw [if_neg hd]
    have hm := matching_insertRelation e d (replay
      (fun s => some (s.nextRelation, s.insertRelation d.fromId d.toId d.type))
        (srv.outcome w.calls).lost w.store)
    rw [if_neg hd, List.append_nil] at hm
    have hk := known_replay d hd h (srv.outcome w.calls).lost
    cases latest with
    | none => exact hm.trans hk
    | some id =>
      obtain ⟨r, hr, hid⟩ := hk
      exact ⟨r, by rw [hm]; exact hr, hid⟩

theorem known_addAll {latest : Option ℕ} {es : List Ends} (h : Known e w.store latest)
    (hok : ∀ a ∈ (addAll srv w es).1, a.code = .ok) :
    Known e (addAll srv w es).2.store (lastAdded e latest (addAll srv w es).1) := by
  induction es generalizing w latest with
  | nil => exact h
  | cons d es ih =>
    have hstep := known_add h (hok _ List.mem_cons_self)
    exact ih hstep fun a ha => hok a (List.mem_cons_of_mem _ ha)

theorem addAll_reachable {es : List Ends} (h : w.store.Reachable) :
    (addAll srv w es).2.store.Reachable := by
  induction es generalizing w with
  | nil => exact h
  | cons d es ih =>
    apply ih
    exact addRelation_keeps (fun s hf ho ht hs => .addRelation _ _ _ hf ho ht hs) h

end Run

section Lookup

variable {srv : Server} {w : World} {e : Ends}

theorem lookup_rejected (h : ¬ e.Valid) (ha : srv.attached = true) :
    (srv.lookupRelation e.fromId e.toId e.type w).1 = (.invalidArgument, none) := by
  have hc : e.fromId = cplNone ∨ e.toId = cplNone ∨ ¬ EnsureRType e.type := by
    unfold Ends.Valid at h
    simp only [cplNone]
    tauto
  simp only [Server.lookupRelation, Server.ensureInitialized, ha, if_true, if_pos hc]

theorem lookup_eq_select (h : e.Valid) (ha : srv.attached = true) :
    (srv.lookupRelation e.fromId e.toId e.type w).1 =
      (srv.cplOdbcLookupRelation e.fromId e.toId e.type w).1 := by
  have hc : ¬ (e.fromId = cplNone ∨ e.toId = cplNone ∨ ¬ EnsureRType e.type) := by
    obtain ⟨hf, ho, ht⟩ := h
    simp only [cplNone]
    tauto
  simp only [Server.lookupRelation, Server.ensureInitialized, ha, if_true, if_neg hc]

theorem matching_ends (e : Ends) (s : Store) : lookupRelationStmts.matching (database s)
    [.integer e.fromId, .integer e.toId, .integer e.type] =
      some ((e.matching s).map relationCells) :=
  matching_lookupRelation e.fromId e.toId

theorem lookup_answer (h : e.Valid) (ha : srv.attached = true)
    (hf : (srv.outcome w.calls).failure = none) :
    (e.matching w.store = [] ∧
      (srv.lookupRelation e.fromId e.toId e.type w).1 = (.notFound, none)) ∨
    ∃ r ∈ e.matching w.store,
      (srv.lookupRelation e.fromId e.toId e.type w).1 = (.ok, some r.id) := by
  rw [lookup_eq_select h ha, Server.cplOdbcLookupRelation]
  obtain ⟨hans, hsel⟩ := select_answers (lookupRelationStmts, _) hf (matching_ends e w.store)
  rw [hsel]
  rcases (answers_first rfl (matching_ends e w.store)).mp hans with ⟨h0, hr⟩ | ⟨row, hrow, hr⟩
  · rw [hr]
    exact Or.inl ⟨List.map_eq_nil_iff.mp h0, rfl⟩
  · rw [hr]
    obtain ⟨r, hm, rfl⟩ := List.mem_map.mp hrow
    exact Or.inr ⟨r, hm, rfl⟩

theorem lookup_startingAt (h : e.Valid) {k : ℕ} (hk : k < (e.matching w.store).length) :
    ((startingAt k).lookupRelation e.fromId e.toId e.type w).1 =
      (.ok, some ((e.matching w.store).get ⟨k, hk⟩).id) := by
  rw [lookup_eq_select h rfl, Server.cplOdbcLookupRelation,
    (select_answers (lookupRelationStmts, _) rfl (matching_ends e w.store)).2]
  have hscan : lookupRelationStmts.cut ((startingAt k).scan w.calls
      ((e.matching w.store).map relationCells)) =
        [relationCells ((e.matching w.store).get ⟨k, hk⟩)] := by
    rw [show lookupRelationStmts.cut _ = List.take 1 _ from rfl, List.take_one,
      show (startingAt k).scan w.calls _ = List.rotate _ k from rfl,
      List.head?_rotate (by simpa using hk), List.getElem?_map, List.getElem?_eq_getElem hk]
    rfl
  rw [hscan]
  rfl

theorem matching_ids_nodup {s : Store} (h : s.Valid) (e : Ends) :
    ((e.matching s).map (·.id)).Nodup :=
  h.relation_ids.sublist (List.filter_sublist.map _)

theorem eq_of_length_le_one {α : Type} {l : List α} (h : l.length ≤ 1) {a b : α} (ha : a ∈ l)
    (hb : b ∈ l) : a = b := by
  cases l with
  | nil => cases ha
  | cons x l =>
    obtain rfl : l = [] := List.eq_nil_of_length_eq_zero (by simpa using h)
    rw [List.mem_singleton.mp ha, List.mem_singleton.mp hb]

/-- With two matching rows the answer depends on the order. -/
theorem lookupGives_iff (hv : w.store.Valid) {latest : Option ℕ} (hk : Known e w.store latest) :
    LookupGives w e latest ↔ e.Valid ∧ (e.matching w.store).length ≤ 1 := by
  constructor
  · intro h
    have hvalid : e.Valid := by
      by_contra hn
      have hgives := h .ideal rfl rfl
      rw [lookup_rejected hn rfl] at hgives
      cases latest <;> cases hgives
    refine ⟨hvalid, ?_⟩
    by_contra hlen
    have hlen0 : 0 < (e.matching w.store).length := by omega
    have hlen1 : 1 < (e.matching w.store).length := by omega
    have h0 := (lookup_startingAt hvalid hlen0).symm.trans (h (startingAt 0) rfl rfl)
    have h1 := (lookup_startingAt hvalid hlen1).symm.trans (h (startingAt 1) rfl rfl)
    have hid := Option.some.inj (Prod.mk.inj (h0.trans h1.symm)).2
    have hinj := List.nodup_iff_injective_get.mp (matching_ids_nodup hv e)
    have hfin : (⟨0, by simpa using hlen0⟩ : Fin ((e.matching w.store).map (·.id)).length) =
        ⟨1, by simpa using hlen1⟩ := hinj (by simpa using hid)
    exact absurd (congrArg Fin.val hfin) Nat.zero_ne_one
  · intro ⟨hvalid, hlen⟩ srv ha hf
    rcases lookup_answer hvalid ha hf with ⟨h0, hr⟩ | ⟨r, hm, hr⟩
    · cases latest with
      | none => exact hr
      | some id =>
        obtain ⟨q, hq, -⟩ := hk
        rw [h0] at hq
        cases hq
    · cases latest with
      | none =>
        rw [show e.matching w.store = [] from hk] at hm
        cases hm
      | some id =>
        obtain ⟨q, hq, hid⟩ := hk
        have hone : r = q := eq_of_length_le_one hlen hm hq
        rw [hr, hone, hid]
        rfl

end Lookup

/-- After a run of successful calls a lookup gives the last relation added, and fails when there
is none, exactly when its arguments are accepted and no two relations match. -/
theorem lookup_latest_iff {srv : Server} {w : World} (hw : w.store.Reachable)
    (hnone : ∀ r ∈ w.store.relations, r.id = 0) {es : List Ends}
    (hok : ∀ a ∈ (addAll srv w es).1, a.code = .ok) (e : Ends) :
    LookupGives (addAll srv w es).2 e (lastAdded e none (addAll srv w es).1) ↔
      e.Valid ∧ (e.matching (addAll srv w es).2.store).length ≤ 1 := by
  have hempty : Known e w.store none := by
    rw [Known, Ends.matching, List.filter_eq_nil_iff]
    intro r hr hm
    have hreserved := (hw.columns.reserved r hr (hnone r hr)).1
    have hfrom := (of_decide_eq_true hm).1
    rw [hreserved] at hfrom
    cases hfrom
  exact lookupGives_iff (addAll_reachable hw).valid (known_addAll hempty hok)

def sameTwice : List Ends := [⟨1, 2, used⟩, ⟨1, 2, used⟩]

def oneOfEach : List Ends := [⟨1, 2, used⟩, ⟨2, 1, wasGeneratedBy⟩]

/-- The last relation added is the second; the first one is found when its row comes first. -/
theorem duplicate_lookup_wrong :
    (∀ a ∈ (addAll .ideal ⟨.fresh, 0⟩ sameTwice).1, a.code = .ok) ∧
    lastAdded ⟨1, 2, used⟩ none (addAll .ideal ⟨.fresh, 0⟩ sameTwice).1 = some 2 ∧
    (Server.ideal.lookupRelation 1 2 used (addAll .ideal ⟨.fresh, 0⟩ sameTwice).2).1 =
      (.ok, some 1) ∧
    ¬ LookupGives (addAll .ideal ⟨.fresh, 0⟩ sameTwice).2 ⟨1, 2, used⟩ (some 2) := by
  have hfirst : (Server.ideal.lookupRelation 1 2 used
      (addAll .ideal ⟨.fresh, 0⟩ sameTwice).2).1 = (.ok, some 1) := by decide
  refine ⟨by decide, by decide, hfirst, ?_⟩
  intro h
  have hgives := h .ideal rfl rfl
  rw [hfirst] at hgives
  cases hgives

theorem single_match_found :
    LookupGives (addAll .ideal ⟨.fresh, 0⟩ oneOfEach).2 ⟨1, 2, used⟩ (some 1) :=
  (lookup_latest_iff .fresh (by decide) (by decide) ⟨1, 2, used⟩).mpr ⟨by decide, by decide⟩

end RelationLookup
