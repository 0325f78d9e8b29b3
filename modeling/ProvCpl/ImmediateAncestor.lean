import ProvCpl.ServerSpecs

/-! # The test for an immediate ancestor

The ancestors of an object are at the other ends of the relations that start in it. The test
binds the ancestor where the listing binds the object, so it looks for a relation that starts in
the ancestor. -/
namespace ImmediateAncestor

open CplTypes ProvStore ProvServer ServerSpecs EarlyExit

def Edge (s : Store) (fromId toId : ℕ) : Prop :=
  ∃ r ∈ s.relations, r.fromId = some fromId ∧ r.toId = some toId

instance (s : Store) (f o : ℕ) : Decidable (Edge s f o) :=
  inferInstanceAs (Decidable (∃ r ∈ s.relations, _ ∧ _))

/-- The listing of the ancestors of `o` reports a relation whose other object is `q`. -/
def Reported (srv : Server) (o q : ℕ) (w : World) : Prop :=
  ∃ e ∈ (srv.cplOdbcGetObjectRelations o cplDAncestors w).1.2, e.otherObjectId = q

instance (srv : Server) (o q : ℕ) (w : World) : Decidable (Reported srv o q w) :=
  inferInstanceAs (Decidable (∃ e ∈ (srv.cplOdbcGetObjectRelations o cplDAncestors w).1.2, _))

def Agrees (srv : Server) (o q : ℕ) (w : World) : Prop :=
  ∃ w', srv.cplOdbcHasImmediateAncestor o q w =
    ((.ok, some (if Reported srv o q w' then 1 else 0)), w')

section Reliable

variable {srv : Server} (hsrv : Reliable srv)

include hsrv

theorem hasImmediateAncestor_run (o q : ℕ) (w : World) :
    srv.cplOdbcHasImmediateAncestor o q w =
      ((.ok, some (if Edge w.store q o then 1 else 0)), ⟨w.store, w.calls + 1⟩) := by
  have hperm := srv.scan_perm w.calls (w.store.relationsBetween q o)
  rw [Server.cplOdbcHasImmediateAncestor, query_reliable hsrv]
  by_cases h : Edge w.store q o
  · obtain ⟨r, hr, hends⟩ := h
    have hmem : r ∈ srv.scan w.calls (w.store.relationsBetween q o) := by
      rw [hperm.mem_iff]
      simp [Store.relationsBetween, hr, hends]
    rw [if_pos ⟨r, hr, hends⟩]
    cases hscan : srv.scan w.calls (w.store.relationsBetween q o) with
    | nil =>
      rw [hscan] at hmem
      cases hmem
    | cons => rfl
  · have hnone : w.store.relationsBetween q o = [] := by
      rw [Store.relationsBetween, List.filter_eq_nil_iff]
      intro r hr hends
      exact h ⟨r, hr, of_decide_eq_true hends⟩
    rw [hnone, List.perm_nil] at hperm
    rw [if_neg h, hnone, hperm]

theorem reported_iff {w : World} (hw : w.store.Reachable) (o q : ℕ) :
    Reported srv o q w ↔ Edge w.store o q := by
  have hperm := srv.scan_perm w.calls (w.store.relationsFrom o)
  have hseen : ∀ r ∈ srv.scan w.calls (w.store.relationsFrom o),
      ∃ p t, r.toId = some p ∧ r.type = some t ∧ r ∈ w.store.relations ∧ r.fromId = some o := by
    intro r hr
    rw [hperm.mem_iff, Store.relationsFrom, List.mem_filter, decide_eq_true_eq] at hr
    have hid : r.id ≠ 0 := by
      intro h0
      have hnull := (hw.columns.reserved r hr.1 h0).1
      rw [hr.2] at hnull
      cases hnull
    obtain ⟨f, p, t, -, -, -, -, hp, ht⟩ := hw.columns.relations r hr.1 hid
    exact ⟨p, t, hp, ht, hr⟩
  have hread : readAll (RelationRow.seenFrom o (·.toId))
      (srv.scan w.calls (w.store.relationsFrom o)) =
        some ((srv.scan w.calls (w.store.relationsFrom o)).filterMap
          (RelationRow.seenFrom o (·.toId))) := by
    apply readAll_eq_filterMap
    intro r hr
    obtain ⟨p, t, hp, ht, -⟩ := hseen r hr
    simp [RelationRow.seenFrom, hp, ht]
  have hlist : ∀ es : List RelationEntry, (listing (some es)).2 = es := by
    intro es
    cases es <;> rfl
  rw [Reported, Server.cplOdbcGetObjectRelations, query_reliable hsrv]
  simp only [if_true, hread, hlist, List.mem_filterMap]
  constructor
  · rintro ⟨e, ⟨r, hr, he⟩, hother⟩
    obtain ⟨p, t, hp, ht, hmem, hfrom⟩ := hseen r hr
    rw [RelationRow.seenFrom, hp, ht, Option.some.injEq] at he
    refine ⟨r, hmem, hfrom, ?_⟩
    rw [hp, ← hother, ← he]
  · rintro ⟨r, hmem, hfrom, hto⟩
    have hr : r ∈ srv.scan w.calls (w.store.relationsFrom o) := by
      rw [hperm.mem_iff]
      simp [Store.relationsFrom, hmem, hfrom]
    obtain ⟨p, t, -, ht, -⟩ := hseen r hr
    refine ⟨⟨r.id, o, q, t⟩, ⟨r, hr, ?_⟩, rfl⟩
    rw [RelationRow.seenFrom, hto, ht]

end Reliable

def derivedStore : Store :=
  ((Store.fresh.insertObject "p" "e1" cplEntity 0).insertObject "p" "e2" cplEntity 1).insertRelation
    1 2 wasDerivedFrom

theorem derivedStore_reachable : derivedStore.Reachable :=
  .addRelation 1 2 wasDerivedFrom (by decide) (by decide) (by decide)
    (.createObject "p" "e2" cplEntity 1 (by decide)
      (.createObject "p" "e1" cplEntity 0 (by decide) .fresh))

/-- The listing of entity 1 shows entity 2, for which the test stores 0. -/
theorem ancestor_not_found : derivedStore.Reachable ∧
    (Server.ideal.cplOdbcGetObjectRelations 1 cplDAncestors ⟨derivedStore, 1⟩).1 =
      (.ok, [⟨1, 1, 2, wasDerivedFrom⟩]) ∧
    (Server.ideal.cplOdbcHasImmediateAncestor 1 2 ⟨derivedStore, 0⟩).1 = (.ok, some 0) ∧
    ¬ Agrees .ideal 1 2 ⟨derivedStore, 0⟩ := by
  refine ⟨derivedStore_reachable, by decide, by decide, ?_⟩
  rintro ⟨w', h⟩
  have hstores : (some 0 : Option ℤ) = some (if Reported .ideal 1 2 w' then 1 else 0) :=
    congrArg (fun out => out.1.2) h
  have hworld : (⟨derivedStore, 1⟩ : World) = w' := congrArg Prod.snd h
  subst hworld
  revert hstores
  decide

/-- The test agrees with the listing exactly on pairs that are joined in both directions or in
none. -/
theorem agrees_iff {srv : Server} (hsrv : Reliable srv) {w : World} (hw : w.store.Reachable)
    (o q : ℕ) : Agrees srv o q w ↔ (Edge w.store o q ↔ Edge w.store q o) := by
  have hrun := hasImmediateAncestor_run hsrv o q w
  have hreport := reported_iff hsrv (w := ⟨w.store, w.calls + 1⟩) hw o q
  constructor
  · rintro ⟨w', h⟩
    rw [hrun, Prod.mk.injEq] at h
    obtain ⟨hvalue, rfl⟩ := h
    simp only [Prod.mk.injEq, Option.some.injEq, true_and, hreport] at hvalue
    by_cases hq : Edge w.store q o <;> by_cases ho : Edge w.store o q <;> simp_all
  · intro h
    refine ⟨⟨w.store, w.calls + 1⟩, hrun.trans ?_⟩
    simp only [hreport, h]

theorem agrees_iff_loop : Agrees .ideal 1 1 ⟨derivedStore, 0⟩ :=
  (agrees_iff Server.ideal_reliable derivedStore_reachable 1 1).mpr Iff.rfl

end ImmediateAncestor
