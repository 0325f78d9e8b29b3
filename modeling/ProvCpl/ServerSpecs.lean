import ProvCpl.ProvServer

/-! # What each operation of the front end can do

For any server, a property of stores that the inserted row keeps is kept by the call. For
a reliable server the calls are equal to the statements they run. -/
namespace ServerSpecs

open CplTypes ProvStore ProvServer InsertOnce EarlyExit

variable {srv : Server} {w : World} {I : Store → Prop} {α : Type}

theorem readAll_eq_filterMap {β : Type} {f : α → Option β} :
    ∀ {l : List α}, (∀ r ∈ l, (f r).isSome) → readAll f l = some (l.filterMap f)
  | [], _ => rfl
  | r :: l, h => by
    have ih := readAll_eq_filterMap fun x hx => h x (List.mem_cons_of_mem r hx)
    obtain ⟨e, he⟩ := Option.isSome_iff_exists.mp (h r List.mem_cons_self)
    simp only [readAll, he, ih, List.filterMap_cons]

theorem replay_keeps {stmt : Store → Option (α × Store)}
    (h : ∀ s a t, I s → stmt s = some (a, t) → I t) (n : ℕ) :
    ∀ s, I s → I (replay stmt n s) := by
  induction n with
  | zero => exact fun s hs => hs
  | succ n ih =>
    intro s hs
    refine ih _ ?_
    cases hr : stmt s with
    | none => simpa [hr] using hs
    | some out => simpa [hr] using h s out.1 out.2 hs hr

theorem execute_keeps {stmt : ℕ → Store → Option (α × Store)}
    (h : ∀ now s a t, I s → stmt now s = some (a, t) → I t) (hw : I w.store) :
    I (srv.execute stmt w).2.store := by
  have hr := replay_keeps (h (srv.clock w.calls)) (srv.outcome w.calls).lost w.store hw
  unfold Server.execute
  dsimp only
  split
  · exact hr
  · exact hr
  · exact h _ _ _ _ hr ‹_›

theorem execute_value {stmt : ℕ → Store → Option (α × Store)} {Q : α → Prop}
    (h : ∀ now s a t, I s → stmt now s = some (a, t) → I t ∧ Q a) (hw : I w.store) :
    ∀ a, (srv.execute stmt w).1.2 = some a → Q a := by
  have hr := replay_keeps (fun s a t hs he => (h (srv.clock w.calls) s a t hs he).1)
    (srv.outcome w.calls).lost w.store hw
  unfold Server.execute
  dsimp only
  split
  · simp
  · simp
  · rintro a ⟨⟩
    exact (h _ _ _ _ hr ‹_›).2

/-- A statement that is accepted whenever it is executed fails only by its outcome. -/
theorem execute_isOk_iff {stmt : ℕ → Store → Option (α × Store)}
    (h : ∀ now s, I s → ∃ a t, stmt now s = some (a, t) ∧ I t) (hw : I w.store) :
    (srv.execute stmt w).1.1.IsOk ↔ (srv.outcome w.calls).failure = none := by
  have hkeep : ∀ s a t, I s → stmt (srv.clock w.calls) s = some (a, t) → I t := by
    intro s a t hs he
    obtain ⟨a', t', he', ht'⟩ := h (srv.clock w.calls) s hs
    rw [he', Option.some.injEq, Prod.mk.injEq] at he
    exact he.2 ▸ ht'
  have hr := replay_keeps hkeep (srv.outcome w.calls).lost w.store hw
  obtain ⟨a, t, he, -⟩ := h (srv.clock w.calls) _ hr
  unfold Server.execute
  dsimp only
  rw [he]
  cases hf : (srv.outcome w.calls).failure with
  | none => simp
  | some f => simpa using f.failed

@[simp] theorem query_store (read : ℕ → Store → ReturnCode × α) (nothing : α) :
    (srv.query read nothing w).2.store = w.store := by
  unfold Server.query
  split <;> rfl

@[simp] theorem execute_calls (stmt : ℕ → Store → Option (α × Store)) :
    (srv.execute stmt w).2.calls = w.calls + 1 := by
  unfold Server.execute
  dsimp only
  split <;> rfl

@[simp] theorem query_calls (read : ℕ → Store → ReturnCode × α) (nothing : α) :
    (srv.query read nothing w).2.calls = w.calls + 1 := by
  unfold Server.query
  split <;> rfl

@[simp] theorem lookupObject_store (p n : Option String) (t : ℤ) :
    (srv.lookupObject p n t w).2.store = w.store := by
  unfold Server.lookupObject Server.ensureInitialized cplLookupObject Server.cplOdbcLookupObject
  split
  · cases p with
    | none => rfl
    | some p =>
      cases n with
      | none => rfl
      | some n => dsimp only; split <;> exact query_store _ _
  · rfl

theorem lookupObject_value {p n : String} {t : ℤ} {id : ℕ}
    (h : (srv.lookupObject (some p) (some n) t w).1.2 = some id) :
    ∃ r ∈ w.store.objectsNamed p n t, r.id = id := by
  unfold Server.lookupObject Server.ensureInitialized cplLookupObject Server.cplOdbcLookupObject
    Server.query at h
  split at h
  · dsimp only at h
    cases hf : (srv.outcome w.calls).failure with
    | some f => simp [hf, f.failed] at h
    | none =>
      cases hl : latest (srv.scan w.calls (w.store.objectsNamed p n t)) with
      | none => simp [hf, hl] at h
      | some r =>
        have hr := (srv.scan_perm _ _).mem_iff.mp (List.argmax_mem hl)
        exact ⟨r, hr, by simpa [hf, hl] using h⟩
  · cases h

theorem lookupObject_answered {p n : Option String} {t : ℤ} {id : ℕ}
    (h : (srv.lookupObject p n t w).1.2 = some id) :
    srv.attached = true ∧ (srv.outcome w.calls).failure = none := by
  unfold Server.lookupObject Server.ensureInitialized cplLookupObject Server.cplOdbcLookupObject
    Server.query at h
  split at h
  · next ha =>
    refine ⟨ha, ?_⟩
    cases hf : (srv.outcome w.calls).failure with
    | none => rfl
    | some f =>
      cases p with
      | none => cases h
      | some p =>
        cases n with
        | none => cases h
        | some n => simp [hf, f.failed] at h
  · cases h

theorem lookupObject_isSome {p n : Option String} {t : ℤ}
    (hok : (srv.lookupObject p n t w).1.1.IsOk) : (srv.lookupObject p n t w).1.2.isSome := by
  unfold Server.lookupObject Server.ensureInitialized cplLookupObject Server.cplOdbcLookupObject
    Server.query at hok ⊢
  split at hok
  · next ha =>
    cases p with
    | none => exact absurd hok not_isOk_invalidArgument
    | some p =>
      cases n with
      | none => exact absurd hok not_isOk_invalidArgument
      | some n =>
        cases hf : (srv.outcome w.calls).failure with
        | some f => simp [hf, f.failed] at hok
        | none =>
          cases hl : latest (srv.scan w.calls (w.store.objectsNamed p n t)) with
          | none => simp [hf, hl] at hok
          | some r => simp [ha, hl]
  · exact absurd hok not_isOk_notInitialized

theorem lookupObject_found {p n : Option String} {t : ℤ}
    (hok : (srv.lookupObject p n t w).1.1.IsOk) :
    (srv.outcome w.calls).failure = none ∧ ∃ id, (srv.lookupObject p n t w).1.2 = some id := by
  obtain ⟨id, hid⟩ := Option.isSome_iff_exists.mp (lookupObject_isSome hok)
  exact ⟨(lookupObject_answered hid).2, id, hid⟩

theorem createObject_keeps {p n : Option String} {t : ℤ}
    (h : ∀ s p n now, EnsureOType t → I s → I (s.insertObject p n t now)) (hw : I w.store) :
    I (srv.createObject p n t w).2.store := by
  unfold Server.createObject Server.ensureInitialized cplCreateObject
  split
  · cases p with
    | none => exact hw
    | some p =>
      cases n with
      | none => exact hw
      | some n =>
        dsimp only
        split
        · have hk : I (srv.cplOdbcCreateObject p n t w).2.store := by
            refine execute_keeps (fun now s a s' hs he => ?_) hw
            cases he
            exact h s p n now ‹_› hs
          split <;> exact hk
        · exact hw
  · exact hw

theorem addRelation_keeps {f o : ℕ} {t : ℤ}
    (h : ∀ s, f ≠ 0 → o ≠ 0 → EnsureRType t → I s → I (s.insertRelation f o t))
    (hw : I w.store) : I (srv.addRelation f o t w).2.store := by
  unfold Server.addRelation Server.ensureInitialized cplAddRelation
  split
  · dsimp only
    split
    · exact hw
    · next hc =>
      simp only [cplNone, not_or, not_not] at hc
      have hk : I (srv.cplOdbcAddRelation f o t w).2.store := by
        refine execute_keeps (fun now s a s' hs he => ?_) hw
        cases he
        exact h s hc.1 hc.2.1 hc.2.2 hs
      split <;> exact hk
  · exact hw

theorem createObject_value {p n : Option String} {t : ℤ} {Q : ℕ → Prop}
    (h : ∀ s p n now, EnsureOType t → I s → I (s.insertObject p n t now) ∧ Q s.nextObject)
    (hw : I w.store) : ∀ id, (srv.createObject p n t w).1.2 = some id → Q id := by
  unfold Server.createObject Server.ensureInitialized cplCreateObject
  split
  · cases p with
    | none => simp
    | some p =>
      cases n with
      | none => simp
      | some n =>
        dsimp only
        split
        · have hv : ∀ id, (srv.cplOdbcCreateObject p n t w).1.2 = some id → Q id := by
            refine execute_value (fun now s a s' hs he => ?_) hw
            cases he
            exact h s p n now ‹_› hs
          split
          · exact hv
          · simp
        · simp
  · simp [noId]

theorem addRelation_value {f o : ℕ} {t : ℤ} {Q : ℕ → Prop}
    (h : ∀ s, f ≠ 0 → o ≠ 0 → EnsureRType t → I s →
      I (s.insertRelation f o t) ∧ Q s.nextRelation)
    (hw : I w.store) : ∀ id, (srv.addRelation f o t w).1.2 = some id → Q id := by
  unfold Server.addRelation Server.ensureInitialized cplAddRelation
  split
  · dsimp only
    split
    · simp
    · next hc =>
      simp only [cplNone, not_or, not_not] at hc
      have hv : ∀ id, (srv.cplOdbcAddRelation f o t w).1.2 = some id → Q id := by
        refine execute_value (fun now s a s' hs he => ?_) hw
        cases he
        exact h s hc.1 hc.2.1 hc.2.2 hs
      split
      · exact hv
      · simp
  · simp [noId]

/-- A creation that reports success was executed, after the executions that were lost. -/
theorem createObject_ok {p n : String} {t : ℤ}
    (hok : (srv.createObject (some p) (some n) t w).1.1.IsOk) :
    let s := replay (fun s => some (s.nextObject, s.insertObject p n t (srv.clock w.calls)))
      (srv.outcome w.calls).lost w.store
    srv.attached = true ∧ EnsureOType t ∧
      (srv.createObject (some p) (some n) t w).1.2 = some s.nextObject ∧
      (srv.createObject (some p) (some n) t w).2.store =
        s.insertObject p n t (srv.clock w.calls) := by
  unfold Server.createObject Server.ensureInitialized cplCreateObject Server.cplOdbcCreateObject
    Server.execute at hok ⊢
  split at hok
  · next ha =>
    dsimp only at hok ⊢
    split at hok
    · next ht =>
      cases hf : (srv.outcome w.calls).failure with
      | some f => simp [hf, f.failed] at hok
      | none => simp [ha, ht]
    · exact absurd hok not_isOk_invalidArgument
  · exact absurd hok not_isOk_notInitialized

theorem addRelation_ok {f o : ℕ} {t : ℤ} (hok : (srv.addRelation f o t w).1.1.IsOk) :
    let s := replay (fun s => some (s.nextRelation, s.insertRelation f o t))
      (srv.outcome w.calls).lost w.store
    f ≠ 0 ∧ o ≠ 0 ∧ EnsureRType t ∧ (srv.addRelation f o t w).1.2 = some s.nextRelation ∧
      (srv.addRelation f o t w).2.store = s.insertRelation f o t := by
  unfold Server.addRelation Server.ensureInitialized cplAddRelation Server.cplOdbcAddRelation
    Server.execute at hok ⊢
  split at hok
  · next ha =>
    dsimp only at hok ⊢
    split at hok
    · exact absurd hok not_isOk_invalidArgument
    · next hc =>
      have hargs := hc
      simp only [cplNone, not_or, not_not] at hargs
      cases hf : (srv.outcome w.calls).failure with
      | some f => simp [hf, f.failed] at hok
      | none => simp [ha, hargs, cplNone]
  · exact absurd hok not_isOk_notInitialized

section Calls

/-! A call that gets through to the backend is one backend call. -/

theorem lookupObject_calls (hattached : srv.attached = true) (p n : String) (t : ℤ) :
    (srv.lookupObject (some p) (some n) t w).2.calls = w.calls + 1 := by
  simp only [Server.lookupObject, Server.ensureInitialized, hattached, if_true, cplLookupObject]
  split <;> exact query_calls _ _

theorem createObject_calls {p n : String} {t : ℤ}
    (hok : (srv.createObject (some p) (some n) t w).1.1.IsOk) :
    (srv.createObject (some p) (some n) t w).2.calls = w.calls + 1 := by
  obtain ⟨hattached, ht, -⟩ := createObject_ok hok
  simp only [Server.createObject, Server.ensureInitialized, hattached, if_true, cplCreateObject,
    if_pos ht]
  split <;> exact execute_calls _

theorem addRelation_calls {f o : ℕ} {t : ℤ} (hok : (srv.addRelation f o t w).1.1.IsOk) :
    (srv.addRelation f o t w).2.calls = w.calls + 1 := by
  unfold Server.addRelation Server.ensureInitialized cplAddRelation at hok ⊢
  split at hok
  · dsimp only at hok ⊢
    split at hok
    · exact absurd hok not_isOk_invalidArgument
    · next ha hargs =>
      rw [if_pos ha, if_neg hargs]
      split <;> exact execute_calls _
  · exact absurd hok not_isOk_notInitialized

theorem addPrefix_calls {id : ℕ} {p i : String}
    (hok : (srv.addPrefix id (some p) (some i) w).1.IsOk) :
    (srv.addPrefix id (some p) (some i) w).2.calls = w.calls + 1 := by
  unfold Server.addPrefix Server.ensureInitialized at hok ⊢
  split at hok
  · dsimp only at hok ⊢
    split at hok
    · exact absurd hok not_isOk_invalidArgument
    · next ha hid =>
      rw [if_pos ha, if_neg hid]
      exact execute_calls _
  · exact absurd hok not_isOk_notInitialized

theorem addProperty_calls {db : ℕ → String → String → String → ℤ → Call World ReturnCode}
    (hdb : ∀ id p k v t w, (db id p k v t w).2.calls = w.calls + 1)
    (hattached : srv.attached = true) {id : ℕ} (h0 : id ≠ 0) (p k v : String) (t : ℤ) :
    (srv.addProperty db id (some p) (some k) (some v) t w).2.calls = w.calls + 1 := by
  have hid : ¬ id = cplNone := h0
  simp only [Server.addProperty, Server.ensureInitialized, hattached, if_true, if_neg hid, hdb]

end Calls

theorem addRelation_isOk {f o : ℕ} {t : ℤ} (h : (srv.addRelation f o t w).1.1.IsOk) :
    f ≠ 0 ∧ o ≠ 0 ∧ EnsureRType t := by
  unfold Server.addRelation Server.ensureInitialized cplAddRelation at h
  split at h
  · dsimp only at h
    split at h
    · exact absurd h not_isOk_invalidArgument
    · next hc => simpa only [cplNone, not_or, not_not] using hc
  · exact absurd h not_isOk_notInitialized

theorem addProperty_keeps {id : ℕ} {nsPrefix key value : Option String} {t : ℤ}
    {db : ℕ → String → String → String → ℤ → Call World ReturnCode}
    (h : ∀ p k v, value = some v → id ≠ 0 → I (db id p k v t w).2.store) (hw : I w.store) :
    I (srv.addProperty db id nsPrefix key value t w).2.store := by
  unfold Server.addProperty Server.ensureInitialized
  split
  · dsimp only
    split
    · split
      · exact hw
      · next hid => exact h _ _ _ rfl hid
    · exact hw
  · exact hw

theorem execute_insert_keeps {insert : Store → Option Store}
    (h : ∀ s s', insert s = some s' → I s → I s') (hw : I w.store) :
    I (srv.execute (fun _ s => (insert s).map fun t => ((), t)) w).2.store := by
  refine execute_keeps (fun now s a s' hs he => ?_) hw
  simp only [Option.map_eq_some_iff, Prod.mk.injEq] at he
  obtain ⟨t', ht, -, rfl⟩ := he
  exact h s t' ht hs

theorem cplOdbcAddObjectProperty_keeps {id : ℕ} {p k v : String} {t : ℤ}
    (h : ∀ s s', s.insertObjectProperty ⟨id, p, k, v, t⟩ = some s' → I s → I s')
    (hw : I w.store) : I (srv.cplOdbcAddObjectProperty id p k v t w).2.store := by
  exact execute_insert_keeps h hw

theorem cplOdbcAddRelationProperty_keeps {id : ℕ} {p k v : String} {t : ℤ}
    (h : ∀ s s', s.insertRelationProperty ⟨id, p, k, v, t⟩ = some s' → I s → I s')
    (hw : I w.store) : I (srv.cplOdbcAddRelationProperty id p k v t w).2.store := by
  exact execute_insert_keeps h hw

theorem addPrefix_keeps {id : ℕ} {nsPrefix iri : Option String}
    (h : ∀ s s' p i, id ≠ 0 → s.insertPrefix ⟨id, p, i⟩ = some s' → I s → I s')
    (hw : I w.store) : I (srv.addPrefix id nsPrefix iri w).2.store := by
  unfold Server.addPrefix Server.ensureInitialized
  split
  · dsimp only
    split
    · split
      · exact hw
      · next hid =>
        exact execute_insert_keeps (fun s s' => h s s' _ _ hid) hw
    · exact hw
  · exact hw

section Reliable

variable (hsrv : Reliable srv)

include hsrv

theorem execute_reliable (stmt : ℕ → Store → Option (α × Store)) (w : World) :
    srv.execute stmt w = match stmt (srv.clock w.calls) w.store with
      | none => ((.statementError, none), ⟨w.store, w.calls + 1⟩)
      | some (a, t) => ((.ok, some a), ⟨t, w.calls + 1⟩) := by
  unfold Server.execute
  simp only [hsrv.succeeds, Outcome.success, replay]
  split <;> simp_all

theorem query_reliable (read : ℕ → Store → ReturnCode × α) (nothing : α) (w : World) :
    srv.query read nothing w = (read w.calls w.store, ⟨w.store, w.calls + 1⟩) := by
  unfold Server.query
  simp only [hsrv.succeeds, Outcome.success]

theorem createObject_reliable (p n : String) {t : ℤ} (ht : EnsureOType t) (w : World) :
    srv.createObject (some p) (some n) t w = ((.objectCreated, some w.store.nextObject),
      ⟨w.store.insertObject p n t (srv.clock w.calls), w.calls + 1⟩) := by
  simp [Server.createObject, Server.ensureInitialized, hsrv.attached, cplCreateObject, ht,
    Server.cplOdbcCreateObject, execute_reliable hsrv]

theorem addRelation_reliable {f o : ℕ} {t : ℤ} (hf : f ≠ 0) (ho : o ≠ 0) (ht : EnsureRType t)
    (w : World) : srv.addRelation f o t w = ((.ok, some w.store.nextRelation),
      ⟨w.store.insertRelation f o t, w.calls + 1⟩) := by
  simp [Server.addRelation, Server.ensureInitialized, hsrv.attached, cplAddRelation, ht, hf, ho,
    cplNone, Server.cplOdbcAddRelation, execute_reliable hsrv]

theorem lookupObject_reliable (p n : String) (t : ℤ) (w : World) :
    srv.lookupObject (some p) (some n) t w =
      (match latest (srv.scan w.calls (w.store.objectsNamed p n t)) with
        | some r => (.ok, some r.id)
        | none => (.notFound, none), ⟨w.store, w.calls + 1⟩) := by
  simp only [Server.lookupObject, Server.ensureInitialized, hsrv.attached, cplLookupObject,
    Server.cplOdbcLookupObject, query_reliable hsrv, if_true]
  cases latest (srv.scan w.calls (w.store.objectsNamed p n t)) <;> simp

theorem lookupObject_isOk_iff (p n : String) (t : ℤ) (w : World) :
    (srv.lookupObject (some p) (some n) t w).1.1.IsOk ↔ w.store.objectsNamed p n t ≠ [] := by
  rw [lookupObject_reliable hsrv]
  cases hl : latest (srv.scan w.calls (w.store.objectsNamed p n t)) with
  | none =>
    have hnil := (srv.scan_perm w.calls (w.store.objectsNamed p n t)).symm
    rw [List.argmax_eq_none.mp hl, List.perm_nil] at hnil
    simp [hnil]
  | some r =>
    have hr := (srv.scan_perm _ _).mem_iff.mp (List.argmax_mem hl)
    simp [List.ne_nil_of_mem hr]

theorem addObjectProperty_store (id : ℕ) (p k v : String) (type : ℤ) (w : World) :
    (srv.cplOdbcAddObjectProperty id p k v type w).2.store =
      (w.store.insertObjectProperty ⟨id, p, k, v, type⟩).getD w.store := by
  rw [Server.cplOdbcAddObjectProperty, codeOnly, execute_reliable hsrv]
  cases w.store.insertObjectProperty ⟨id, p, k, v, type⟩ <;> rfl

theorem addRelationProperty_store (id : ℕ) (p k v : String) (type : ℤ) (w : World) :
    (srv.cplOdbcAddRelationProperty id p k v type w).2.store =
      (w.store.insertRelationProperty ⟨id, p, k, v, type⟩).getD w.store := by
  rw [Server.cplOdbcAddRelationProperty, codeOnly, execute_reliable hsrv]
  cases w.store.insertRelationProperty ⟨id, p, k, v, type⟩ <;> rfl

theorem addPrefix_run {id : ℕ} (h0 : id ≠ 0) (p i : String) (w : World) :
    srv.addPrefix id (some p) (some i) w =
      (if id ∈ w.store.objects.map (·.id) then .ok else .statementError,
        ⟨(w.store.insertPrefix ⟨id, p, i⟩).getD w.store, w.calls + 1⟩) := by
  have hid : ¬ id = cplNone := h0
  simp only [Server.addPrefix, Server.ensureInitialized, hsrv.attached, if_true, if_neg hid,
    Server.cplOdbcAddPrefix, codeOnly, execute_reliable hsrv, Store.insertPrefix]
  by_cases h : id ∈ w.store.objects.map (·.id)
  · simp only [if_pos h, Option.map_some, Option.getD_some]
  · simp only [if_neg h, Option.map_none, Option.getD_none]

theorem addPrefix_reliable {id : ℕ} (h0 : id ≠ 0) (h : id ∈ w.store.objects.map (·.id))
    (p i : String) : srv.addPrefix id (some p) (some i) w =
      (.ok, ⟨{ w.store with prefixes := insertOnce SamePrefix w.store.prefixes ⟨id, p, i⟩ },
        w.calls + 1⟩) := by
  rw [addPrefix_run hsrv h0, if_pos h, Store.insertPrefix, if_pos h, Option.getD_some]

theorem list_reliable {id : ℕ} (h0 : id ≠ 0)
    (read : ℕ → Store → ReturnCode × List α) (w : World) :
    srv.list id (srv.query read []) w = (read w.calls w.store, ⟨w.store, w.calls + 1⟩) := by
  simp only [Server.list, Server.ensureInitialized, hsrv.attached, if_true, cplNone, if_neg h0,
    query_reliable hsrv]

theorem list_rows {β : Type} {id : ℕ} (h0 : id ≠ 0) {f : α → Option β} {rows : Store → List α}
    (hf : ∀ r ∈ rows w.store, (f r).isSome) : ∃ es,
    (srv.list id (srv.query (fun n s => listing (readAll f (srv.scan n (rows s)))) []) w).1 =
      (if es = [] then .noData else .ok, es) ∧ es.Perm ((rows w.store).filterMap f) := by
  have hperm := srv.scan_perm w.calls (rows w.store)
  have hread := readAll_eq_filterMap fun r hr => hf r (hperm.mem_iff.mp hr)
  refine ⟨(srv.scan w.calls (rows w.store)).filterMap f, ?_, hperm.filterMap f⟩
  rw [list_reliable hsrv h0, hread]
  cases (srv.scan w.calls (rows w.store)).filterMap f <;> simp [listing]

end Reliable

end ServerSpecs
