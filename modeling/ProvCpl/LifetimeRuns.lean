import ProvCpl.BackendLifetime
import ProvCpl.PathShape
import ProvCpl.Reconnect

/-! # Whole lifetimes of a backend

A call leaves the resources of the backend as they are, unless it looks a prefix up by its key or
tries to reconnect: then something is used that is not there, or will be by the destructor at the
latest. With this the constructor, any calls and the destructor are put together. -/
namespace BackendLifetime

open CplTypes EventTrace OdbcOperation OperationPaths StatementPool Lifetimes PathShape

section Calls

variable {prepared : ℕ → ℕ} {b : Backend} {s : Set Resource}

theorem mayReconnect_some {stmt : Option Handle} {p : Answers}
    (h : MayReconnect (answersTo stmt p)) : ∃ x, stmt = some x := by
  cases stmt with
  | some x => exact ⟨x, rfl⟩
  | none =>
    obtain ⟨n, hn⟩ := h
    cases hn

theorem Steady.setSlots (h : Steady b s) {pool : Pool} {slots : List (Option Handle)}
    (hslots : ∀ x, some x ∈ slots →
      x.pool = pool ∧ x.generation = b.connection.opened ∧ x.index < cplStmtMax) :
    Steady (b.setSlots pool slots) s := by
  have hnew : ∀ q x, some x ∈ ((b.setSlots pool slots).connection.arrays q).slots →
      x.pool = q ∧ x.generation = b.connection.opened ∧ x.index < cplStmtMax := by
    intro q x hx
    by_cases hq : q = pool
    · subst hq
      exact hslots x (by simpa [Backend.setSlots, Connection.setSlots] using hx)
    · have hold : some x ∈ (b.connection.arrays q).slots := by
        simpa [Backend.setSlots, Connection.setSlots, hq] using hx
      exact ⟨h.own q x hold, h.slots q x hold⟩
  refine ⟨h.resources, fun q => ?_, fun q x hx => (hnew q x hx).1, fun q x hx => (hnew q x hx).2⟩
  by_cases hq : q = pool
  · subst hq
    simpa [Backend.setSlots, Connection.setSlots] using h.arrays q
  · simpa [Backend.setSlots, Connection.setSlots, hq] using h.arrays q

theorem statementOf_mem {x : OdbcCall} {y : Handle}
    (hy : statementOf b x = some y) :
    some y ∈ (b.connection.arrays (cplOdbcBackend x.1).acquires).slots := by
  rcases cplAcquireStmt_cases (b.connection.arrays (cplOdbcBackend x.1).acquires).slots with
    ⟨l₁, stmt, l₂, hl, he⟩ | ⟨-, he⟩
  · rw [statementOf, he] at hy
    rw [hl, ← hy]
    simp
  · rw [statementOf, he] at hy
    cases hy

/-- The statement that a call holds is NULL or one of the pool. -/
def Fits (b : Backend) (pool : Pool) (stmt : Option Handle) : Prop :=
  ∀ y, stmt = some y →
    y.pool = pool ∧ y.generation = b.connection.opened ∧ y.index < cplStmtMax

variable (prepared) in
/-- Without a reconnect, and with the synchronisation of the pool initialised, an event uses only
what is there, and the backend stays as it is. -/
theorem Steady.event (h : Steady b s) {pool : Pool} {stmt : Option Handle}
    (hfits : Fits b pool stmt) (hpool : pool ∈ synchronised) {e : Event}
    (he : Plain e ∨ e = .acquire pool stmt ∨ e = .release pool stmt) :
    (Proper within s (eventSteps prepared stmt b e) ∧
      after s (eventSteps prepared stmt b e) = s) ∧ Steady (perform b e) s := by
  have hmem : ∀ {r}, r ∈ present b.environments b.connection.opened → within r = none →
      Alive within s r := by
    intro r hr hw
    refine ⟨h.resources ▸ hr, fun o ho => ?_⟩
    rw [hw] at ho
    cases ho
  have hbackend : Alive within s .backend := hmem trivial rfl
  have hsemaphore : Alive within s (.semaphore pool) := hmem hpool rfl
  have hlock : Alive within s (.lock pool) := hmem hpool rfl
  have harray : Alive within s (.array (b.connection.arrays pool).generation pool) :=
    hmem (h.arrays pool) rfl
  rcases he with he | rfl | rfl
  · have hsame : perform b e = b := by
      cases e with
      | acquire | release | reconnect => exact he.elim
      | _ => rfl
    refine ⟨uses_proper fun x hx => ?_, by rwa [hsame]⟩
    have hstmt : x ∈ (stmt.map fun y => Step.used (.statement y)).toList := by
      cases e with
      | acquire | release | reconnect => exact he.elim
      | call | execute => exact hx
      | allocate | callback => cases hx
    obtain ⟨y, hy, rfl⟩ := Option.map_eq_some_iff.mp (Option.mem_toList.mp hstmt)
    refine ⟨_, rfl, h.resources ▸ (hfits y hy).2, fun o ho => ?_⟩
    cases ho
    exact h.resources ▸ (hfits y hy).2.1
  · refine ⟨uses_proper (by simp [eventSteps, hbackend, hsemaphore, hlock, harray]), ?_⟩
    refine h.setSlots fun x hx => ?_
    have hold := Reconnect.mem_cplAcquireStmt hx
    exact ⟨h.own pool x hold, h.slots pool x hold⟩
  · refine ⟨uses_proper (by simp [eventSteps, hbackend, hsemaphore, hlock, harray]), ?_⟩
    refine h.setSlots fun x hx => ?_
    rcases Reconnect.mem_cplReleaseStmt hx with hold | hx
    · exact ⟨h.own pool x hold, h.slots pool x hold⟩
    · exact hfits x hx

theorem Steady.opened_eq {b' : Backend} (h : Steady b s) (h' : Steady b' s) :
    b'.connection.opened = b.connection.opened := by
  have hlink : Resource.link b'.connection.opened ∈
      present b.environments b.connection.opened := by
    rw [← h.resources, h'.resources]
    exact rfl
  exact hlink

section Course

variable (prepared) (stmt : Option Handle) (b s) (t : List Event)

def stepsOf : Steps := emitted perform (eventSteps prepared stmt) b t

/-- No reconnect has been tried, and the backend is as it was. -/
structure Intact : Prop where
  quiet : ∀ o, .reconnect o ∉ t
  proper : Proper within s (stepsOf prepared b stmt t)
  after : after s (stepsOf prepared b stmt t) = s
  steady : Steady (runTrace perform b t) s

/-- Something has gone wrong, or will with the next use of an array. -/
def Lost : Prop :=
  ¬ Proper within s (stepsOf prepared b stmt t) ∨
    Broken (runTrace perform b t) (after s (stepsOf prepared b stmt t))

end Course

variable {stmt : Option Handle} {t : List Event}

theorem stepsOf_append (e : Event) : stepsOf prepared b stmt (t ++ [e]) =
    stepsOf prepared b stmt t ++ eventSteps prepared stmt (runTrace perform b t) e := by
  rw [stepsOf, emitted_append, emitted, emitted, List.append_nil, ← stepsOf]

theorem Lost.append (h : Lost prepared b s stmt t) (e : Event) :
    Lost prepared b s stmt (t ++ [e]) := by
  rw [Lost, stepsOf_append, runTrace_append, after_append, proper_append]
  rcases h with h | h
  · exact Or.inl fun hp => h hp.1
  · exact (h.event e).imp_left fun h hp => h hp.2

theorem Intact.append (h : Intact prepared b s stmt t) {pool : Pool}
    (hfits : Fits (runTrace perform b t) pool stmt) (hpool : pool ∈ synchronised) {e : Event}
    (he : Plain e ∨ e = .acquire pool stmt ∨ e = .release pool stmt) :
    Intact prepared b s stmt (t ++ [e]) := by
  obtain ⟨⟨hp, ha⟩, hs⟩ := h.steady.event prepared hfits hpool he
  refine ⟨fun o ho => ?_, ?_, ?_, by rwa [runTrace_append]⟩
  · rcases List.mem_append.mp ho with ho | ho
    · exact h.quiet o ho
    · rw [List.mem_singleton] at ho
      subst ho
      rcases he with he | he | he
      · exact he
      · cases he
      · cases he
  · rw [stepsOf_append, proper_append, h.after]
    exact ⟨h.proper, hp⟩
  · rw [stepsOf_append, after_append, h.after, ha]

theorem backend_params (c : BackendCall) : 0 < (cplOdbcBackend c).params := by
  cases c with
  | getObjectProperties nsPrefix key | getRelationProperties nsPrefix key =>
    by_cases h : nsPrefix ≠ none ∧ key ≠ none
    · simp [cplOdbcBackend, cplOdbcGetObjectProperties, cplOdbcGetRelationProperties, h]
    · simp [cplOdbcBackend, cplOdbcGetObjectProperties, cplOdbcGetRelationProperties, if_neg h]
  | getPrefixes nsPrefix =>
    by_cases h : nsPrefix ≠ none
    · simp [cplOdbcBackend, cplOdbcGetPrefixes, h]
    · simp [cplOdbcBackend, cplOdbcGetPrefixes, if_neg h]
  | lookupObject | lookupObjectExt | getAllObjects => exact Nat.add_pos_left (by decide) _
  | _ => exact Nat.succ_pos _

variable (prepared) in
theorem Steady.course (h : Steady b s) (x : OdbcCall)
    (hpool : (cplOdbcBackend x.1).acquires ∈ synchronised) :
    Intact prepared b s (statementOf b x) (eventsOf b x) ∨
      (∃ o, .reconnect o ∈ eventsOf b x) ∧ Lost prepared b s (statementOf b x) (eventsOf b x) := by
  have hfits : ∀ {t}, Intact prepared b s (statementOf b x) t →
      Fits (runTrace perform b t) (cplOdbcBackend x.1).acquires (statementOf b x) := by
    intro t ht y hy
    have hmem := statementOf_mem hy
    rw [h.opened_eq ht.steady]
    exact ⟨h.own _ y hmem, h.slots _ y hmem⟩
  have hlost : ∀ {t} (e : Event), (∃ o, Event.reconnect o ∈ t) →
      ∃ o, Event.reconnect o ∈ t ++ [e] := fun e ⟨o, ho⟩ => ⟨o, List.mem_append_left _ ho⟩
  have hgo : ∀ {t} {e : Event}, Plain e ∨ e = .acquire (cplOdbcBackend x.1).acquires
      (statementOf b x) ∨ e = .release (cplOdbcBackend x.1).acquires (statementOf b x) →
      (Intact prepared b s (statementOf b x) t ∨
        (∃ o, .reconnect o ∈ t) ∧ Lost prepared b s (statementOf b x) t) →
      Intact prepared b s (statementOf b x) (t ++ [e]) ∨
        (∃ o, .reconnect o ∈ t ++ [e]) ∧ Lost prepared b s (statementOf b x) (t ++ [e]) := by
    intro t e he ht
    rcases ht with ht | ⟨ho, ht⟩
    · exact Or.inl (ht.append (hfits ht) hpool he)
    · exact Or.inr ⟨hlost e ho, ht.append e⟩
  refine PathShape.path_kept (I := fun t => Intact prepared b s (statementOf b x) t ∨
    (∃ o, .reconnect o ∈ t) ∧ Lost prepared b s (statementOf b x) t) ⟨?_, ?_, ?_, ?_, ?_⟩
    (backend_params x.1) (Or.inl ⟨by simp, trivial, rfl, h⟩)
  · exact fun t e he => hgo (Or.inl he)
  · exact fun t => hgo (Or.inr (Or.inl rfl))
  · rw [backend_releases]
    exact fun t => hgo (Or.inr (Or.inr rfl))
  · rintro t o - ho ht
    refine Or.inr ⟨⟨o, by simp⟩, ?_⟩
    rcases ht with ht | ⟨-, ht⟩
    · right
      rw [stepsOf_append, runTrace_append, after_append]
      exact failed_broken ho
    · exact ht.append _
  · rintro t ret hmay ht
    refine Or.inr ⟨⟨.connected, by simp⟩, ?_⟩
    rcases ht with ht | ⟨-, ht⟩
    · left
      obtain ⟨y, hy⟩ := mayReconnect_some hmay
      rw [stepsOf_append, stepsOf_append, List.append_assoc, proper_append, runTrace_append]
      have hold := (hfits ht y hy).2.1
      rw [hy]
      exact fun hp => resumed_not_proper prepared _ .connected hold ret .bindParameter hp.2
    · exact (ht.append _).append _

/-- The call is none of a prefix by its key, and does not try to reconnect. -/
structure Quiet (b : Backend) (x : OdbcCall) : Prop where
  synchronised : (cplOdbcBackend x.1).acquires ≠ .getPrefixesWithKey
  keeps : ∀ o, .reconnect o ∉ eventsOf b x

/-- A lookup by key waits on a semaphore that was never initialised. -/
theorem Steady.unsynchronised (h : Steady b s) {x : OdbcCall}
    (hx : (cplOdbcBackend x.1).acquires = .getPrefixesWithKey) :
    ¬ Proper within s (callSteps prepared b x) := by
  have hcall : ∃ nsPrefix, x.1 = .getPrefixes nsPrefix := by
    rcases x with ⟨c, p⟩
    cases c with
    | getPrefixes nsPrefix => exact ⟨nsPrefix, rfl⟩
    | lookupObject type | lookupObjectExt type | getAllObjects type =>
      by_cases ht : type = 0
      · simp [cplOdbcBackend, cplOdbcLookupObject, cplOdbcLookupObjectExt, cplOdbcGetAllObjects,
          ht] at hx
      · simp [cplOdbcBackend, cplOdbcLookupObject, cplOdbcLookupObjectExt, cplOdbcGetAllObjects,
          ht] at hx
    | getObjectRelations direction =>
      by_cases hd : direction = cplDAncestors
      · simp [cplOdbcBackend, cplOdbcGetObjectRelations, hd] at hx
      · simp [cplOdbcBackend, cplOdbcGetObjectRelations, hd] at hx
    | getObjectProperties nsPrefix key | getRelationProperties nsPrefix key =>
      by_cases hn : nsPrefix = none ∨ key = none
      · simp [cplOdbcBackend, cplOdbcGetObjectProperties, cplOdbcGetRelationProperties, hn] at hx
      · simp [cplOdbcBackend, cplOdbcGetObjectProperties, cplOdbcGetRelationProperties, hn] at hx
    | _ => cases hx
  obtain ⟨nsPrefix, hcall⟩ := hcall
  have hbody : (cplOdbcBackend x.1).body = .listing ⟨3, 2, true, true, false, .noData⟩ := by
    rw [hcall]
    rfl
  obtain ⟨rest, hpath⟩ := path_acquires (backend_params x.1) hbody rfl (statementOf b x)
    (answersTo (statementOf b x) x.2)
  intro hp
  rw [callSteps, eventsOf, hpath, emitted, proper_append, hx] at hp
  have hsemaphore : Resource.semaphore .getPrefixesWithKey ∈
      present b.environments b.connection.opened := h.resources ▸ hp.1.2.1.1
  exact absurd hsemaphore (by decide : Pool.getPrefixesWithKey ∉ synchronised)

/-- A quiet call leaves the backend as it is; any other does harm. -/
theorem Steady.call (h : Steady b s) (x : OdbcCall) :
    (Quiet b x ∧ Proper within s (callSteps prepared b x) ∧
      after s (callSteps prepared b x) = s ∧ Steady (afterCall b x) s) ∨
    (¬ Quiet b x ∧ (¬ Proper within s (callSteps prepared b x) ∨
      Broken (afterCall b x) (after s (callSteps prepared b x)))) := by
  by_cases hx : (cplOdbcBackend x.1).acquires = .getPrefixesWithKey
  · exact Or.inr ⟨fun hq => hq.synchronised hx, Or.inl (h.unsynchronised hx)⟩
  have hpool : (cplOdbcBackend x.1).acquires ∈ synchronised := by
    rcases List.mem_append.mp (mem_pools (cplOdbcBackend x.1).acquires) with hm | hm
    · exact hm
    · exact absurd (List.mem_singleton.mp hm) hx
  rcases h.course prepared x hpool with hi | ⟨⟨o, ho⟩, hl⟩
  · exact Or.inl ⟨⟨hx, hi.quiet⟩, hi.proper, hi.after, hi.steady⟩
  · exact Or.inr ⟨fun hq => hq.keeps o ho, hl⟩

theorem Broken.call (h : Broken b s) (x : OdbcCall) :
    ¬ Proper within s (callSteps prepared b x) ∨
      Broken (afterCall b x) (after s (callSteps prepared b x)) := by
  have main : ∀ t, Lost prepared b s (statementOf b x) t := by
    intro t
    induction t using List.reverseRecOn with
    | nil => exact Or.inr h
    | append_singleton t e ih => exact ih.append e
  exact main (eventsOf b x)

end Calls

section Runs

variable {prepared : ℕ → ℕ} {b : Backend} {s : Set Resource}

theorem Broken.run (h : Broken b s) (calls : List OdbcCall) :
    ¬ Proper within s (emitted afterCall (callSteps prepared) b calls ++
      cplOdbcDestroy (runTrace afterCall b calls)) := by
  induction calls generalizing b s with
  | nil =>
    rw [emitted, List.nil_append, runTrace_nil, cplOdbcDestroy, disconnectSteps, List.append_assoc]
    exact h.not_free _
  | cons x calls ih =>
    rw [emitted, List.append_assoc, proper_append, runTrace_cons]
    rintro ⟨hp, hrest⟩
    rcases h.call x with hx | hx
    · exact hx hp
    · exact ih hx hrest

variable (prepared) in
theorem Steady.run (h : Steady b s) (calls : List OdbcCall) :
    (Proper within s (emitted afterCall (callSteps prepared) b calls ++
        cplOdbcDestroy (runTrace afterCall b calls)) ↔
      EachStep afterCall Quiet b calls ∧ NoDuplicates (runTrace afterCall b calls).connection) ∧
    (EachStep afterCall Quiet b calls →
      Gone within (after s (emitted afterCall (callSteps prepared) b calls ++
        cplOdbcDestroy (runTrace afterCall b calls)))) := by
  induction calls generalizing b s with
  | nil => exact ⟨by simpa [emitted, EachStep] using h.destroy_iff, fun _ => h.gone⟩
  | cons x calls ih =>
    rw [emitted, List.append_assoc, proper_append, after_append, runTrace_cons, EachStep]
    rcases h.call x with ⟨hq, hp, ha, hs⟩ | ⟨hq, hl⟩
    · obtain ⟨hiff, hgone⟩ := ih hs
      rw [ha, and_iff_right hp, and_iff_right hq]
      exact ⟨hiff, hgone⟩
    · refine ⟨iff_of_false ?_ fun hc => hq hc.1.1, fun hc => absurd hc.1 hq⟩
      rintro ⟨hp, hrest⟩
      rcases hl with hl | hl
      · exact hl hp
      · exact hl.run calls hrest

end Runs

section Creation

variable {s : Set Resource} {r : Resource} {g : ℕ} {pool : Pool}

theorem opened_allocStmt : .opened r ∈ allocStmtSteps g pool ↔
    r = .array g pool ∨ ∃ i < cplStmtMax, r = .statement ⟨g, pool, i⟩ := by
  simp [allocStmtSteps]

theorem not_closed_allocStmt : .closed r ∉ allocStmtSteps g pool := by simp [allocStmtSteps]

theorem allocStmt_proper (hlink : .link g ∈ s) (harray : .array g pool ∉ s)
    (hstatements : ∀ i, .statement ⟨g, pool, i⟩ ∉ s) :
    Proper within s (allocStmtSteps g pool) := by
  rw [allocStmtSteps, proper_cons]
  refine ⟨⟨harray, fun o ho => by cases ho⟩, opening_proper (by simp) ?_ ?_ ?_⟩
  · intro r hr
    obtain ⟨-, hr⟩ : (∃ i, i < cplStmtMax) ∧ (r = .link g ∨ r = .array g pool) := by
      simpa [or_comm] using hr
    rcases hr with rfl | rfl
    · exact ⟨Or.inr hlink, fun o ho => by cases ho⟩
    · exact ⟨Or.inl rfl, fun o ho => by cases ho⟩
  · intro r hr
    obtain ⟨i, -, rfl⟩ : ∃ i < cplStmtMax, r = .statement ⟨g, pool, i⟩ := by simpa using hr
    refine ⟨?_, fun o ho => ?_⟩
    · rintro (he | hm)
      · cases he
      · exact hstatements i hm
    · cases ho
      exact Or.inr hlink
  · simp [opens, cplStmtMax, List.range_succ]

theorem allocate_proper (hlink : .link g ∈ s) (harrays : ∀ pool, .array g pool ∉ s)
    (hstatements : ∀ pool i, .statement ⟨g, pool, i⟩ ∉ s) :
    Proper within s (pools.flatMap (allocStmtSteps g)) := by
  refine (loop_proper_iff (C := fun _ => True) fun done pool rest hdone => ?_).mpr
    fun _ _ => trivial
  have hfresh : pool ∉ done := by
    have hnodup := hdone ▸ pools_nodup
    rw [List.nodup_append] at hnodup
    exact fun hm => hnodup.2.2 pool hm pool List.mem_cons_self rfl
  have hopened : ∀ {r}, .opened r ∈ done.flatMap (allocStmtSteps g) →
      ∃ q, q ≠ pool ∧ (r = .array g q ∨ ∃ i < cplStmtMax, r = .statement ⟨g, q, i⟩) := by
    intro r hr
    obtain ⟨q, hq, hr⟩ := List.mem_flatMap.mp hr
    exact ⟨q, fun hqp => hfresh (hqp ▸ hq), opened_allocStmt.mp hr⟩
  rw [after_opening fun r => by simp [not_closed_allocStmt]]
  refine iff_true_intro (allocStmt_proper (Or.inl hlink) ?_ ?_)
  · rintro (hm | hm)
    · exact harrays pool hm
    · obtain ⟨q, hq, he | ⟨i, -, he⟩⟩ := hopened hm
      · exact hq (Resource.array.inj he).2.symm
      · cases he
  · rintro i (hm | hm)
    · exact hstatements pool i hm
    · obtain ⟨q, hq, he | ⟨j, -, he⟩⟩ := hopened hm
      · cases he
      · exact hq (congrArg Handle.pool (Resource.statement.inj he)).symm

theorem prepare_uses {n : ℕ} {x : Step Resource} (hx : x ∈ prepareSteps g n) :
    (∃ pool, x = .used (.array g pool)) ∨
      ∃ pool, ∃ i < cplStmtMax, x = .used (.statement ⟨g, pool, i⟩) := by
  obtain ⟨h, hh, hx⟩ := List.mem_flatMap.mp hx
  obtain ⟨pool, -, hh⟩ := List.mem_flatMap.mp (List.mem_of_mem_take hh)
  obtain ⟨i, hi, rfl⟩ := List.mem_map.mp hh
  simp only [List.mem_cons, List.not_mem_nil, or_false] at hx
  rcases hx with rfl | rfl
  · exact Or.inl ⟨pool, rfl⟩
  · exact Or.inr ⟨pool, i, List.mem_range.mp hi, rfl⟩

def initialised : Set Resource := {r | .opened r ∈ initSteps}

theorem mem_initialised : r ∈ initialised ↔
    r = .backend ∨ ∃ pool ∈ synchronised, r = .semaphore pool ∨ r = .lock pool := by
  simp only [initialised, initSteps, Set.mem_ofPred_eq, List.cons_append, List.mem_cons,
    List.mem_append, List.mem_map, Step.opened.injEq]
  constructor
  · rintro (rfl | ⟨pool, hp, rfl⟩ | ⟨pool, hp, rfl⟩)
    · exact Or.inl rfl
    · exact Or.inr ⟨pool, hp, Or.inl rfl⟩
    · exact Or.inr ⟨pool, hp, Or.inr rfl⟩
  · rintro (rfl | ⟨pool, hp, rfl | rfl⟩)
    · exact Or.inl rfl
    · exact Or.inr (Or.inl ⟨pool, hp, rfl⟩)
    · exact Or.inr (Or.inr ⟨pool, hp, rfl⟩)

theorem init_proper : Proper within ∅ initSteps ∧ after ∅ initSteps = initialised := by
  refine ⟨opening_proper (by simp [initSteps]) (by simp [initSteps]) (fun r hr => ?_)
    (by decide), ?_⟩
  · refine ⟨Set.notMem_empty r, fun o ho => ?_⟩
    rcases mem_initialised.mp hr with rfl | ⟨pool, -, rfl | rfl⟩ <;> cases ho
  · rw [after_opening (by simp [initSteps]), Set.empty_union]
    rfl

def firstAllocations : Steps :=
  [.opened (.environment 1), .used (.environment 1), .opened (.connection 1),
    .used (.connection 1)] ++ .opened (.link 1) :: pools.flatMap (allocStmtSteps 1)

theorem after_firstAllocations : after initialised firstAllocations = present 1 1 := by
  ext r
  rw [firstAllocations, after_opening (by simp [not_closed_allocStmt])]
  simp only [Set.mem_union, mem_initialised, Set.mem_ofPred_eq, List.mem_append, List.mem_cons,
    List.mem_flatMap, opened_allocStmt, mem_pools, true_and, Step.opened.injEq, reduceCtorEq,
    List.not_mem_nil, or_false, false_or]
  cases r with
  | statement h =>
    rcases h with ⟨generation, pool, i⟩
    simp [present, and_comm, eq_comm]
  | _ => simp [present]

theorem firstAllocations_proper : Proper within initialised firstAllocations := by
  rw [firstAllocations, proper_append]
  constructor
  · simp [Step.Allowed, Step.next, Alive, Housed, within, mem_initialised]
  · refine ⟨⟨?_, fun o ho => by cases ho⟩, allocate_proper (Or.inl rfl) ?_ ?_⟩
    · simp [Step.next, mem_initialised]
    · intro pool
      simp [Step.next, mem_initialised]
    · intro pool i
      simp [Step.next, mem_initialised]

/-- The first connect, up to the preparation of some of the statements. -/
theorem prepare_proper (count : ℕ) : Proper within (present 1 1) (prepareSteps 1 count) ∧
    after (present 1 1) (prepareSteps 1 count) = present 1 1 := by
  refine uses_proper fun x hx => ?_
  rcases prepare_uses hx with ⟨pool, rfl⟩ | ⟨pool, i, hi, rfl⟩
  · exact ⟨_, rfl, rfl, fun o ho => by cases ho⟩
  · refine ⟨_, rfl, ⟨rfl, hi⟩, fun o ho => ?_⟩
    cases ho
    rfl

theorem connecting_proper_iff (count : ℕ) (l : Steps) :
    (Proper within ∅ (initSteps ++ firstAllocations ++ prepareSteps 1 count ++ l) ↔
      Proper within (present 1 1) l) ∧
    after ∅ (initSteps ++ firstAllocations ++ prepareSteps 1 count ++ l) =
      after (present 1 1) l := by
  obtain ⟨hinit, hafter⟩ := init_proper
  obtain ⟨hp, ha⟩ := prepare_proper count
  simp only [proper_append, after_append, hafter, after_firstAllocations, ha]
  exact ⟨and_iff_right ⟨⟨hinit, firstAllocations_proper⟩, hp⟩, trivial⟩

theorem connect_steady {o : ConnectOutcome} (ho : o = .connected ∨ o = .notPrepared) :
    Steady (newBackend.connect o) (present 1 1) := by
  have harrays : ∀ pool, (newBackend.connect o).connection.arrays pool = allocStmt 1 pool := by
    rcases ho with rfl | rfl <;> exact fun _ => rfl
  have hopened : (newBackend.connect o).connection.opened = 1 := by
    rcases ho with rfl | rfl <;> rfl
  have henvironments : (newBackend.connect o).environments = 1 := by
    rcases ho with rfl | rfl <;> rfl
  have hslots : ∀ pool h, some h ∈ (allocStmt 1 pool).slots →
      h.pool = pool ∧ h.generation = 1 ∧ h.index < cplStmtMax := by
    intro pool h hm
    obtain ⟨i, hi, rfl⟩ : ∃ i < cplStmtMax, ⟨1, pool, i⟩ = h := by simpa [allocStmt] using hm
    exact ⟨rfl, rfl, hi⟩
  refine ⟨by rw [hopened, henvironments], fun pool => ?_, fun pool h hm => ?_, fun pool h hm => ?_⟩
  · rw [harrays, hopened]
    rfl
  · rw [harrays] at hm
    exact (hslots pool h hm).1
  · rw [harrays] at hm
    rw [hopened]
    exact (hslots pool h hm).2

theorem allocStmt_noDuplicates (g : ℕ) (pool : Pool) :
    (allocStmt g pool).slots.reduceOption.Nodup := by
  simp [allocStmt, cplStmtMax, List.range_succ]

/-- A constructor that could not connect destroys what it has initialised. -/
theorem destroy_initialised : Proper within initialised destroySteps ∧
    Gone within (after initialised destroySteps) := by
  constructor
  · apply destroySteps_proper
    · exact mem_initialised.mpr (Or.inl rfl)
    · intro pool hp
      exact ⟨mem_initialised.mpr (Or.inr ⟨pool, hp, Or.inl rfl⟩),
        mem_initialised.mpr (Or.inr ⟨pool, hp, Or.inr rfl⟩)⟩
  · rintro r ⟨hr, -⟩
    rw [after_closing fun _ => not_opened_destroySteps] at hr
    exact hr.2 (closed_destroySteps.mpr (mem_initialised.mp hr.1))

def refusedSteps : Steps :=
  [.opened (.environment 1), .used (.environment 1), .opened (.connection 1),
    .used (.connection 1), .used (.connection 1), .closed (.connection 1),
    .closed (.environment 1)]

theorem refused_proper : Proper within initialised refusedSteps ∧
    after initialised refusedSteps = initialised := by
  have henvironment : .environment 1 ∉ initialised := by simp [mem_initialised]
  have hconnection : .connection 1 ∉ initialised := by simp [mem_initialised]
  constructor
  · simp [refusedSteps, Step.Allowed, Step.next, Alive, Housed, within, henvironment, hconnection]
  · ext r
    simp only [refusedSteps, after_cons, after_nil, Step.next, Set.mem_sdiff, Set.mem_insert_iff,
      Set.mem_singleton_iff]
    constructor
    · rintro ⟨⟨rfl | rfl | hr, hc⟩, he⟩
      · exact absurd rfl hc
      · exact absurd rfl he
      · exact hr
    · refine fun hr => ⟨⟨Or.inr (Or.inr hr), ?_⟩, ?_⟩
      · exact fun h => hconnection (h ▸ hr)
      · exact fun h => henvironment (h ▸ hr)

/-- From the constructor to the destructor the resources of a backend are used only while they are
there, and are freed once, exactly when no operation tries to reconnect, none looks a prefix up by
its key, and the destructor finds no statement twice in an array. Then nothing is left. -/
theorem lifetime_proper_iff (prepared : ℕ → ℕ) (o : ConnectOutcome) (calls : List OdbcCall) :
    (Proper within ∅ (lifetime prepared o calls) ↔ (o = .connected →
      EachStep afterCall Quiet (newBackend.connect o) calls ∧
        NoDuplicates (runTrace afterCall (newBackend.connect o) calls).connection)) ∧
    (Proper within ∅ (lifetime prepared o calls) →
      Gone within (after ∅ (lifetime prepared o calls))) := by
  obtain ⟨hinit, hafter⟩ := init_proper
  cases o with
  | connected =>
    have hsteps : lifetime prepared .connected calls = initSteps ++ firstAllocations ++
        prepareSteps 1 (preparedPools.length * cplStmtMax) ++
          (emitted afterCall (callSteps prepared) (newBackend.connect .connected) calls ++
            cplOdbcDestroy (runTrace afterCall (newBackend.connect .connected) calls)) := rfl
    obtain ⟨hiff, hend⟩ := connecting_proper_iff (preparedPools.length * cplStmtMax)
      (emitted afterCall (callSteps prepared) (newBackend.connect .connected) calls ++
        cplOdbcDestroy (runTrace afterCall (newBackend.connect .connected) calls))
    obtain ⟨hrun, hgone⟩ := (connect_steady (Or.inl rfl)).run prepared calls
    rw [hsteps, hiff, hend, hrun]
    exact ⟨⟨fun h _ => h, fun h => h rfl⟩, fun h => hgone h.1⟩
  | notPrepared =>
    have hsteps : lifetime prepared .notPrepared calls = initSteps ++ firstAllocations ++
        prepareSteps 1 (prepared 1 + 1) ++ cplOdbcDestroy (newBackend.connect .notPrepared) := by
      simp only [lifetime, connectSteps, cplOdbcDestroy, disconnectSteps, List.append_assoc]
      rfl
    have hsteady := connect_steady (Or.inr rfl)
    obtain ⟨hiff, hend⟩ := connecting_proper_iff (prepared 1 + 1)
      (cplOdbcDestroy (newBackend.connect .notPrepared))
    rw [hsteps, hiff, hend, hsteady.destroy_iff]
    refine ⟨iff_of_true (allocStmt_noDuplicates 1) (fun h => by cases h), fun _ => hsteady.gone⟩
  | refused =>
    have hsteps : lifetime prepared .refused calls =
        initSteps ++ (refusedSteps ++ destroySteps) := rfl
    obtain ⟨hrefused, hsame⟩ := refused_proper
    rw [hsteps, proper_append, after_append, hafter, proper_append, after_append, hsame]
    exact ⟨iff_of_true ⟨hinit, hrefused, destroy_initialised.1⟩ (fun h => by cases h),
      fun _ => destroy_initialised.2⟩
  | noMemory =>
    have hsteps : lifetime prepared .noMemory calls = initSteps ++ destroySteps := rfl
    rw [hsteps, proper_append, after_append, hafter]
    exact ⟨iff_of_true ⟨hinit, destroy_initialised.1⟩ (fun h => by cases h),
      fun _ => destroy_initialised.2⟩

end Creation

end BackendLifetime
