import ProvCpl.OperationPaths

/-! # Statements that are given back

On every path an operation holds one statement at most. It is given back with its cursor closed,
unless an allocation fails that the operation needs while it holds the statement: then the
cursor stays open, or the statement is not given back. -/
namespace StatementReturn

open CplTypes EarlyExit OdbcOperation Custody OperationPaths

/-- An execution that succeeds opens a cursor when the statement has a result. -/
def action : Event → Action (Pool × Option Handle)
  | .acquire pool stmt => .take (pool, stmt)
  | .release pool stmt => .give (pool, stmt)
  | .call .closeCursor _ => .closed
  | .execute true .success | .execute true .successWithInfo => .opened
  | .callback _ => .notify
  | _ => .other

/-- The path takes no statement and gives none back, or takes one and gives it back to its pool
once, without an open cursor and before the first callback. -/
def Clean (t : List Event) : Prop := GivenBack (t.map action)

/-- None of the allocations fails that leave the statement behind. -/
def Provided (t : List Event) : Prop := ∀ e ∈ t, ¬ e.Denies

def phase (t : List Event) : Phase (Pool × Option Handle) := phaseAfter (t.map action)

@[simp] theorem phase_append (t : List Event) (e : Event) :
    phase (t ++ [e]) = (phase t).next (action e) := by
  rw [phase, List.map_append, List.map_singleton, phaseAfter_append, phase]

@[simp] theorem provided_append (t : List Event) (e : Event) :
    Provided (t ++ [e]) ↔ Provided t ∧ ¬ e.Denies := by
  simp [Provided, or_imp, forall_and]

section Rules

variable {α : Type} {P : List Event → Prop} {E : Exit → List Event → Prop}

theorem triple_emit {Q : Unit → List Event → Prop} {e : Event}
    (h : ∀ t, P t → Q () (t ++ [e])) : Triple P (emit e) Q E :=
  triple_call h

theorem triple_answer {Q : α → List Event → Prop} {f : ℕ → α} (h : ∀ t a, P t → Q a t) :
    Triple P (answer f) Q E :=
  triple_call fun t ht => h t _ ht

theorem triple_jumpIf {Q : Unit → List Event → Prop} {c : Prop} [Decidable c] {label : Exit}
    (hc : ∀ t, c → P t → E label t) (hn : ∀ t, ¬ c → P t → Q () t) :
    Triple P (jumpIf c label) Q E := by
  apply triple_ite
  · intro h
    exact triple_leave fun t ht => hc t h ht
  · intro h
    exact triple_pure fun t ht => hn t h ht

theorem triple_onlyIf {Q : Unit → List Event → Prop} {c : Prop} [Decidable c] {m : Path Unit}
    (hc : c → Triple P m Q E) (hn : ∀ t, ¬ c → P t → Q () t) : Triple P (onlyIf c m) Q E := by
  apply triple_ite
  · exact hc
  · intro h
    exact triple_pure fun t ht => hn t h ht

end Rules

/-- The statement is held, and nothing has been denied. -/
structure Holds (k : Pool × Option Handle) (isOpen : Bool) (t : List Event) : Prop where
  phase : phase t = .held k isOpen
  provided : Provided t

structure Starved (k : Pool × Option Handle) (isOpen : Bool) (t : List Event) : Prop where
  phase : phase t = .held k isOpen
  denied : ¬ Provided t

def Throws (k : Pool × Option Handle) (e : Exit) (t : List Event) : Prop :=
  e = .threw ∧ ∃ o, Starved k o t

/-- A jump to the label, or an exception. -/
def Jumps (k : Pool × Option Handle) (label : Exit) (isOpen : Bool) (e : Exit) (t : List Event) :
    Prop :=
  e = label ∧ Holds k isOpen t ∨ Throws k e t

/-- Where an operation is when it leaves its body for a label. -/
inductive Left (k : Pool × Option Handle) : Exit → List Event → Prop where
  | err {t : List Event} (h : Holds k false t) : Left k .err t
  | errClose {o : Bool} {t : List Event} (h : Holds k o t) : Left k .errClose t
  | errR {t : List Event} (r : ReturnCode) (h : Holds k false t) : Left k (.errR r) t
  | starved {t : List Event} (r : ReturnCode) (h : Starved k true t) : Left k (.errR r) t
  | threw {o : Bool} {t : List Event} (h : Starved k o t) : Left k .threw t

section Specs

variable {k : Pool × Option Handle} {o : Bool} {t : List Event}

theorem Holds.append (h : Holds k o t) {e : Event} (ha : (action e).Quiet) (hd : ¬ e.Denies) :
    Holds k ((action e).opening o) (t ++ [e]) := by
  constructor
  · rw [phase_append, h.phase, next_held ha]
  · exact (provided_append t e).mpr ⟨h.provided, hd⟩

theorem other_quiet : (Action.other : Action (Pool × Option Handle)).Quiet := ⟨id, by simp⟩

variable (p : Answers)

/-- Only the allocations that leave the statement behind change what is provided. -/
theorem allocate_spec (a : Allocation) : Triple (Holds k o) (allocate p a)
    (fun granted t => phase t = .held k o ∧ (Provided t ↔ ¬ (Event.allocate a granted).Denies))
    (Throws k) := by
  refine triple_bind (Q := fun _ => Holds k o) (triple_answer fun t a h => h) fun granted => ?_
  refine triple_bind (triple_emit fun _ h => ?_) fun _ => triple_pure fun _ h => h
  constructor
  · rw [phase_append, h.phase]
    rfl
  · rw [provided_append]
    exact and_iff_right h.provided

theorem allocateOrThrow_spec {a : Allocation} (ha : (Event.allocate a false).Denies) :
    Triple (Holds k o) (allocateOrThrow p a) (fun _ => Holds k o) (Throws k) := by
  refine triple_bind (allocate_spec p a) fun granted => ?_
  apply triple_jumpIf
  · rintro t rfl ⟨hphase, hprovided⟩
    exact ⟨rfl, o, hphase, fun hp => hprovided.mp hp ha⟩
  · intro t hgranted ⟨hphase, hprovided⟩
    refine ⟨hphase, hprovided.mpr ?_⟩
    cases granted with
    | false => exact absurd rfl hgranted
    | true => cases a <;> exact id

theorem fetchOdbcError_spec : Triple (Holds k o) (fetchOdbcError p) (fun _ => Holds k o)
    (Throws k) := by
  refine triple_bind (Q := fun _ => Holds k o) (triple_answer fun t a h => h) fun states => ?_
  refine triple_bind (triple_forEach (I := fun _ => Holds k o) fun _ _ _ => ?_) fun _ =>
    triple_pure fun t h => h
  exact allocateOrThrow_spec p trivial

theorem printOdbcError_spec : Triple (Holds k o) (printOdbcError p) (fun _ => Holds k o)
    (Throws k) :=
  triple_bind (fetchOdbcError_spec p) fun _ => triple_pure fun _ h => h

theorem sqlCall_spec {E : Exit → List Event → Prop} {f : OdbcFunction} (hf : f ≠ .closeCursor) :
    Triple (Holds k o) (sqlCall p f) (fun _ => Holds k o) E := by
  refine triple_bind (Q := fun _ => Holds k o) (triple_answer fun t a h => h) fun ret => ?_
  refine triple_bind (triple_emit fun t h => ?_) fun _ => triple_pure fun t h => h
  have haction : action (.call f ret) = .other := by
    cases f with
    | closeCursor => exact absurd rfl hf
    | _ => rfl
  have hheld := h.append (e := .call f ret) (haction ▸ other_quiet) id
  rwa [haction] at hheld

theorem sqlClose_spec {E : Exit → List Event → Prop} :
    Triple (Holds k o) (sqlCall p .closeCursor) (fun _ => Holds k false) E := by
  refine triple_bind (Q := fun _ => Holds k o) (triple_answer fun t a h => h) fun ret => ?_
  refine triple_bind (triple_emit fun t h => ?_) fun _ => triple_pure fun t h => h
  exact h.append (e := .call .closeCursor ret) ⟨id, by simp [action]⟩ id

theorem sqlAssertNoError_spec (ret : SqlReturn) (label : Exit) :
    Triple (Holds k o) (sqlAssertNoError p ret label)
      (fun _ => Holds k o) (Jumps k label o) := by
  apply triple_onlyIf
  · intro _
    refine triple_bind (triple_exit (printOdbcError_spec p) fun e t h => Or.inr h) fun _ => ?_
    exact triple_leave fun t h => Or.inl ⟨rfl, h⟩
  · intro t _ h
    exact h

theorem closeCursor_spec : Triple (Holds k o) (closeCursor p) (fun _ => Holds k false)
    (Throws k) := by
  refine triple_bind (sqlClose_spec p) fun ret => ?_
  apply triple_onlyIf
  · intro _
    exact printOdbcError_spec p
  · intro t _ h
    exact h

theorem reconnect_spec : Triple (Holds k o) (reconnect p) (fun _ => Holds k o) (Throws k) := by
  refine triple_bind (Q := fun _ => Holds k o) (triple_answer fun t a h => h) fun outcome => ?_
  refine triple_bind (Q := fun _ => Holds k o) (triple_emit fun t h => ?_) fun _ => ?_
  · exact h.append (e := .reconnect outcome) other_quiet id
  · cases outcome with
    | connected => exact triple_pure fun t h => h
    | noMemory => exact triple_pure fun t h => h
    | refused => exact triple_bind (printOdbcError_spec p) fun _ => triple_pure fun t h => h
    | notPrepared => exact triple_bind (printOdbcError_spec p) fun _ => triple_pure fun t h => h

theorem sqlExecute_spec (b : Bool) {retry : Option (Path Unit)}
    (h : ∀ m, retry = some m → Triple (Holds k false) m (fun _ => Holds k b)
      (Jumps k .err false)) :
    Triple (Holds k false) (sqlExecute p b retry) (fun _ => Holds k b) (Jumps k .err false) := by
  refine triple_bind (Q := fun _ => Holds k false) (triple_answer fun t a h => h) fun ret => ?_
  refine triple_bind (Q := fun _ => Holds k (decide ret.Succeeded && b))
    (triple_emit fun t ht => ?_) fun _ => ?_
  · have hquiet : (action (.execute b ret)).Quiet := by
      cases b <;> cases ret <;> exact ⟨id, by simp [action]⟩
    have hopen : (action (.execute b ret)).opening false = (decide ret.Succeeded && b) := by
      cases b <;> cases ret <;> rfl
    rw [← hopen]
    exact ht.append hquiet id
  · apply triple_onlyIf
    · intro hret
      rw [decide_eq_false hret, Bool.false_and]
      refine triple_bind (triple_exit (fetchOdbcError_spec p) fun e t he => Or.inr he)
        fun states => ?_
      have hleave : Triple (Holds k false) (leave .err) (fun _ : Unit => Holds k b)
          (Jumps k .err false) := triple_leave fun t ht => Or.inl ⟨rfl, ht⟩
      cases retry with
      | none => exact hleave
      | some m =>
        cases shouldReconnectDueToOdbcError states with
        | false => exact hleave
        | true =>
          refine triple_bind (triple_exit (reconnect_spec p) fun e t he => Or.inr he) fun r => ?_
          exact triple_ite (fun _ => h m rfl) fun _ => hleave
    · intro t hret ht
      rwa [decide_eq_true (not_not.mp hret), Bool.true_and] at ht

theorem bindParameters_spec (params : ℕ) :
    Triple (Holds k false) (bindParameters p params) (fun _ => Holds k false)
      (Jumps k .err false) := by
  refine triple_forEach (I := fun _ => Holds k false) fun _ _ _ => ?_
  exact triple_bind (sqlCall_spec p (by decide)) fun ret => sqlAssertNoError_spec p ret .err

theorem fromRetry_spec (params : ℕ) (b : Bool) (left : ℕ) :
    Triple (Holds k false) (fromRetry p params b left) (fun _ => Holds k b)
      (Jumps k .err false) := by
  induction left with
  | zero =>
    refine triple_bind (bindParameters_spec p params) fun _ => sqlExecute_spec p b ?_
    intro m hm
    cases hm
  | succ left ih =>
    refine triple_bind (bindParameters_spec p params) fun _ => sqlExecute_spec p b ?_
    intro m hm
    cases hm
    exact ih

def AtLabel (k : Pool × Option Handle) (e : Exit) (t : List Event) : Prop :=
  (e = .err ∨ e = .errNf) ∧ (∃ o, Holds k o t) ∨ e = .errNull ∧ Holds k true t ∨ Throws k e t

theorem fetchValue_spec (fetch closeIfOk : Bool) :
    Triple (Holds k true) (fetchValue p fetch closeIfOk)
      (fun r t => r = .ok ∧ Holds k (!closeIfOk) t) (AtLabel k) := by
  have hjump : ∀ {o e t}, Jumps k .err o e t → AtLabel k e t := by
    intro o e t h
    rcases h with ⟨he, ht⟩ | he
    · exact Or.inl ⟨Or.inl he, o, ht⟩
    · exact Or.inr (Or.inr he)
  have hassert : ∀ ret, Triple (Holds k true) (sqlAssertNoError p ret .err)
      (fun _ => Holds k true) (AtLabel k) := by
    intro ret
    exact triple_exit (sqlAssertNoError_spec p ret .err) fun e t h => hjump h
  have hnull : ∀ (c : Prop) [Decidable c], Triple (Holds k true) (jumpIf c .errNull)
      (fun _ => Holds k true) (AtLabel k) := by
    intro c _
    exact triple_jumpIf (fun t _ h => Or.inr (Or.inl ⟨rfl, h⟩)) fun t _ h => h
  refine triple_bind (Q := fun _ => Holds k true) ?_ fun _ => ?_
  · refine triple_onlyIf (fun _ => ?_) fun t _ h => h
    refine triple_bind (sqlCall_spec p (by decide)) fun ret => ?_
    refine triple_bind (Q := fun _ => Holds k true) ?_ fun _ => hassert ret
    exact triple_jumpIf (fun t _ h => Or.inl ⟨Or.inr rfl, true, h⟩) fun t _ h => h
  refine triple_bind (sqlCall_spec p (by decide)) fun ret => ?_
  refine triple_bind (hnull _) fun _ => triple_bind (hassert ret) fun _ => ?_
  refine triple_bind (Q := fun _ => Holds k true) (triple_answer fun t a h => h) fun cb => ?_
  refine triple_bind (hnull _) fun _ => ?_
  refine triple_bind (Q := fun _ => Holds k (!closeIfOk)) ?_ fun _ =>
    triple_pure fun t h => ⟨rfl, h⟩
  cases closeIfOk with
  | false => exact triple_pure fun t h => h
  | true =>
    refine triple_bind (sqlClose_spec p) fun ret => ?_
    exact triple_exit (sqlAssertNoError_spec p ret .err) fun e t h => hjump h

/-- The codes of the helper, and whether the cursor is open with them. -/
inductive Fetched (k : Pool × Option Handle) (isOpen handleNulls : Bool) (r : ReturnCode)
    (t : List Event) : Prop where
  | ok (hr : r = .ok) (h : Holds k isOpen t)
  | null (hr : r = .dbNull) (hn : handleNulls = true) (h : Holds k true t)
  | failed (hr : ¬ r.IsOk) (hn : r ≠ .dbNull) (h : Holds k false t)

theorem cplSqlFetchSingleValue_spec (fetch closeIfOk handleNulls : Bool) :
    Triple (Holds k true) (cplSqlFetchSingleValue p fetch closeIfOk handleNulls)
      (Fetched k (!closeIfOk) handleNulls) (Throws k) := by
  refine triple_rescue (triple_conseq (fetchValue_spec p fetch closeIfOk) (fun t h => h)
    (fun r t h => .ok h.1 h.2) fun e t h => h) fun e => ?_
  have hclosed : ∀ {o} {r : ReturnCode}, ¬ r.IsOk → r ≠ .dbNull → Triple (Holds k o)
      (closeCursor p >>= fun _ => pure r) (Fetched k (!closeIfOk) handleNulls) (Throws k) := by
    intro o r hr hn
    exact triple_bind (closeCursor_spec p) fun _ => triple_pure fun t h => .failed hr hn h
  intro t h
  cases e with
  | err =>
    have hheld : ∃ o, Holds k o t := by simpa [AtLabel, Throws] using h
    obtain ⟨o, ho⟩ := hheld
    exact hclosed (by decide) (by decide) t ho
  | errNf =>
    have hheld : ∃ o, Holds k o t := by simpa [AtLabel, Throws] using h
    obtain ⟨o, ho⟩ := hheld
    exact hclosed (by decide) (by decide) t ho
  | errNull =>
    have hheld : Holds k true t := by simpa [AtLabel, Throws] using h
    cases handleNulls with
    | false => exact hclosed (by decide) (by decide) t hheld
    | true => exact .null rfl rfl hheld
  | threw =>
    have ht : Throws k .threw t := by simpa [AtLabel] using h
    exact ht
  | errClose => simp [AtLabel, Throws] at h
  | errR r => simp [AtLabel, Throws] at h
  | ret r => simp [AtLabel, Throws] at h

/-- Without its buffer a string is not fetched, and the cursor stays open. -/
def ColumnFetched (k : Pool × Option Handle) (handleNulls : Bool) (r : ReturnCode)
    (t : List Event) : Prop :=
  Fetched k true handleNulls r t ∨ r = .insufficientResources ∧ Starved k true t

theorem fetchColumn_spec (c : InfoColumn) :
    Triple (Holds k true) (fetchColumn p c) (ColumnFetched k c.handleNulls) (Throws k) := by
  have hvalue : Triple (Holds k true)
      (cplSqlFetchSingleValue p (c.number == 1) false c.handleNulls)
      (ColumnFetched k c.handleNulls) (Throws k) :=
    triple_conseq (cplSqlFetchSingleValue_spec p _ false _) (fun t h => h)
      (fun r t h => Or.inl h) fun e t h => h
  refine triple_ite (fun _ => ?_) fun _ => hvalue
  refine triple_bind (allocate_spec p .buffer) fun str => ?_
  cases str with
  | true =>
    intro t ⟨hphase, hprovided⟩
    exact hvalue t ⟨hphase, hprovided.mpr id⟩
  | false =>
    refine triple_pure fun t ⟨hphase, hprovided⟩ => Or.inr ⟨rfl, hphase, ?_⟩
    intro hp
    exact hprovided.mp hp trivial

theorem Throws.left {e : Exit} (h : Throws k e t) : Left k e t := by
  obtain ⟨rfl, o, ht⟩ := h
  exact .threw ht

theorem Jumps.left {e : Exit} (h : Jumps k .err false e t) : Left k e t := by
  rcases h with ⟨rfl, ht⟩ | h
  · exact .err ht
  · exact h.left

theorem cplSqlSimpleFetchExt_spec (c : InfoColumn) :
    Triple (Holds k true) (cplSqlSimpleFetchExt p c) (fun _ => Holds k true) (Left k) := by
  refine triple_bind (triple_exit (fetchColumn_spec p c) fun e t h => h.left) fun r => ?_
  refine triple_bind (Q := fun _ => Holds k true) ?_ fun _ => ?_
  · apply triple_jumpIf
    · intro t ⟨hn, hr⟩ h
      rcases h with (⟨rfl, -⟩ | ⟨hnull, -, -⟩ | ⟨-, -, ht⟩) | ⟨-, ht⟩
      · exact absurd isOk_ok hr
      · exact absurd hnull hn
      · exact .errR r ht
      · exact .starved r ht
    · intro t hjump h
      rcases h with (⟨-, ht⟩ | ⟨-, -, ht⟩ | ⟨hr, hn, -⟩) | ⟨rfl, -⟩
      · exact ht
      · exact ht
      · exact absurd ⟨hn, hr⟩ hjump
      · exact absurd ⟨by decide, by decide⟩ hjump
  · refine triple_onlyIf (fun _ => ?_) fun t _ h => h
    refine triple_bind (triple_exit (allocate_spec p .copy) fun e t h => h.left) fun copy =>
      triple_pure fun t ⟨hphase, hprovided⟩ => ⟨hphase, ?_⟩
    exact hprovided.mpr (by cases copy <;> exact id)

theorem close_spec : Triple (Holds k true) (do
    let ret ← sqlCall p .closeCursor
    sqlAssertNoError p ret .err) (fun _ => Holds k false) (Left k) := by
  refine triple_bind (sqlClose_spec p) fun ret => ?_
  exact triple_exit (sqlAssertNoError_spec p ret .err) fun e t h => h.left

theorem readInfo_spec (columns : List InfoColumn) :
    Triple (Holds k true) (readInfo p columns) (fun _ => Holds k false) (Left k) :=
  triple_bind (triple_forEach (I := fun _ => Holds k true) fun _ c _ =>
    cplSqlSimpleFetchExt_spec p c) fun _ => close_spec p

theorem fetchRow_spec (l : Listing) (entries : ℕ) (isNull : Bool) :
    Triple (Holds k true) (fetchRow p l entries isNull) (fun _ => Holds k true) (Left k) := by
  refine triple_bind (Q := fun _ => Holds k true) (triple_emit fun t h => ?_) fun _ => ?_
  · exact h.append (e := .call .fetch .success) other_quiet id
  · refine triple_ite (fun _ => triple_pure fun t h => h) fun _ => ?_
    refine triple_bind (triple_forEach (I := fun _ => Holds k true) fun _ _ _ => ?_) fun _ =>
      triple_pure fun t h => h
    exact triple_exit (allocateOrThrow_spec p (a := .entry) trivial) fun e t h => h.left

theorem readRows_spec (l : Listing) :
    Triple (Holds k true) (readRows p l) (fun _ => Holds k false) (Left k) := by
  have hbind : Triple (Holds k true) (bindColumns p l) (fun _ => Holds k true) (Left k) := by
    refine triple_forEach (I := fun _ => Holds k true) fun _ _ _ => ?_
    refine triple_bind (sqlCall_spec p (by decide)) fun ret => ?_
    exact triple_jumpIf (fun t _ h => .errClose h) fun t _ h => h
  have hend : Triple (Holds k true) (fetchEnd p l) (fun _ => Holds k true) (Left k) := by
    refine triple_bind (Q := fun _ => Holds k true) (triple_emit fun t h => ?_) fun _ => ?_
    · exact h.append (e := .call .fetch p.lastFetch.ret) other_quiet id
    refine triple_bind (Q := fun _ => Holds k true) ?_ fun _ =>
      triple_jumpIf (fun t _ h => .errClose h) fun t _ h => h
    refine triple_onlyIf (fun _ => ?_) fun t _ h => h
    exact triple_exit (printOdbcError_spec p) fun e t h => h.left
  refine triple_bind hbind fun _ => ?_
  refine triple_bind (triple_fold (I := fun _ _ => Holds k true) fun _ isNull entries _ =>
    fetchRow_spec p l entries isNull) fun entries => ?_
  refine triple_bind hend fun _ => triple_bind (sqlClose_spec p) fun ret => ?_
  refine triple_bind (triple_exit (sqlAssertNoError_spec p ret .err) fun e t h => h.left)
    fun _ => triple_pure fun t h => h

end Specs

def Ended (t : List Event) : Prop := (phase t).Final ↔ Provided t

structure Settled (t : List Event) : Prop where
  phase : phase t = .settled
  provided : Provided t

section Runs

variable {k : Pool × Option Handle} {o : Bool} {t : List Event}

theorem Settled.ended (h : Settled t) : Ended t :=
  iff_of_true (Or.inr h.phase) h.provided

theorem Starved.ended (h : Starved k o t) : Ended t := by
  apply iff_of_false
  · rw [h.phase]
    simp [Phase.Final]
  · exact h.denied

theorem Holds.release {q : Pool} {stmt : Option Handle} (h : Holds (q, stmt) false t) :
    Settled (t ++ [.release q stmt]) := by
  constructor
  · rw [phase_append, h.phase]
    simp [action, Phase.next]
  · exact (provided_append t _).mpr ⟨h.provided, id⟩

/-- A statement that is given back with its cursor open is not given back clean. -/
theorem Starved.release {q : Pool} {stmt : Option Handle} (h : Starved (q, stmt) true t) :
    Ended (t ++ [.release q stmt]) := by
  apply iff_of_false
  · rw [phase_append, h.phase]
    simp [action, Phase.next, Phase.Final]
  · intro hp
    exact h.denied ((provided_append t _).mp hp).1

variable {q : Procedure} {stmt : Option Handle} (p : Answers)

theorem labels_spec {α : Type} (hq : q.releases = q.acquires) (e : Exit) :
    Triple (Left (q.acquires, stmt) e) (q.labels stmt p e) (fun (_ : α) _ => False)
      (fun _ => Ended) := by
  have hrelease : ∀ r, Triple (Holds (q.acquires, stmt) false)
      (emit (.release q.releases stmt) >>= fun _ => leave (.ret r)) (fun (_ : α) _ => False)
      (fun _ => Ended) := by
    intro r
    rw [hq]
    exact triple_bind (Q := fun _ => Settled) (triple_emit fun t h => h.release) fun _ =>
      triple_leave fun t h => h.ended
  intro t h
  cases h with
  | err h => exact hrelease .statementError t h
  | errClose h =>
    refine triple_bind (triple_exit (closeCursor_spec p) fun e t h => ?_)
      (fun _ => hrelease .statementError) t h
    obtain ⟨-, o, ht⟩ := h
    exact ht.ended
  | errR r h => exact hrelease r t h
  | starved r h =>
    have hended : Ended (t ++ [.release q.releases stmt]) := by
      rw [hq]
      exact h.release
    exact hended
  | threw h => exact h.ended

structure Untouched (t : List Event) : Prop where
  phase : phase t = .free
  provided : Provided t

theorem withStatement_spec {α : Type} {body : Path α} (hq : q.releases = q.acquires)
    (hbody : Triple (Holds (q.acquires, stmt) (hasResult q.acquires)) body
      (fun _ => Holds (q.acquires, stmt) false) (Left (q.acquires, stmt))) :
    Triple Untouched (q.withStatement stmt p body) (fun _ => Settled) (fun _ => Ended) := by
  refine triple_bind (Q := fun _ => Holds (q.acquires, stmt) false)
    (triple_emit fun t h => ?_) fun _ => ?_
  · constructor
    · rw [phase_append, h.phase]
      rfl
    · exact (provided_append t _).mpr ⟨h.provided, id⟩
  refine triple_bind (Q := fun _ => Holds (q.acquires, stmt) false) (triple_rescue
    (triple_bind (triple_exit (fromRetry_spec p q.params (hasResult q.acquires) 3)
      fun e t h => h.left) fun _ => hbody)
    fun e => triple_conseq (labels_spec p hq e) (fun t h => h) (fun _ t h => h.elim)
      fun e t h => h) fun a => ?_
  refine triple_bind (Q := fun _ => Settled) (triple_emit fun t h => ?_) fun _ =>
    triple_pure fun t h => h
  rw [hq]
  exact h.release

theorem allocate_untouched {a : Allocation} (ha : ∀ granted, ¬ (Event.allocate a granted).Denies)
    {E : Exit → List Event → Prop} :
    Triple Untouched (allocate p a) (fun _ => Untouched) E := by
  refine triple_bind (Q := fun _ => Untouched) (triple_answer fun t a h => h) fun granted => ?_
  refine triple_bind (triple_emit fun t h => ⟨?_, ?_⟩) fun _ => triple_pure fun t h => h
  · rw [phase_append, h.phase]
    rfl
  · exact (provided_append t _).mpr ⟨h.provided, ha granted⟩

theorem Untouched.ended (h : Untouched t) : Ended t :=
  iff_of_true (Or.inl h.phase) h.provided

theorem callBack_spec (l : Listing) (entries : ℕ) :
    Triple Settled (callBack p l entries) (fun _ => Settled) (fun _ => Ended) := by
  refine triple_bind (Q := fun _ => Settled)
    (triple_jumpIf (fun t _ h => h.ended) fun t _ h => h) fun _ => ?_
  refine triple_bind (Q := fun _ => Settled) (triple_onlyIf (fun _ => ?_) fun t _ h => h)
    fun _ => triple_pure fun t h => h
  refine triple_forEach (I := fun _ => Settled) fun _ _ _ => ?_
  refine triple_bind (Q := fun _ => Settled) (triple_answer fun t a h => h) fun code => ?_
  refine triple_bind (Q := fun _ => Settled) (triple_emit fun t h => ⟨?_, ?_⟩) fun _ =>
    triple_jumpIf (fun t _ h => h.ended) fun t _ h => h
  · rw [phase_append, h.phase]
    rfl
  · exact (provided_append t _).mpr ⟨h.provided, id⟩

variable (stmt) in
theorem run_spec (hq : q.releases = q.acquires)
    (hresult : hasResult q.acquires = false ↔ q.body = .empty) :
    Triple Untouched (q.run stmt p) (fun _ => Ended) (fun _ => Ended) := by
  have hread : ∀ {α : Type} {body : Path α}, q.body ≠ .empty →
      Triple (Holds (q.acquires, stmt) true) body (fun _ => Holds (q.acquires, stmt) false)
        (Left (q.acquires, stmt)) →
      Triple Untouched (q.withStatement stmt p body) (fun _ => Settled) (fun _ => Ended) := by
    intro α body hne hbody
    apply withStatement_spec p hq
    rwa [Bool.of_not_eq_false fun h => hne (hresult.mp h)]
  have hsingle : Triple (Holds (q.acquires, stmt) true) (cplSqlFetchSingleValue p true true false)
      (fun _ => Holds (q.acquires, stmt) false) (Left (q.acquires, stmt)) := by
    refine triple_conseq (cplSqlFetchSingleValue_spec p true true false) (fun t h => h)
      (fun r t h => ?_) fun e t h => h.left
    cases h with
    | ok _ h => exact h
    | null _ hn _ => cases hn
    | failed _ _ h => exact h
  have hreturn : ∀ {r : ReturnCode}, Triple Settled (pure r : Path ReturnCode)
      (fun _ => Ended) (fun _ => Ended) := triple_pure fun t h => h.ended
  unfold Procedure.run
  cases hb : q.body with
  | empty =>
    refine triple_bind (withStatement_spec p hq (triple_pure fun t h => ?_)) fun _ => hreturn
    rwa [hresult.mpr hb] at h
  | single =>
    exact triple_conseq (hread (by simp [hb]) hsingle) (fun t h => h) (fun _ t h => h.ended)
      fun e t h => h
  | test => exact triple_bind (hread (by simp [hb]) hsingle) fun _ => hreturn
  | listing l =>
    refine triple_bind (Q := fun _ => Untouched) (triple_onlyIf (fun _ => ?_) fun t _ h => h)
      fun _ => triple_bind (hread (by simp [hb]) (readRows_spec p l)) fun entries => ?_
    · have hstack := fun E => allocate_untouched p (a := .stack) (fun _ => id) (E := E)
      refine triple_bind (hstack _) fun _ => triple_bind (hstack _) fun _ => ?_
      exact triple_jumpIf (fun t _ h => h.ended) fun t _ h => h
    · exact triple_conseq (callBack_spec p l entries) (fun t h => h) (fun _ t h => h.ended)
        fun e t h => h
  | info columns =>
    refine triple_bind (Q := fun _ => Untouched) ?_ fun _ =>
      triple_bind (hread (by simp [hb]) (readInfo_spec p columns)) fun _ => hreturn
    refine triple_bind (allocate_untouched p (a := .info) (fun _ => id)) fun info => ?_
    exact triple_jumpIf (fun t _ h => h.ended) fun t _ h => h

end Runs

/-- An operation gives its statement back clean exactly when none of these allocations fails: the
buffer of a string column, a part of the entry of a row, or a diagnostic record. -/
theorem operation_clean_iff (c : BackendCall) (stmt : Option Handle) (p : Answers) :
    Clean ((cplOdbcBackend c).path stmt p) ↔ Provided ((cplOdbcBackend c).path stmt p) := by
  have hstart : Untouched [] := ⟨rfl, by simp [Provided]⟩
  have hended : Ended ((cplOdbcBackend c).path stmt p) := by
    unfold Procedure.path
    have hrun := run_spec stmt p (backend_releases c) (backend_hasResult c)
    rcases hrun.cases hstart with ⟨r, t, hrun, ht⟩ | ⟨e, t, hrun, ht⟩
    · rwa [hrun]
    · rwa [hrun]
  exact (givenBack_iff _).trans hended

/-- Every call succeeds and the fifth event, the allocation of a string buffer, fails. -/
def noBuffer : Answers where
  grants := fun n => decide (n ≠ 4)
  ret := fun _ => .success
  dataLength := fun _ => 1
  states := fun _ => []
  connect := fun _ => .connected
  rows := []
  lastFetch := ⟨.noData, by decide⟩
  hasCallback := false
  callback := fun _ => .ok

def sessionStmt : Option Handle := some ⟨0, .getSessionInfo, 0⟩

/-- The statement goes back to its pool with the cursor of its execution open. -/
theorem cursor_left_open :
    (cplOdbcBackend .getSessionInfo).path sessionStmt noBuffer =
        [.allocate .info true, .acquire .getSessionInfo sessionStmt,
          .call .bindParameter .success, .execute true .success, .allocate .buffer false,
          .release .getSessionInfo sessionStmt] ∧
      ¬ Clean ((cplOdbcBackend .getSessionInfo).path sessionStmt noBuffer) := by
  refine ⟨rfl, ?_⟩
  rw [Clean, givenBack_iff]
  decide

end StatementReturn
