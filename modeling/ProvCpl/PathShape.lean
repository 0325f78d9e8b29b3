import ProvCpl.StatementReturn

/-! # The shape of a path

Every path is written by a few kinds of additions, whatever the operation and the answers: events
without a transfer, the acquisition and the release of its own statement, a reconnect that fails,
and one that succeeds with the binding that follows it. -/
namespace PathShape

open CplTypes EarlyExit OdbcOperation OperationPaths StatementReturn

def Plain : Event → Prop
  | .acquire _ _ | .release _ _ | .reconnect _ => False
  | _ => True

/-- The diagnostics of some execution make the operation reconnect. -/
def MayReconnect (p : Answers) : Prop := ∃ n, shouldReconnectDueToOdbcError (p.states n) = true

/-- A property of paths that every addition keeps. -/
structure Kept (q : Procedure) (stmt : Option Handle) (p : Answers) (I : List Event → Prop) :
    Prop where
  plain : ∀ t e, Plain e → I t → I (t ++ [e])
  acquire : ∀ t, I t → I (t ++ [.acquire q.acquires stmt])
  release : ∀ t, I t → I (t ++ [.release q.releases stmt])
  failed : ∀ t o, MayReconnect p → o ≠ .connected → I t → I (t ++ [.reconnect o])
  resumed : ∀ t ret, MayReconnect p → I t →
    I (t ++ [.reconnect .connected] ++ [.call .bindParameter ret])

section Rules

variable {I : List Event → Prop} {α β : Type}

def Keeps (I : List Event → Prop) (m : Path α) : Prop := Triple I m (fun _ => I) fun _ => I

theorem keeps_pure (a : α) : Keeps I (pure a : Path α) := triple_pure fun _ ht => ht

theorem keeps_leave (e : Exit) : Keeps I (leave e : Path α) := triple_leave fun _ ht => ht

theorem keeps_answer (f : ℕ → α) : Keeps I (answer f) := triple_answer fun _ _ ht => ht

theorem keeps_bind {m : Path α} {f : α → Path β} (hm : Keeps I m) (hf : ∀ a, Keeps I (f a)) :
    Keeps I (m >>= f) :=
  triple_bind hm hf

theorem keeps_ite {c : Prop} [Decidable c] {m n : Path α} (ht : c → Keeps I m)
    (hf : ¬ c → Keeps I n) : Keeps I (if c then m else n) :=
  triple_ite ht hf

theorem keeps_onlyIf {c : Prop} [Decidable c] {m : Path Unit} (hm : Keeps I m) :
    Keeps I (onlyIf c m) :=
  triple_onlyIf (fun _ => hm) fun _ _ ht => ht

theorem keeps_jumpIf {c : Prop} [Decidable c] (label : Exit) : Keeps I (jumpIf c label) :=
  triple_jumpIf (fun _ _ ht => ht) fun _ _ ht => ht

theorem keeps_forEach {γ : Type} {f : γ → Path Unit} (h : ∀ x, Keeps I (f x)) (xs : List γ) :
    Keeps I (forEach f xs) :=
  triple_forEach (I := fun _ => I) fun _ x _ => h x

theorem keeps_fold {γ : Type} {f : β → γ → Path β} (h : ∀ b x, Keeps I (f b x)) (b : β)
    (xs : List γ) : Keeps I (fold f b xs) :=
  triple_fold (I := fun _ _ => I) fun _ x b _ => h b x

theorem keeps_rescue {m : Path α} {f : Exit → Path α} (hm : Keeps I m) (hf : ∀ e, Keeps I (f e)) :
    Keeps I (rescue m f) :=
  triple_rescue hm hf

end Rules

section Programs

variable {q : Procedure} {stmt : Option Handle} {p : Answers} {I : List Event → Prop}
  (hI : Kept q stmt p I)
include hI

theorem keeps_emit {e : Event} (he : Plain e) : Keeps I (emit e) :=
  triple_emit fun t ht => hI.plain t e he ht

theorem keeps_allocate (a : Allocation) : Keeps I (allocate p a) :=
  keeps_bind (keeps_answer _) fun _ => keeps_bind (keeps_emit hI trivial) fun _ => keeps_pure _

theorem keeps_allocateOrThrow (a : Allocation) : Keeps I (allocateOrThrow p a) :=
  keeps_bind (keeps_allocate hI a) fun _ => keeps_jumpIf .threw

theorem keeps_sqlCall (f : OdbcFunction) : Keeps I (sqlCall p f) :=
  keeps_bind (keeps_answer _) fun _ => keeps_bind (keeps_emit hI trivial) fun _ => keeps_pure _

theorem keeps_fetchOdbcError : Triple I (fetchOdbcError p)
    (fun states t => I t ∧ ∃ n, states = p.states n) fun _ => I := by
  refine triple_bind (Q := fun states t => I t ∧ ∃ n, states = p.states n)
    (triple_call fun t ht => ⟨ht, t.length, rfl⟩) fun states => ?_
  refine triple_bind (Q := fun _ t => I t ∧ ∃ n, states = p.states n)
    (triple_exit (triple_frame ?_) fun _ _ h => h.1) fun _ => triple_pure fun _ ht => ht
  exact keeps_forEach (fun _ => keeps_allocateOrThrow hI .record) states

theorem keeps_printOdbcError : Keeps I (printOdbcError p) :=
  triple_bind (keeps_fetchOdbcError hI) fun _ => triple_pure fun _ ht => ht.1

theorem keeps_sqlAssertNoError (ret : SqlReturn) (label : Exit) :
    Keeps I (sqlAssertNoError p ret label) :=
  keeps_onlyIf (keeps_bind (keeps_printOdbcError hI) fun _ => keeps_leave label)

theorem keeps_closeCursor : Keeps I (closeCursor p) :=
  keeps_bind (keeps_sqlCall hI .closeCursor) fun _ => keeps_onlyIf (keeps_printOdbcError hI)

theorem binds_spec (params : ℕ) (hp : 0 < params) :
    Triple (fun t => ∀ ret, I (t ++ [.call .bindParameter ret])) (bindParameters p params)
      (fun _ => I) fun _ => I := by
  obtain ⟨n, rfl⟩ := Nat.exists_eq_succ_of_ne_zero hp.ne'
  rw [bindParameters, List.range_succ_eq_map, forEach_cons]
  have hrest : ∀ ret, Keeps I (sqlAssertNoError p ret .err) :=
    fun ret => keeps_sqlAssertNoError hI ret .err
  refine triple_bind (Q := fun _ => I) (triple_bind (Q := fun _ => I) ?_ hrest) fun _ => ?_
  · refine triple_bind (triple_answer fun t ret ht => ht ret) fun ret => ?_
    exact triple_bind (triple_emit fun t ht => ht) fun _ => triple_pure fun t ht => ht
  · exact keeps_forEach (fun _ => keeps_bind (keeps_sqlCall hI _) hrest) _

theorem reconnect_kept (hmay : MayReconnect p) : Triple I (reconnect p)
    (fun r t => if r.IsOk then ∀ ret, I (t ++ [.call .bindParameter ret]) else I t)
    fun _ => I := by
  refine triple_bind (keeps_answer (I := I) p.connect) fun o => ?_
  cases o with
  | connected =>
    refine triple_bind (Q := fun _ t => ∀ ret, I (t ++ [.call .bindParameter ret]))
      (triple_emit fun t ht ret => hI.resumed t ret hmay ht) fun _ => ?_
    exact triple_pure fun t ht => by simpa using ht
  | noMemory =>
    refine triple_bind (Q := fun _ => I)
      (triple_emit fun t ht => hI.failed t _ hmay (by decide) ht) fun _ => ?_
    exact triple_pure fun t ht => by simpa using ht
  | refused | notPrepared =>
    refine triple_bind (Q := fun _ => I)
      (triple_emit fun t ht => hI.failed t _ hmay (by decide) ht) fun _ => ?_
    refine triple_bind (keeps_printOdbcError hI) fun _ => ?_
    exact triple_pure fun t ht => by simpa using ht

theorem sqlExecute_kept (b : Bool) {retry : Option (Path Unit)}
    (h : ∀ m, retry = some m → Triple (fun t => ∀ ret, I (t ++ [.call .bindParameter ret])) m
      (fun _ => I) fun _ => I) :
    Keeps I (sqlExecute p b retry) := by
  refine keeps_bind (keeps_answer _) fun ret => keeps_bind (keeps_emit hI trivial) fun _ =>
    keeps_onlyIf (triple_bind (keeps_fetchOdbcError hI) fun states => ?_)
  have hleave : Triple (fun t => I t ∧ ∃ n, states = p.states n) (leave .err : Path Unit)
      (fun _ => I) fun _ => I := triple_leave fun _ ht => ht.1
  cases retry with
  | none => exact hleave
  | some m =>
    cases hs : shouldReconnectDueToOdbcError states with
    | false => exact hleave
    | true =>
      rintro t ⟨ht, n, rfl⟩
      refine triple_bind (reconnect_kept hI ⟨n, hs⟩) (fun r => ?_) t ht
      apply triple_ite
      · intro hr
        simp only [if_pos hr]
        exact h m rfl
      · intro hr
        simp only [if_neg hr]
        exact triple_leave fun _ ht => ht

theorem fromRetry_kept (params : ℕ) (hp : 0 < params) (b : Bool) (left : ℕ) :
    Triple (fun t => ∀ ret, I (t ++ [.call .bindParameter ret])) (fromRetry p params b left)
      (fun _ => I) fun _ => I := by
  induction left with
  | zero =>
    refine triple_bind (binds_spec hI params hp) fun _ => sqlExecute_kept hI b ?_
    intro m hm
    cases hm
  | succ left ih =>
    refine triple_bind (binds_spec hI params hp) fun _ => sqlExecute_kept hI b ?_
    intro m hm
    cases hm
    exact ih

theorem keeps_cplSqlFetchSingleValue (fetch closeIfOk handleNulls : Bool) :
    Keeps I (cplSqlFetchSingleValue p fetch closeIfOk handleNulls) := by
  refine keeps_rescue ?_ fun e => ?_
  · refine keeps_bind (keeps_onlyIf ?_) fun _ => ?_
    · refine keeps_bind (keeps_sqlCall hI _) fun ret => ?_
      exact keeps_bind (keeps_jumpIf _) fun _ => keeps_sqlAssertNoError hI ret .err
    refine keeps_bind (keeps_sqlCall hI _) fun ret => keeps_bind (keeps_jumpIf _) fun _ => ?_
    refine keeps_bind (keeps_sqlAssertNoError hI ret .err) fun _ => ?_
    refine keeps_bind (keeps_answer _) fun cb => keeps_bind (keeps_jumpIf _) fun _ => ?_
    refine keeps_bind (keeps_onlyIf ?_) fun _ => keeps_pure _
    exact keeps_bind (keeps_sqlCall hI _) fun ret => keeps_sqlAssertNoError hI ret .err
  · cases e with
    | err | errNf => exact keeps_bind (keeps_closeCursor hI) fun _ => keeps_pure _
    | errNull =>
      exact keeps_bind (keeps_onlyIf (keeps_closeCursor hI)) fun _ => keeps_pure _
    | _ => exact keeps_leave _

theorem keeps_readInfo (columns : List InfoColumn) : Keeps I (readInfo p columns) := by
  refine keeps_bind (keeps_forEach (fun c => ?_) columns) fun _ => ?_
  · refine keeps_bind (keeps_ite (fun _ => ?_) fun _ => keeps_cplSqlFetchSingleValue hI _ _ _)
      fun r => ?_
    · refine keeps_bind (keeps_allocate hI _) fun str => keeps_ite (fun _ => ?_) fun _ => ?_
      · exact keeps_cplSqlFetchSingleValue hI _ _ _
      · exact keeps_pure _
    · refine keeps_bind (keeps_jumpIf _) fun _ => keeps_onlyIf ?_
      exact keeps_bind (keeps_allocate hI _) fun _ => keeps_pure _
  · exact keeps_bind (keeps_sqlCall hI _) fun ret => keeps_sqlAssertNoError hI ret .err

theorem keeps_readRows (l : Listing) : Keeps I (readRows p l) := by
  refine keeps_bind (keeps_forEach (fun _ => ?_) _) fun _ => ?_
  · exact keeps_bind (keeps_sqlCall hI _) fun _ => keeps_jumpIf _
  refine keeps_bind (keeps_fold (fun entries isNull => ?_) 0 p.rows) fun entries => ?_
  · refine keeps_bind (keeps_emit hI trivial) fun _ => keeps_ite (fun _ => keeps_pure _) fun _ => ?_
    exact keeps_bind (keeps_forEach (fun _ => keeps_allocateOrThrow hI .entry) _) fun _ =>
      keeps_pure _
  refine keeps_bind ?_ fun _ => ?_
  · refine keeps_bind (keeps_emit hI trivial) fun _ => ?_
    exact keeps_bind (keeps_onlyIf (keeps_printOdbcError hI)) fun _ => keeps_jumpIf _
  refine keeps_bind (keeps_sqlCall hI _) fun ret => ?_
  exact keeps_bind (keeps_sqlAssertNoError hI ret .err) fun _ => keeps_pure _

theorem keeps_callBack (l : Listing) (entries : ℕ) : Keeps I (callBack p l entries) := by
  refine keeps_bind (keeps_jumpIf _) fun _ => keeps_bind (keeps_onlyIf ?_) fun _ => keeps_pure _
  refine keeps_forEach (fun _ => keeps_bind (keeps_answer _) fun code => ?_) _
  exact keeps_bind (keeps_emit hI trivial) fun _ => keeps_jumpIf _

theorem withStatement_kept (hq : 0 < q.params) {α : Type} {body : Path α} (hbody : Keeps I body) :
    Triple (fun t => I (t ++ [.acquire q.acquires stmt])) (q.withStatement stmt p body)
      (fun _ => I) fun _ => I := by
  have hrelease : Keeps I (emit (.release q.releases stmt)) := triple_emit hI.release
  refine triple_bind (Q := fun _ => I) (triple_emit fun _ ht => ht) fun _ => ?_
  refine keeps_bind (keeps_rescue (triple_bind (Q := fun _ => I) ?_ fun _ => hbody) fun e => ?_)
    fun a => keeps_bind hrelease fun _ => keeps_pure a
  · exact triple_conseq (fromRetry_kept hI q.params hq (hasResult q.acquires) 3)
      (fun t ht ret => hI.plain t _ trivial ht) (fun _ _ ht => ht) fun _ _ ht => ht
  · cases e with
    | errClose =>
      exact keeps_bind (keeps_closeCursor hI) fun _ => keeps_bind hrelease fun _ => keeps_leave _
    | err | errR => exact keeps_bind hrelease fun _ => keeps_leave _
    | _ => exact keeps_leave _

theorem keeps_run (hq : 0 < q.params) : Keeps I (q.run stmt p) := by
  have hwith : ∀ {α : Type} {body : Path α}, Keeps I body → Keeps I (q.withStatement stmt p body) :=
    fun hbody => triple_conseq (withStatement_kept hI hq hbody) hI.acquire (fun _ _ ht => ht)
      fun _ _ ht => ht
  unfold Procedure.run
  split
  · exact keeps_bind (hwith (keeps_pure _)) fun _ => keeps_pure _
  · exact hwith (keeps_cplSqlFetchSingleValue hI _ _ _)
  · exact keeps_bind (hwith (keeps_cplSqlFetchSingleValue hI _ _ _)) fun _ => keeps_pure _
  · next l _ =>
    refine keeps_bind (keeps_onlyIf ?_) fun _ => ?_
    · refine keeps_bind (keeps_allocate hI _) fun _ => keeps_bind (keeps_allocate hI _) fun _ => ?_
      exact keeps_jumpIf _
    · exact keeps_bind (hwith (keeps_readRows hI l)) fun entries => keeps_callBack hI l entries
  · next columns _ =>
    refine keeps_bind (keeps_bind (keeps_allocate hI _) fun _ => keeps_jumpIf _) fun _ => ?_
    exact keeps_bind (hwith (keeps_readInfo hI columns)) fun _ => keeps_pure _

theorem path_kept (hq : 0 < q.params) (h : I []) : I (q.path stmt p) := by
  rcases (keeps_run hI hq).cases h with ⟨_, _, hrun, ht⟩ | ⟨_, _, hrun, ht⟩
  · rwa [Procedure.path, hrun]
  · rwa [Procedure.path, hrun]

end Programs

theorem path_acquires {q : Procedure} {l : Listing} (hq : 0 < q.params)
    (hbody : q.body = .listing l)
    (hl : l.stackBuffers = false) (stmt : Option Handle) (p : Answers) :
    ∃ rest, q.path stmt p = .acquire q.acquires stmt :: rest := by
  have happend : ∀ t e, (∃ rest, t = Event.acquire q.acquires stmt :: rest) →
      ∃ rest, t ++ [e] = Event.acquire q.acquires stmt :: rest := by
    rintro _ e ⟨rest, rfl⟩
    exact ⟨rest ++ [e], rfl⟩
  have hI : Kept q stmt p fun t => ∃ rest, t = .acquire q.acquires stmt :: rest :=
    ⟨fun t e _ ht => happend t e ht, fun t ht => happend t _ ht, fun t ht => happend t _ ht,
      fun t _ _ _ ht => happend t _ ht, fun t _ _ ht => happend _ _ (happend t _ ht)⟩
  have hrun : Triple (fun t => t = []) (q.run stmt p)
      (fun _ t => ∃ rest, t = .acquire q.acquires stmt :: rest)
      fun _ t => ∃ rest, t = .acquire q.acquires stmt :: rest := by
    rw [Procedure.run, hbody]
    refine triple_bind (Q := fun _ t => t = []) (triple_onlyIf (fun hc => ?_) fun _ _ ht => ht)
      fun _ => triple_bind (triple_conseq (withStatement_kept hI hq (keeps_readRows hI l))
        (fun t ht => ⟨[], by rw [ht]; rfl⟩) (fun _ _ ht => ht) fun _ _ ht => ht)
        fun entries => keeps_callBack hI l entries
    rw [hl] at hc
    cases hc
  rcases hrun.cases rfl with ⟨_, t, hr, ht⟩ | ⟨_, t, hr, ht⟩
  · rwa [Procedure.path, hr]
  · rwa [Procedure.path, hr]

end PathShape
