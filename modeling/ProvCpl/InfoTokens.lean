import ProvCpl.ExportTable
import ProvCpl.ProgramLog
import Mathlib.Tactic.IntervalCases

/-! # The object infos that an export of relations obtains

The loop over the relations again, with a log of the infos it asks for and of the pointers it
passes to the function that frees them. An info is known by the number of the call that gave it.
Without the log this is the loop of the exporter. -/
namespace InfoTokens

open CplTypes JsonValue ProvStore ProvServer ServerSpecs ImportDocument ExportDocument
open ExportShape ExportTable EarlyExit ProgramLog

/-- A pointer that is freed is one of an info, or a variable that was not assigned. -/
inductive InfoEvent where
  | info (token : ℕ) (code : ReturnCode)
  | free (pointer : Option ℕ)
  deriving DecidableEq, Repr

abbrev Tracked (α : Type) := Logging World InfoEvent Stop α

/-- `cpl_get_object_info`, which the caller sees with the number of the call. -/
def getInfo (srv : Server) (id : ℕ) : Call World (ℕ × ReturnCode × Option ObjectInfo) :=
  fun w => ((w.calls, (srv.getObjectInfo id w).1), (srv.getObjectInfo id w).2)

def trackInfo (srv : Server) (id : ℕ) : Tracked (ℕ × ReturnCode × Option ObjectInfo) :=
  logged (fun _ out => .info out.1 out.2.1) (getInfo srv id)

def freeInfo (pointer : Option ℕ) : Tracked Unit :=
  logged (fun _ _ => .free pointer) fun w => ((), w)

def trackEndpoint (srv : Server) (tbl : NameTable) (id : ℕ) : Tracked (String × Option ℕ) :=
  match OrderedMap.find id tbl with
  | some name => pure (name, none)
  | none => do
    let info ← trackInfo srv id
    if info.2.1.IsOk then
      match info.2.2 with
      | some i => pure (i.name, some info.1)
      | none => leave .undefined
    else leave (.ret info.2.1)

/-- The flag of the source is set for either info, the flag of the destination for none. -/
def freeInfos (fromInfo toInfo : Option ℕ) : Tracked Unit :=
  if fromInfo.isSome ∨ toInfo.isSome then freeInfo fromInfo else pure ()

def trackRelation (srv : Server) (tbl : NameTable) (document : Json) (relation : RelationEntry) :
    Tracked Json := do
  let properties ← quiet (exportProperties (relationReader srv) relation.id)
  let source ← trackEndpoint srv tbl relation.queryObjectId
  let data ← quiet (relationData relation.type)
  let dest ← trackEndpoint srv tbl relation.otherObjectId
  freeInfos source.2 dest.2
  if dest.2.isSome ∧ source.2 = none then leave .undefined
  else pure (document.assignIn data.typeStr (Nat.repr relation.id)
    ((properties.assign data.sourceStr (.string source.1)).assign data.destStr (.string dest.1)))

def trackRelations (srv : Server) (tbl : NameTable) (document : Json)
    (relations : List RelationEntry) : Tracked Json :=
  fold (trackRelation srv tbl) document relations

def trackRelationsJson (srv : Server) (bundles : List ℕ) (tbl : NameTable) (document : Json) :
    Tracked Json :=
  match bundles with
  | [bundle] => do
    let relations ← quiet (requireList (srv.getBundleRelations bundle))
    trackRelations srv tbl document relations
  | _ => leave (.ret .invalidArgument)

def obtained : List InfoEvent → List ℕ
  | [] => []
  | .info token code :: log => if code.IsOk then token :: obtained log else obtained log
  | .free _ :: log => obtained log

def freed : List InfoEvent → List (Option ℕ)
  | [] => []
  | .info _ _ :: log => freed log
  | .free pointer :: log => pointer :: freed log

structure FreesExactly (log : List InfoEvent) : Prop where
  once : ∀ token ∈ obtained log, (freed log).count (some token) = 1
  only : ∀ pointer ∈ freed log, ∃ token ∈ obtained log, pointer = some token

def logOf {α : Type} (m : Tracked α) (w : World) : List InfoEvent := (m (w, [])).2.2

/-- The object whose info is asked for first: the source, or the destination if the table has
the source. -/
def firstAsked (tbl : NameTable) (relation : RelationEntry) : ℕ :=
  if (OrderedMap.find relation.queryObjectId tbl).isSome then relation.otherObjectId
  else relation.queryObjectId

/-- The table has the destination, or the first info asked for is not obtained, or the relation is
left before that. -/
def Harmless (srv : Server) (tbl : NameTable) (relation : RelationEntry) (w : World) : Prop :=
  match exportProperties (relationReader srv) relation.id w with
  | (.ok _, w') => (OrderedMap.find relation.otherObjectId tbl).isSome ∨
      ¬ (srv.getObjectInfo (firstAsked tbl relation) w').1.1.IsOk
  | (.error _, _) => True

def AllHarmless (srv : Server) (tbl : NameTable) : Json → List RelationEntry → World → Prop
  | _, [], _ => True
  | document, relation :: relations, w => Harmless srv tbl relation w ∧
    match exportRelation srv tbl document relation w with
    | (.ok document', w') => AllHarmless srv tbl document' relations w'
    | (.error _, _) => True

/-- The condition for the whole function; without one bundle or a listing no info is asked for. -/
def HarmlessCall (srv : Server) (bundles : List ℕ) (tbl : NameTable) (document : Json)
    (w : World) : Prop :=
  match bundles with
  | [bundle] => match requireList (srv.getBundleRelations bundle) w with
    | (.ok relations, w') => AllHarmless srv tbl document relations w'
    | (.error _, _) => True
  | _ => True

section Ledger

def Within (low high : ℕ) (log : List InfoEvent) : Prop :=
  (∀ token ∈ obtained log, low ≤ token ∧ token < high) ∧
    ∀ token, some token ∈ freed log → low ≤ token ∧ token < high

theorem obtained_append (a b : List InfoEvent) : obtained (a ++ b) = obtained a ++ obtained b := by
  induction a with
  | nil => rfl
  | cons e a ih =>
    cases e with
    | info token code =>
      rw [List.cons_append, obtained, obtained, ih]
      split <;> rfl
    | free pointer => exact ih

theorem freed_append (a b : List InfoEvent) : freed (a ++ b) = freed a ++ freed b := by
  induction a with
  | nil => rfl
  | cons e a ih =>
    cases e with
    | info token code => exact ih
    | free pointer => rw [List.cons_append, freed, freed, ih, List.cons_append]

theorem within_nil (low high : ℕ) : Within low high [] := by
  constructor <;> simp [obtained, freed]

theorem Within.mono {low high low' high' : ℕ} {log : List InfoEvent} (h : Within low high log)
    (hlow : low' ≤ low) (hhigh : high ≤ high') : Within low' high' log := by
  constructor
  · intro token ht
    have := h.1 token ht
    omega
  · intro token ht
    have := h.2 token ht
    omega

theorem Within.append {low high : ℕ} {a b : List InfoEvent} (ha : Within low high a)
    (hb : Within low high b) : Within low high (a ++ b) := by
  constructor
  · intro token ht
    rw [obtained_append] at ht
    rcases List.mem_append.mp ht with ht | ht
    · exact ha.1 token ht
    · exact hb.1 token ht
  · intro token ht
    rw [freed_append] at ht
    rcases List.mem_append.mp ht with ht | ht
    · exact ha.2 token ht
    · exact hb.2 token ht

theorem freesExactly_nil : FreesExactly [] := by
  constructor <;> simp [obtained, freed]

theorem count_freed_of_apart {l h l' h' : ℕ} {a b : List InfoEvent} (ha : Within l h a)
    (hb : Within l' h' b) (hapart : h ≤ l' ∨ h' ≤ l) :
    ∀ token ∈ obtained a, (freed b).count (some token) = 0 := by
  intro token ht
  apply List.count_eq_zero_of_not_mem
  intro hf
  have h1 := ha.1 token ht
  have h2 := hb.2 token hf
  omega

theorem freesExactly_comm (a b : List InfoEvent) :
    FreesExactly (a ++ b) ↔ FreesExactly (b ++ a) := by
  have hswap : ∀ {a b : List InfoEvent}, FreesExactly (a ++ b) → FreesExactly (b ++ a) := by
    intro a b h
    constructor
    · intro token ht
      rw [obtained_append, List.mem_append, or_comm, ← List.mem_append, ← obtained_append] at ht
      rw [freed_append, List.count_append, Nat.add_comm, ← List.count_append, ← freed_append]
      exact h.once token ht
    · intro pointer hp
      rw [freed_append, List.mem_append, or_comm, ← List.mem_append, ← freed_append] at hp
      obtain ⟨token, ht, he⟩ := h.only pointer hp
      rw [obtained_append, List.mem_append, or_comm, ← List.mem_append, ← obtained_append] at ht
      exact ⟨token, ht, he⟩
  exact ⟨hswap, hswap⟩

theorem FreesExactly.left {a b : List InfoEvent} (h : FreesExactly (a ++ b))
    (hab : ∀ token ∈ obtained a, (freed b).count (some token) = 0)
    (hba : ∀ token ∈ obtained b, (freed a).count (some token) = 0) : FreesExactly a := by
  constructor
  · intro token ht
    have hone := h.once token (by rw [obtained_append]; exact List.mem_append_left _ ht)
    rwa [freed_append, List.count_append, hab token ht] at hone
  · intro pointer hp
    obtain ⟨token, ht, rfl⟩ :=
      h.only pointer (by rw [freed_append]; exact List.mem_append_left _ hp)
    rw [obtained_append] at ht
    rcases List.mem_append.mp ht with ht | ht
    · exact ⟨token, ht, rfl⟩
    · exact absurd hp (List.count_eq_zero.mp (hba token ht))

theorem freesExactly_append {low mid high : ℕ} {a b : List InfoEvent} (ha : Within low mid a)
    (hb : Within mid high b) : FreesExactly (a ++ b) ↔ FreesExactly a ∧ FreesExactly b := by
  have hab := count_freed_of_apart ha hb (Or.inl le_rfl)
  have hba := count_freed_of_apart hb ha (Or.inr le_rfl)
  constructor
  · intro h
    exact ⟨h.left hab hba, ((freesExactly_comm a b).mp h).left hba hab⟩
  · rintro ⟨h, h'⟩
    constructor
    · intro token ht
      rw [obtained_append] at ht
      rw [freed_append, List.count_append]
      rcases List.mem_append.mp ht with ht | ht
      · rw [h.once token ht, hab token ht]
      · rw [h'.once token ht, hba token ht]
    · intro pointer hp
      rw [freed_append] at hp
      rw [obtained_append]
      rcases List.mem_append.mp hp with hp | hp
      · obtain ⟨token, ht, rfl⟩ := h.only pointer hp
        exact ⟨token, List.mem_append_left _ ht, rfl⟩
      · obtain ⟨token, ht, rfl⟩ := h'.only pointer hp
        exact ⟨token, List.mem_append_right _ ht, rfl⟩

end Ledger

section Counter

variable {srv : Server}

theorem list_calls {α : Type} (id : ℕ) (read : ℕ → Store → ReturnCode × List α) (w : World) :
    w.calls ≤ (srv.list id (srv.query read []) w).2.calls := by
  unfold Server.list Server.ensureInitialized
  split
  · dsimp only
    split
    · exact le_rfl
    · rw [query_calls]
      omega
  · exact le_rfl

theorem getObjectInfo_obtained {id : ℕ} {w : World} (h : (srv.getObjectInfo id w).1.1.IsOk) :
    (∃ i, (srv.getObjectInfo id w).1.2 = some i) ∧
      (srv.getObjectInfo id w).2.calls = w.calls + 1 := by
  by_cases hattached : srv.attached
  · by_cases h0 : id = cplNone
    · simp [Server.getObjectInfo, Server.ensureInitialized, hattached, h0] at h
    · have hrun : srv.getObjectInfo id w = srv.cplOdbcGetObjectInfo id w := by
        simp [Server.getObjectInfo, Server.ensureInitialized, hattached, h0]
      rw [hrun] at h ⊢
      constructor
      · unfold Server.cplOdbcGetObjectInfo Server.query at h ⊢
        cases hfail : (srv.outcome w.calls).failure with
        | some f =>
          rw [hfail] at h
          exact absurd h f.failed
        | none =>
          simp only [hfail] at h ⊢
          split at h
          · exact absurd h not_isOk_notFound
          · split at h
            · exact absurd h not_isOk_notFound
            · simp only [Option.some.injEq, exists_eq']
      · exact query_calls _ _
  · simp [Server.getObjectInfo, Server.ensureInitialized, hattached] at h

variable (srv) in
theorem getObjectInfo_calls (id : ℕ) (w : World) :
    w.calls ≤ (srv.getObjectInfo id w).2.calls := by
  unfold Server.getObjectInfo Server.ensureInitialized
  split
  · dsimp only
    split
    · exact le_rfl
    · rw [Server.cplOdbcGetObjectInfo, query_calls]
      omega
  · exact le_rfl

def From (n : ℕ) (w : World) : Prop := n ≤ w.calls

theorem requireList_from {α : Type} {c : Call World (ReturnCode × List α)}
    (h : ∀ w, w.calls ≤ (c w).2.calls) (n : ℕ) :
    Maintains (From n) (requireList c) (fun _ => True) fun _ => From n :=
  maintains_bind (R := fun _ => True) (maintains_call fun w hw => ⟨le_trans hw (h w), trivial⟩)
    fun _ _ => maintains_ite (fun _ => maintains_pure trivial) fun _ =>
      maintains_leave fun _ hw => hw

variable (srv) in
theorem exportProperties_from (id n : ℕ) :
    Maintains (From n) (exportProperties (relationReader srv) id) (fun _ => True)
      fun _ => From n := by
  have hread : ∀ type, Maintains (From n) (requireList (relationReader srv id type))
      (fun _ => True) fun _ => From n :=
    fun type => requireList_from (fun w => list_calls id _ w) n
  apply maintains_bind (hread stringProperty)
  intro strings _
  apply maintains_bind (hread numericalProperty)
  intro numerics _
  apply maintains_bind (R := fun _ => True)
  · cases readAll numericalMember numerics with
    | some numbers => exact maintains_pure trivial
    | none => exact maintains_leave fun _ hw => hw
  · intro numbers _
    exact maintains_bind (hread booleanProperty) fun booleans _ => maintains_pure trivial

theorem exportEndpoint_from (tbl : NameTable) (id n : ℕ) :
    Maintains (From n) (exportEndpoint srv tbl id) (fun _ => True) fun _ => From n := by
  unfold exportEndpoint
  split
  · exact maintains_pure trivial
  · apply maintains_bind (R := fun _ => True)
    · exact maintains_call fun w hw => ⟨le_trans hw (getObjectInfo_calls srv id w), trivial⟩
    · intro info _
      apply maintains_ite
      · intro _
        cases info.2 with
        | some i => exact maintains_pure trivial
        | none => exact maintains_leave fun _ hw => hw
      · intro _
        exact maintains_leave fun _ hw => hw

variable (srv) in
theorem exportRelation_from (tbl : NameTable) (document : Json) (relation : RelationEntry)
    (n : ℕ) : Maintains (From n) (exportRelation srv tbl document relation) (fun _ => True)
      fun _ => From n := by
  apply maintains_bind (exportProperties_from srv relation.id n)
  intro properties _
  apply maintains_bind (exportEndpoint_from tbl relation.queryObjectId n)
  intro source _
  apply maintains_bind (R := fun _ => True)
  · unfold relationData
    split
    · exact maintains_pure trivial
    · exact maintains_leave fun _ hw => hw
  · intro data _
    apply maintains_bind (exportEndpoint_from tbl relation.otherObjectId n)
    intro dest _
    exact maintains_ite (fun _ => maintains_leave fun _ hw => hw) fun _ => maintains_pure trivial

variable (srv) in
theorem exportRelations_from (tbl : NameTable) (document : Json) (relations : List RelationEntry)
    (n : ℕ) : Maintains (From n) (fold (exportRelation srv tbl) document relations)
      (fun _ => True) fun _ => From n :=
  maintains_fold (T := fun _ _ => True) trivial fun _ relation document _ _ =>
    exportRelation_from srv tbl document relation n

theorem calls_le {α : Type} {m : Api α}
    (h : ∀ n, Maintains (From n) m (fun _ => True) fun _ => From n) (w : World) :
    w.calls ≤ (m w).2.calls := by
  rcases (h w.calls).cases (le_refl w.calls) with ⟨a, t, hr, ht, -⟩ | ⟨e, t, hr, ht⟩
  · rw [hr]
    exact ht
  · rw [hr]
    exact ht

end Counter

section Erasure

variable {srv : Server} {tbl : NameTable}

theorem exportEndpoint_of_track (id : ℕ) (w : World) (log : List InfoEvent) :
    exportEndpoint srv tbl id w =
      ((trackEndpoint srv tbl id (w, log)).1.map fun out => (out.1, out.2.isSome),
        (trackEndpoint srv tbl id (w, log)).2.1) := by
  unfold exportEndpoint trackEndpoint
  cases OrderedMap.find id tbl with
  | some name => rfl
  | none =>
    simp only [bind_run, call, trackInfo, logged, getInfo]
    by_cases hok : (srv.getObjectInfo id w).1.1.IsOk
    · simp only [if_pos hok]
      cases (srv.getObjectInfo id w).1.2 <;> rfl
    · simp only [if_neg hok]
      rfl

variable (srv tbl) in
theorem erases_trackRelation (document : Json) (relation : RelationEntry) :
    Erases (trackRelation srv tbl document relation)
      (exportRelation srv tbl document relation) := by
  apply erases_bind (erases_quiet _)
  intro properties w log
  rw [bind_run, bind_run, exportEndpoint_of_track relation.queryObjectId w log]
  rcases trackEndpoint srv tbl relation.queryObjectId (w, log) with ⟨source | source, w1, log1⟩
  · exact ⟨rfl, rfl⟩
  apply erases_bind (erases_quiet _)
  intro data w2 log2
  rw [bind_run, bind_run, exportEndpoint_of_track relation.otherObjectId w2 log2]
  rcases trackEndpoint srv tbl relation.otherObjectId (w2, log2) with ⟨dest | dest, w3, log3⟩
  · exact ⟨rfl, rfl⟩
  obtain ⟨source, pointer⟩ := source
  obtain ⟨dest, pointer'⟩ := dest
  cases pointer <;> cases pointer' <;> exact ⟨rfl, rfl⟩

theorem erases_trackRelationsJson (bundles : List ℕ) (document : Json) :
    Erases (trackRelationsJson srv bundles tbl document)
      (exportRelationsJson srv bundles tbl document) := by
  have hone : ∀ bundle, Erases (trackRelationsJson srv [bundle] tbl document)
      (exportRelationsJson srv [bundle] tbl document) := by
    intro bundle
    apply erases_bind (erases_quiet _)
    intro relations
    exact erases_fold (fun document relation => erases_trackRelation srv tbl document relation) _ _
  rcases bundles with _ | ⟨bundle, _ | ⟨other, bundles⟩⟩
  · exact erases_leave _
  · exact hone bundle
  · exact erases_leave _

end Erasure

section Appending

variable {srv : Server} {tbl : NameTable}

theorem appends_trackEndpoint (id : ℕ) : Appends (trackEndpoint srv tbl id) := by
  unfold trackEndpoint
  split
  · exact appends_pure _
  · apply appends_bind (appends_logged _ _)
    intro info
    apply appends_ite
    · split
      · exact appends_pure _
      · exact appends_leave _
    · exact appends_leave _

variable (srv tbl) in
theorem appends_trackRelation (document : Json) (relation : RelationEntry) :
    Appends (trackRelation srv tbl document relation) := by
  apply appends_bind (appends_quiet _)
  intro properties
  apply appends_bind (appends_trackEndpoint _)
  intro source
  apply appends_bind (appends_quiet _)
  intro data
  apply appends_bind (appends_trackEndpoint _)
  intro dest
  apply appends_bind (appends_ite (appends_logged _ _) (appends_pure _))
  intro _
  exact appends_ite (appends_leave _) (appends_pure _)

end Appending

section Segment

variable {srv : Server} {tbl : NameTable}

variable (srv tbl) in
theorem trackEndpoint_cases (id : ℕ) (w : World) (log : List InfoEvent) :
    (∃ name, OrderedMap.find id tbl = some name ∧
      trackEndpoint srv tbl id (w, log) = (.ok (name, none), (w, log))) ∨
    (OrderedMap.find id tbl = none ∧ ∃ code, (srv.getObjectInfo id w).1.1 = code ∧ ¬ code.IsOk ∧
      trackEndpoint srv tbl id (w, log) =
        (.error (.ret code), ((srv.getObjectInfo id w).2, log ++ [.info w.calls code]))) ∨
    (OrderedMap.find id tbl = none ∧ ∃ code, (srv.getObjectInfo id w).1.1 = code ∧ code.IsOk ∧
      ∃ name, trackEndpoint srv tbl id (w, log) =
        (.ok (name, some w.calls), ((srv.getObjectInfo id w).2, log ++ [.info w.calls code]))) := by
  unfold trackEndpoint
  cases hfind : OrderedMap.find id tbl with
  | some name => exact .inl ⟨name, rfl, rfl⟩
  | none =>
    simp only [bind_run, trackInfo, logged, getInfo]
    by_cases hok : (srv.getObjectInfo id w).1.1.IsOk
    · obtain ⟨⟨i, hi⟩, -⟩ := getObjectInfo_obtained hok
      simp only [if_pos hok, hi]
      exact .inr (.inr ⟨trivial, _, rfl, hok, i.name, rfl⟩)
    · simp only [if_neg hok]
      exact .inr (.inl ⟨trivial, _, rfl, hok, rfl⟩)

theorem relationData_ok {type : ℤ} (h : EnsureRType type) : ∃ d, relationData type = pure d := by
  have hbounds : 1 ≤ type ∧ type ≤ 20 := by
    unfold EnsureRType at h
    omega
  obtain ⟨hlow, hhigh⟩ := hbounds
  interval_cases type <;> exact ⟨_, rfl⟩

section Shapes

variable {code code' : ReturnCode} {token token' : ℕ}

theorem within_failed (h : ¬ code.IsOk) (low high : ℕ) : Within low high [.info token code] := by
  constructor <;> simp [obtained, freed, h]

theorem within_obtained {low high : ℕ} (hlow : low ≤ token) (hhigh : token < high) :
    Within low high [.info token code] := by
  constructor
  · intro t ht
    by_cases h : code.IsOk
    · simp [obtained, h] at ht
      omega
    · simp [obtained, h] at ht
  · simp [freed]

theorem within_freed {low high : ℕ} (hlow : low ≤ token) (hhigh : token < high) :
    Within low high [.free (some token)] := by
  constructor
  · simp [obtained]
  · intro t ht
    simp [freed] at ht
    omega

theorem within_unassigned (low high : ℕ) : Within low high [.free none] := by
  constructor <;> simp [obtained, freed]

theorem exact_failed (h : ¬ code.IsOk) : FreesExactly [.info token code] := by
  constructor <;> simp [obtained, freed, h]

theorem exact_freed (h : code.IsOk) :
    FreesExactly [.info token code, .free (some token)] := by
  constructor <;> simp [obtained, freed, h]

theorem not_exact_unassigned :
    ¬ FreesExactly [.info token code, .free none] := by
  intro hexact
  obtain ⟨token, -, ht⟩ := hexact.only none (by simp [freed])
  cases ht

theorem not_exact_kept (h : code.IsOk) :
    ¬ FreesExactly [.info token code, .info token' code'] := by
  intro hexact
  have hone := hexact.once token (by simp [obtained, h])
  simp [freed] at hone

theorem not_exact_second (h' : code'.IsOk) (hne : token ≠ token') :
    ¬ FreesExactly [.info token code, .info token' code', .free (some token)] := by
  intro hexact
  have hone := hexact.once token' (by by_cases h : code.IsOk <;> simp [obtained, h, h'])
  simp [freed, hne] at hone

end Shapes

theorem freeInfos_run (fromInfo toInfo : Option ℕ) (w : World) (log : List InfoEvent) :
    freeInfos fromInfo toInfo (w, log) =
      (.ok (), (w, log ++ if fromInfo.isSome ∨ toInfo.isSome then [.free fromInfo] else [])) := by
  unfold freeInfos freeInfo
  split
  · rfl
  · rw [List.append_nil, pure_run]

/-- Once the name of the source is known, the end of the destination decides the log. -/
theorem trackRelation_dest {document : Json} {relation : RelationEntry}
    (htype : EnsureRType relation.type) {w w1 w2 : World} {properties : Json}
    {source : String × Option ℕ} {log : List InfoEvent}
    (hproperties : exportProperties (relationReader srv) relation.id w = (.ok properties, w1))
    (hsource : trackEndpoint srv tbl relation.queryObjectId (w1, []) = (.ok source, (w2, log))) :
    (trackRelation srv tbl document relation (w, [])).2 =
      match trackEndpoint srv tbl relation.otherObjectId (w2, log) with
      | (.ok dest, w3) => (freeInfos source.2 dest.2 w3).2
      | (.error _, w3) => w3 := by
  obtain ⟨d, hd⟩ := relationData_ok htype
  unfold trackRelation
  rw [bind_run, quiet, hproperties]
  dsimp only
  rw [bind_run, hsource]
  dsimp only
  rw [bind_run, quiet, hd, pure_run]
  dsimp only
  rw [bind_run]
  rcases trackEndpoint srv tbl relation.otherObjectId (w2, log) with ⟨dest | dest, w3, log3⟩
  · rfl
  · dsimp only
    rw [bind_run, freeInfos_run]
    dsimp only
    split <;> rfl

variable (srv tbl) in
/-- A relation whose properties are read adds a log about infos of its own. It is exact if the
table has the destination or the first info asked for is not obtained. -/
def Segment (srv : Server) (tbl : NameTable) (document : Json) (relation : RelationEntry)
    (w w1 : World) : Prop :=
  Within w.calls (trackRelation srv tbl document relation (w, [])).2.1.calls
      (trackRelation srv tbl document relation (w, [])).2.2 ∧
    (FreesExactly (trackRelation srv tbl document relation (w, [])).2.2 ↔
      (OrderedMap.find relation.otherObjectId tbl).isSome ∨
        ¬ (srv.getObjectInfo (firstAsked tbl relation) w1).1.1.IsOk)

section Ends

variable {document : Json} {relation : RelationEntry} {w w1 : World} {properties : Json}
  (hcalls : w.calls ≤ w1.calls)
  (hproperties : exportProperties (relationReader srv) relation.id w = (.ok properties, w1))

include hcalls hproperties

/-- The table has the source, so an info of the destination is never freed. -/
theorem segment_of_known (htype : EnsureRType relation.type) {name : String}
    (hfind : OrderedMap.find relation.queryObjectId tbl = some name)
    (hsource : trackEndpoint srv tbl relation.queryObjectId (w1, []) =
      (.ok (name, none), (w1, []))) : Segment srv tbl document relation w w1 := by
  have hfirst : firstAsked tbl relation = relation.otherObjectId := by simp [firstAsked, hfind]
  rw [Segment, trackRelation_dest htype hproperties hsource, hfirst]
  rcases trackEndpoint_cases srv tbl relation.otherObjectId w1 [] with
    ⟨name', hfind', hdest⟩ | ⟨hfind', code', hcode', hfail', hdest⟩ |
    ⟨hfind', code', hcode', hok', name', hdest⟩
  · rw [hdest]
    exact ⟨within_nil _ _, iff_of_true freesExactly_nil (.inl (by rw [hfind']; rfl))⟩
  · rw [hdest]
    exact ⟨within_failed hfail' _ _,
      iff_of_true (exact_failed hfail') (.inr (by rwa [hcode']))⟩
  · have hnext := (getObjectInfo_obtained (by rwa [hcode'])).2
    rw [hdest]
    dsimp only
    rw [freeInfos_run]
    constructor
    · exact (within_obtained hcalls (by dsimp only; omega)).append (within_unassigned _ _)
    · apply iff_of_false not_exact_unassigned
      rintro (h | h)
      · simp [hfind'] at h
      · exact h (by rwa [hcode'])

omit hcalls in
theorem segment_of_failed {code : ReturnCode}
    (hfind : OrderedMap.find relation.queryObjectId tbl = none)
    (hcode : (srv.getObjectInfo relation.queryObjectId w1).1.1 = code) (hfail : ¬ code.IsOk)
    (hsource : trackEndpoint srv tbl relation.queryObjectId (w1, []) =
      (.error (.ret code), ((srv.getObjectInfo relation.queryObjectId w1).2,
        [.info w1.calls code]))) : Segment srv tbl document relation w w1 := by
  have hfirst : firstAsked tbl relation = relation.queryObjectId := by simp [firstAsked, hfind]
  rw [Segment, trackRelation, bind_run, quiet, hproperties]
  dsimp only
  rw [bind_run, hsource, hfirst, hcode]
  exact ⟨within_failed hfail _ _, iff_of_true (exact_failed hfail) (.inr hfail)⟩

/-- The info of the source is freed unless one of the destination is asked for. -/
theorem segment_of_obtained (htype : EnsureRType relation.type) {code : ReturnCode}
    {name : String} (hfind : OrderedMap.find relation.queryObjectId tbl = none)
    (hcode : (srv.getObjectInfo relation.queryObjectId w1).1.1 = code) (hok : code.IsOk)
    (hsource : trackEndpoint srv tbl relation.queryObjectId (w1, []) =
      (.ok (name, some w1.calls), ((srv.getObjectInfo relation.queryObjectId w1).2,
        [.info w1.calls code]))) : Segment srv tbl document relation w w1 := by
  have hfirst : firstAsked tbl relation = relation.queryObjectId := by simp [firstAsked, hfind]
  have hnext := (getObjectInfo_obtained (by rwa [hcode])).2
  rw [Segment, trackRelation_dest htype hproperties hsource, hfirst, hcode]
  rcases trackEndpoint_cases srv tbl relation.otherObjectId
    (srv.getObjectInfo relation.queryObjectId w1).2 [.info w1.calls code] with
    ⟨name', hfind', hdest⟩ | ⟨hfind', code', hcode', hfail', hdest⟩ |
    ⟨hfind', code', hcode', hok', name', hdest⟩
  · rw [hdest]
    dsimp only
    rw [freeInfos_run]
    constructor
    · exact (within_obtained hcalls (by dsimp only; omega)).append
        (within_freed hcalls (by dsimp only; omega))
    · exact iff_of_true (exact_freed hok) (.inl (by rw [hfind']; rfl))
  · have hlater := getObjectInfo_calls srv relation.otherObjectId
      (srv.getObjectInfo relation.queryObjectId w1).2
    rw [hdest]
    constructor
    · exact (within_obtained hcalls (by dsimp only; omega)).append (within_failed hfail' _ _)
    · apply iff_of_false (not_exact_kept hok)
      simp [hfind', hok]
  · have hlater := (getObjectInfo_obtained (by rwa [hcode'])).2
    rw [hdest]
    dsimp only
    rw [freeInfos_run]
    constructor
    · exact ((within_obtained hcalls (by dsimp only; omega)).append
        (within_obtained (by omega) (by dsimp only; omega))).append
        (within_freed hcalls (by dsimp only; omega))
    · apply iff_of_false (not_exact_second hok' (by omega))
      simp [hfind', hok]

end Ends

variable (srv tbl) in
/-- One relation adds a log about infos of its own, which is exact if the relation is harmless. -/
theorem trackRelation_segment (document : Json) {relation : RelationEntry}
    (htype : EnsureRType relation.type) (w : World) :
    Within w.calls (trackRelation srv tbl document relation (w, [])).2.1.calls
        (trackRelation srv tbl document relation (w, [])).2.2 ∧
      (FreesExactly (trackRelation srv tbl document relation (w, [])).2.2 ↔
        Harmless srv tbl relation w) := by
  have hcalls := calls_le (exportProperties_from srv relation.id) w
  unfold Harmless
  rcases hproperties : exportProperties (relationReader srv) relation.id w with
    ⟨properties | properties, w1⟩
  · rw [trackRelation, bind_run, quiet, hproperties]
    exact ⟨within_nil _ _, iff_of_true freesExactly_nil trivial⟩
  rw [hproperties] at hcalls
  rcases trackEndpoint_cases srv tbl relation.queryObjectId w1 [] with
    ⟨name, hfind, hsource⟩ | ⟨hfind, code, hcode, hfail, hsource⟩ |
    ⟨hfind, code, hcode, hok, name, hsource⟩
  · exact segment_of_known hcalls hproperties htype hfind hsource
  · exact segment_of_failed hproperties hfind hcode hfail hsource
  · exact segment_of_obtained hcalls hproperties htype hfind hcode hok hsource

theorem trackRelations_segment {relations : List RelationEntry}
    (htypes : ∀ r ∈ relations, EnsureRType r.type) (document : Json) (w : World) :
    Within w.calls (trackRelations srv tbl document relations (w, [])).2.1.calls
        (trackRelations srv tbl document relations (w, [])).2.2 ∧
      (FreesExactly (trackRelations srv tbl document relations (w, [])).2.2 ↔
        AllHarmless srv tbl document relations w) := by
  unfold trackRelations
  induction relations generalizing document w with
  | nil => exact ⟨within_nil _ _, iff_of_true freesExactly_nil trivial⟩
  | cons relation relations ih =>
    have hhead := trackRelation_segment srv tbl document
      (htypes relation List.mem_cons_self) w
    have herase := erases_trackRelation srv tbl document relation w []
    rw [fold, bind_run, AllHarmless]
    rcases hrun : trackRelation srv tbl document relation (w, []) with ⟨out, w', log⟩
    rcases hplain : exportRelation srv tbl document relation w with ⟨out', w''⟩
    rw [hrun, hplain] at herase
    obtain ⟨rfl, rfl⟩ : out = out' ∧ w' = w'' := herase
    rw [hrun] at hhead
    cases out with
    | error e => exact ⟨hhead.1, hhead.2.trans (and_true _).to_iff.symm⟩
    | ok document' =>
      have hrest := ih (fun r hr => htypes r (List.mem_cons_of_mem _ hr)) document' w'
      have happends := appends_fold (fun document relation =>
        appends_trackRelation srv tbl document relation) document' relations w' log
      have hlater := calls_le (exportRelations_from srv tbl document' relations) w'
      have hbefore := calls_le (exportRelation_from srv tbl document relation) w
      have herased := (erases_fold (erases_trackRelation srv tbl) document'
        relations w' []).2
      rw [hplain] at hbefore
      rw [← herased] at hlater
      dsimp only at hhead ⊢
      rw [happends, freesExactly_append hhead.1 hrest.1, hhead.2, hrest.2]
      exact ⟨(hhead.1.mono le_rfl hlater).append (hrest.1.mono hbefore le_rfl), Iff.rfl⟩

end Segment

section Function

def LegalTypes (s : Store) : Prop :=
  ∀ r ∈ s.relations, ∀ type, r.type = some type → EnsureRType type

theorem entry_type {r : RelationRow} {e : RelationEntry} (h : RelationRow.entry r = some e) :
    r.type = some e.type := by
  unfold RelationRow.entry at h
  split at h
  · next htype =>
    cases h
    exact htype
  · cases h

theorem mem_listing {α : Type} {rows : Option (List α)} {e : α} (h : e ∈ (listing rows).2) :
    ∃ es, rows = some es ∧ e ∈ es := by
  match rows with
  | none => cases h
  | some [] => cases h
  | some (e' :: es) => exact ⟨_, rfl, h⟩

theorem listed_types {srv : Server} {bundle : ℕ} {w w' : World} {relations : List RelationEntry}
    (ht : LegalTypes w.store)
    (h : requireList (srv.getBundleRelations bundle) w = (.ok relations, w')) :
    ∀ r ∈ relations, EnsureRType r.type := by
  have hlist : relations = (srv.getBundleRelations bundle w).1.2 := by
    rw [requireList, bind_run, call] at h
    dsimp only at h
    split at h
    · cases h
      rfl
    · cases h
  intro e he
  rw [hlist, Server.getBundleRelations, Server.list, Server.ensureInitialized] at he
  split at he
  · split at he
    · cases he
    · rw [Server.cplOdbcGetBundleRelations, Server.query] at he
      split at he
      · cases he
      · obtain ⟨es, hread, hmem⟩ := mem_listing he
        obtain ⟨r, hr, hentry⟩ := mem_of_readAll hread e hmem
        have hrow := (srv.scan_perm _ _).mem_iff.mp hr
        obtain ⟨m, -, hm⟩ := List.mem_flatMap.mp hrow
        exact ht r (List.mem_filter.mp hm).1 e.type (entry_type hentry)
  · cases he

/-- Every info that the loop over a list of relations obtains is freed once and nothing else is,
if and only if each relation it gets to is harmless. The function lists the relations first. -/
theorem infos_freed_iff (srv : Server) (tbl : NameTable) (document : Json) :
    (∀ relations : List RelationEntry, (∀ r ∈ relations, EnsureRType r.type) → ∀ w,
      (FreesExactly (logOf (trackRelations srv tbl document relations) w) ↔
        AllHarmless srv tbl document relations w)) ∧
    ∀ bundles w, LegalTypes w.store →
      (FreesExactly (logOf (trackRelationsJson srv bundles tbl document) w) ↔
        HarmlessCall srv bundles tbl document w) := by
  constructor
  · intro relations htypes w
    exact (trackRelations_segment htypes document w).2
  · intro bundles w ht
    unfold logOf trackRelationsJson HarmlessCall
    split
    · next bundle =>
      rw [bind_run, quiet]
      rcases hlist : requireList (srv.getBundleRelations bundle) w with ⟨relations | relations, w'⟩
      · exact iff_of_true freesExactly_nil trivial
      · exact (trackRelations_segment (listed_types ht hlist) document w').2
    · exact iff_of_true freesExactly_nil trivial

/-- With an empty table both infos are asked for, with the source in the table only that of the
destination. -/
theorem destination_info_kept :
    logOf (trackRelationsJson .ideal [1] [] .null) ⟨prefixedStore, 0⟩ =
      [.info 4 .ok, .info 5 .ok, .free (some 4)] ∧
    ¬ FreesExactly (logOf (trackRelationsJson .ideal [1] [] .null) ⟨prefixedStore, 0⟩) ∧
    logOf (trackRelationsJson .ideal [1] [(2, "p:e1")] .null) ⟨prefixedStore, 0⟩ =
      [.info 4 .ok, .free none] ∧
    ¬ FreesExactly
      (logOf (trackRelationsJson .ideal [1] [(2, "p:e1")] .null) ⟨prefixedStore, 0⟩) := by
  have hboth : logOf (trackRelationsJson .ideal [1] [] .null) ⟨prefixedStore, 0⟩ =
      [.info 4 .ok, .info 5 .ok, .free (some 4)] := rfl
  have hone : logOf (trackRelationsJson .ideal [1] [(2, "p:e1")] .null) ⟨prefixedStore, 0⟩ =
      [.info 4 .ok, .free none] := rfl
  rw [hboth, hone]
  exact ⟨rfl, not_exact_second isOk_ok (by decide), rfl, not_exact_unassigned⟩

/-- With the destination in the table the info of the source is obtained and freed. -/
theorem source_info_freed :
    FreesExactly
      (logOf (trackRelationsJson .ideal [1] [(3, "p:e2")] .null) ⟨prefixedStore, 0⟩) := by
  have ht : LegalTypes prefixedStore := by
    intro r hr type htype
    revert type
    revert r
    decide
  have hcall : HarmlessCall .ideal [1] [(3, "p:e2")] .null ⟨prefixedStore, 0⟩ :=
    ⟨.inl rfl, trivial⟩
  exact ((infos_freed_iff .ideal [(3, "p:e2")] .null).2 [1] ⟨prefixedStore, 0⟩ ht).mpr hcall

end Function

end InfoTokens
