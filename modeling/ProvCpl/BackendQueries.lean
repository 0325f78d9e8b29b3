import ProvCpl.PreparedQueries
import ProvCpl.SqlStatements

/-! # The queries of the backend

Every prepared SELECT statement as the backend sends it, run on the tables of the setup script,
and what the operation makes of the rows that it fetches. What an operation can report is exactly
what can be read off an answer of its statement. -/
namespace BackendQueries

open CplTypes QualifiedName ProvStore ProvServer SqlSelect SqlStatements PreparedQueries EarlyExit

def column (c : String) : Operand := .column ⟨0, c⟩

def columns (cs : List String) : List ColumnRef := cs.map fun c => ⟨0, c⟩

def newestFirst (q : Query) (c : String) : Query := { q with newest := some ⟨0, c⟩ }

def lookupObjectNtStmts : Query :=
  newestFirst (ofSelect ⟨["id"], "cpl_objects", ["prefix", "name"], some 1⟩) "creation_time"

def lookupObjectTStmts : Query :=
  newestFirst (ofSelect ⟨["id"], "cpl_objects", ["prefix", "name", "type"], some 1⟩)
    "creation_time"

def lookupObjectNtExtStmts : Query :=
  ofSelect ⟨["id", "creation_time"], "cpl_objects", ["prefix", "name"], none⟩

def lookupObjectTExtStmts : Query :=
  ofSelect ⟨["id", "creation_time"], "cpl_objects", ["prefix", "name", "type"], none⟩

def lookupObjectPropertyWildcardStmts : Query where
  distinct := false
  columns := columns ["id"]
  sources := ["cpl_object_properties"]
  condition := .like (column "value") (.param 0)
  newest := none
  limit := none
  params := 1

def getAllObjectsNtStmts : Query where
  distinct := false
  columns := columns ["id", "creation_time", "prefix", "name", "type"]
  sources := ["cpl_objects"]
  condition := .both (.exceeds (column "id") (.number 0)) (.equals (column "prefix") (.param 0))
  newest := none
  limit := none
  params := 1

def getAllObjectsTStmts : Query where
  distinct := false
  columns := columns ["id", "creation_time", "prefix", "name", "type"]
  sources := ["cpl_objects"]
  condition := .both (.exceeds (column "id") (.number 0))
    (.both (.equals (column "prefix") (.param 0)) (.equals (column "type") (.param 1)))
  newest := none
  limit := none
  params := 2

def hasImmediateAncestorStmts : Query :=
  ofSelect ⟨["id"], "cpl_relations", ["from_id", "to_id"], none⟩

/-- The sources are `C`, `R1` and `R2`. -/
def getBundleObjectsStmts : Query where
  distinct := true
  columns := columns ["id", "creation_time", "prefix", "name", "type"]
  sources := ["cpl_objects", "cpl_relations", "cpl_relations"]
  condition := .both (.equals (.column ⟨1, "from_id"⟩) (.param 0))
    (.both (.equals (.column ⟨1, "type"⟩) (.number 20))
      (.both (.equals (.column ⟨1, "to_id"⟩) (.column ⟨2, "id"⟩))
        (.either (.equals (.column ⟨2, "from_id"⟩) (column "id"))
          (.equals (.column ⟨2, "to_id"⟩) (column "id")))))
  newest := none
  limit := none
  params := 1

/-- The sources are `R` and `RinB`. -/
def getBundleRelationsStmts : Query where
  distinct := false
  columns := columns ["id", "from_id", "to_id", "type"]
  sources := ["cpl_relations", "cpl_relations"]
  condition := .both (.equals (.column ⟨1, "from_id"⟩) (.param 0))
    (.both (.equals (.column ⟨1, "type"⟩) (.number 20))
      (.equals (column "id") (.column ⟨1, "to_id"⟩)))
  newest := none
  limit := none
  params := 1

/-- A call of an operation of the backend that selects. Prefixes are listed: a call for one
prefix does not get as far as its statement. -/
inductive Request where
  | lookupObject (nsPrefix name : String) (type : ℤ)
  | lookupObjectExt (nsPrefix name : String) (type flags : ℤ)
  | lookupRelation (fromId toId : ℕ) (type : ℤ)
  | lookupObjectPropertyWildcard (value : String)
  | lookupObjectByProperty (nsPrefix key value : String) (type : ℤ)
  | getAllObjects (nsPrefix : Option String) (flags type : ℤ)
  | getObjectInfo (id : ℕ)
  | getObjectRelations (id : ℕ) (direction : ℤ)
  | hasImmediateAncestor (objectId queryObjectId : ℕ)
  | getObjectProperties (id : ℕ) (nsPrefix key : Option String) (type : ℤ)
  | getRelationProperties (id : ℕ) (nsPrefix key : Option String) (type : ℤ)
  | getBundleObjects (id : ℕ)
  | getBundleRelations (id : ℕ)
  | getPrefixes (id : ℕ)
  deriving DecidableEq, Repr

abbrev Request.Result : Request → Type
  | .lookupObject .. | .lookupRelation .. | .lookupObjectPropertyWildcard _ => Option ℕ
  | .lookupObjectExt .. => List IdTimestamp
  | .lookupObjectByProperty .. => List ℕ
  | .getAllObjects .. | .getBundleObjects _ => List ObjectInfo
  | .getObjectInfo _ => Option ObjectInfo
  | .getObjectRelations .. | .getBundleRelations _ => List RelationEntry
  | .hasImmediateAncestor .. => Option ℤ
  | .getObjectProperties .. | .getRelationProperties .. => List PropertyEntry
  | .getPrefixes _ => List PrefixEntry

def Request.run (srv : Server) : (q : Request) → Call World (ReturnCode × q.Result)
  | .lookupObject p n t => srv.cplOdbcLookupObject p n t
  | .lookupObjectExt p n t flags => srv.cplOdbcLookupObjectExt p n t flags
  | .lookupRelation f o t => srv.cplOdbcLookupRelation f o t
  | .lookupObjectPropertyWildcard v => srv.cplOdbcLookupObjectPropertyWildcard v
  | .lookupObjectByProperty p k v t => srv.cplOdbcLookupObjectByProperty p k v t
  | .getAllObjects p flags t => srv.cplOdbcGetAllObjects p flags t
  | .getObjectInfo id => srv.cplOdbcGetObjectInfo id
  | .getObjectRelations id direction => srv.cplOdbcGetObjectRelations id direction
  | .hasImmediateAncestor o q => srv.cplOdbcHasImmediateAncestor o q
  | .getObjectProperties id p k t => srv.cplOdbcGetObjectProperties id p k t
  | .getRelationProperties id p k t => srv.cplOdbcGetRelationProperties id p k t
  | .getBundleObjects id => srv.cplOdbcGetBundleObjects id
  | .getBundleRelations id => srv.cplOdbcGetBundleRelations id
  | .getPrefixes id => srv.runGetPrefixes id none

/-- The statement that is chosen and the parameters in the order in which they are bound. -/
def Request.statement : Request → Query × List Value
  | .lookupObject p n t =>
    if t = 0 then (lookupObjectNtStmts, [.text p, .text n])
    else (lookupObjectTStmts, [.text p, .text n, .integer t])
  | .lookupObjectExt p n t _ =>
    if t = 0 then (lookupObjectNtExtStmts, [.text p, .text n])
    else (lookupObjectTExtStmts, [.text p, .text n, .integer t])
  | .lookupRelation f o t => (ofSelect lookupRelationStmts, [.integer f, .integer o, .integer t])
  | .lookupObjectPropertyWildcard v => (lookupObjectPropertyWildcardStmts, [.text v])
  | .lookupObjectByProperty p k v t =>
    (ofSelect lookupObjectByPropertyStmts, [.text p, .text k, .text v, .integer t])
  | .getAllObjects p _ t =>
    if t = 0 then (getAllObjectsNtStmts, [textOrNull p])
    else (getAllObjectsTStmts, [textOrNull p, .integer t])
  | .getObjectInfo id => (ofSelect getObjectInfoStmts, [.integer id])
  | .getObjectRelations id direction =>
    if direction = cplDAncestors then (ofSelect getObjectAncestorsStmts, [.integer id])
    else (ofSelect getObjectDescendantsStmts, [.integer id])
  | .hasImmediateAncestor o q => (hasImmediateAncestorStmts, [.integer q, .integer o])
  | .getObjectProperties id p k t =>
    (ofSelect (objectPropertiesQuery id p k t).1, (objectPropertiesQuery id p k t).2)
  | .getRelationProperties id p k t =>
    (ofSelect (relationPropertiesQuery id p k t).1, (relationPropertiesQuery id p k t).2)
  | .getBundleObjects id => (getBundleObjectsStmts, [.integer id])
  | .getBundleRelations id => (getBundleRelationsStmts, [.integer id])
  | .getPrefixes id => (ofSelect (prefixesQuery id none).1, (prefixesQuery id none).2)

/-! How the fetched columns are read. -/

def readFirstId (rows : List (List Value)) : ReturnCode × Option ℕ :=
  match rows.filterMap readId with
  | [] => (.notFound, none)
  | id :: _ => (.ok, some id)

def readIdTimestamp : List Value → Option IdTimestamp
  | [.integer id, .integer time] => some ⟨id.toNat, time.toNat⟩
  | _ => none

def readObject : List Value → Option ObjectInfo
  | [.integer id, .integer time, .text p, .text n, .integer t] =>
    some ⟨id.toNat, time.toNat, fetchText (cplPrefixLen + 1) p, fetchText (cplNameLen + 1) n, t⟩
  | _ => none

def textOf : Value → String
  | .text s => s
  | _ => ""

/-- A NULL type ends the fetch as if there were no row. -/
def readInfo (id : ℕ) : List (List Value) → ReturnCode × Option ObjectInfo
  | [.integer time, p, n, .integer t] :: _ =>
    (.ok, some ⟨id, time.toNat, fetchText 4096 (textOf p), fetchText 4096 (textOf n), t⟩)
  | _ => (.notFound, none)

def readSeenFrom (id : ℕ) : List Value → Option RelationEntry
  | [.integer r, .integer other, .integer t] => some ⟨r.toNat, id, other.toNat, t⟩
  | _ => none

def readRelation : List Value → Option RelationEntry
  | [.integer r, .integer f, .integer o, .integer t] => some ⟨r.toNat, f.toNat, o.toNat, t⟩
  | _ => none

def Request.readRows : (q : Request) → List (List Value) → ReturnCode × q.Result
  | .lookupObject .., rows | .lookupRelation .., rows | .lookupObjectPropertyWildcard _, rows =>
    readFirstId rows
  | .lookupObjectExt .., rows =>
    match rows.filterMap readIdTimestamp with
    | [] => (.notFound, [])
    | e :: entries => (.ok, e :: entries)
  | .lookupObjectByProperty .., rows => reportIds (rows.filterMap readId)
  | .getAllObjects .., rows | .getBundleObjects _, rows => listing (readAll readObject rows)
  | .getObjectInfo id, rows => readInfo id rows
  | .getObjectRelations id _, rows => listing (readAll (readSeenFrom id) rows)
  | .hasImmediateAncestor .., rows => (.ok, some (if rows.isEmpty then 0 else 1))
  | .getObjectProperties .., rows | .getRelationProperties .., rows =>
    listing (some (rows.filterMap readProperty))
  | .getBundleRelations _, rows => listing (readAll readRelation rows)
  | .getPrefixes _, rows => listing (some (rows.filterMap readPrefix))

def Request.nothing : (q : Request) → q.Result
  | .lookupObject .. | .lookupRelation .. | .lookupObjectPropertyWildcard _ => none
  | .lookupObjectExt .. | .lookupObjectByProperty .. | .getAllObjects .. => []
  | .getObjectInfo _ | .hasImmediateAncestor .. => none
  | .getObjectRelations .. | .getObjectProperties .. | .getRelationProperties .. => []
  | .getBundleObjects _ | .getBundleRelations _ | .getPrefixes _ => []

def Request.read (q : Request) : Option (List (List Value)) → ReturnCode × q.Result
  | none => (.statementError, q.nothing)
  | some rows => q.readRows rows

def Answered (srv : Server) (calls : ℕ) : Prop := (srv.outcome calls).failure = none

section Refinement

def moveTail (scan : {α : Type} → List α → List α) {α : Type} : List α → List α
  | [] => []
  | a :: l => a :: scan l

def swapFirst {α : Type} : List α → List α
  | a :: b :: l => b :: a :: l
  | l => l

/-- Any order of a list is what some server makes of it. -/
theorem exists_arrangement {ρ : Type} {rows order : List ρ} (h : rows.Perm order) :
    ∃ scan : {α : Type} → List α → List α,
      (∀ {α : Type} (l : List α), (scan l).Perm l) ∧ scan rows = order := by
  induction h with
  | nil => exact ⟨fun l => l, fun l => List.Perm.refl l, rfl⟩
  | cons a _ ih =>
    obtain ⟨scan, hp, hs⟩ := ih
    refine ⟨moveTail scan, fun l => ?_, congrArg (a :: ·) hs⟩
    cases l with
    | nil => exact List.Perm.refl []
    | cons b l => exact (hp l).cons b
  | swap a b l =>
    refine ⟨swapFirst, fun l => ?_, rfl⟩
    match l with
    | [] => exact List.Perm.refl []
    | [b] => exact List.Perm.refl [b]
    | b :: c :: l => exact List.Perm.swap b c l
  | trans _ _ ih ih' =>
    obtain ⟨scan, hp, rfl⟩ := ih
    obtain ⟨scan', hp', rfl⟩ := ih'
    exact ⟨fun l => scan' (scan l), fun l => (hp' _).trans (hp l), rfl⟩

variable {ρ α : Type} {q : Query} {params : List Value} {s : Store} {calls : ℕ}
  {read : Option (List (List Value)) → ReturnCode × α}
  {c : Server → Call World (ReturnCode × α)}

/-- What the operation can report is what can be read off an answer of the statement. -/
def Refines (q : Query) (params : List Value) (s : Store) (calls : ℕ)
    (read : Option (List (List Value)) → ReturnCode × α)
    (c : Server → Call World (ReturnCode × α)) : Prop :=
  ∀ result, (∃ srv, Answered srv calls ∧ (c srv ⟨s, calls⟩).1 = result) ↔
    ∃ response, q.Responds (database s) params response ∧ read response = result

/-- The rows that a statement selects reach the operation in the order of the server. -/
theorem refines_rows (rows : List ρ) {cut : List ρ → List ρ} {cols : ρ → List Value}
    (hstmt : ∀ answer, q.Answers (database s) params answer ↔
      ∃ order : List ρ, order.Perm rows ∧ answer = (cut order).map cols)
    (hrun : ∀ srv, Answered srv calls →
      (c srv ⟨s, calls⟩).1 = read (some ((cut (srv.scan calls rows)).map cols))) :
    Refines q params s calls read c := by
  intro result
  constructor
  · rintro ⟨srv, ha, rfl⟩
    refine ⟨some ((cut (srv.scan calls rows)).map cols), ?_, (hrun srv ha).symm⟩
    exact (hstmt _).mpr ⟨srv.scan calls rows, srv.scan_perm calls rows, rfl⟩
  · rintro ⟨response, hr, rfl⟩
    cases response with
    | none =>
      obtain ⟨all, order, hm, -⟩ := (hstmt _).mpr ⟨rows, List.Perm.refl rows, rfl⟩
      rw [Query.Responds, hm] at hr
      cases hr
    | some answer =>
      obtain ⟨order, hp, rfl⟩ := (hstmt answer).mp hr
      obtain ⟨scan, hscan, rfl⟩ := exists_arrangement hp.symm
      exact ⟨⟨true, fun _ => .success, id, fun _ => scan, fun _ => hscan⟩, rfl, hrun _ rfl⟩

theorem refines_refused (hm : q.matching (database s) params = none)
    (hrun : ∀ srv, Answered srv calls → (c srv ⟨s, calls⟩).1 = read none) :
    Refines q params s calls read c := by
  intro result
  constructor
  · rintro ⟨srv, ha, rfl⟩
    exact ⟨none, hm, (hrun srv ha).symm⟩
  · rintro ⟨response, hr, rfl⟩
    cases response with
    | none => exact ⟨Server.ideal, rfl, hrun _ rfl⟩
    | some answer =>
      obtain ⟨all, order, hall, -⟩ := hr
      rw [hm] at hall
      cases hall

theorem refines_select (query : Select × List Value) {report : List (List Value) → ReturnCode × α}
    {nothing : α} (hread : ∀ response, read response =
      match response with
      | none => (.statementError, nothing)
      | some rows => report rows) :
    Refines (ofSelect query.1) query.2 s calls read fun srv => srv.select query report nothing := by
  cases hm : query.1.matching (database s) query.2 with
  | none =>
    refine refines_refused ?_ fun srv ha => ?_
    · rw [ofSelect_matching, hm]
      rfl
    · rw [hread]
      exact select_refused (w := ⟨s, calls⟩) query ha hm
  | some all =>
    refine refines_rows all (fun answer => ofSelect_answers hm) fun srv ha => ?_
    rw [hread]
    exact (select_answers (w := ⟨s, calls⟩) query ha hm).2

end Refinement

section Statements

variable {s : Store} {calls : ℕ} {p n : String} {t : ℤ} {id : ℕ}

def objectCols (r : ObjectRow) : List Value :=
  [.integer r.id, .integer r.creationTime, textOrNull r.nsPrefix, textOrNull r.name,
    integerOrNull r.type]

theorem textOrNull_eq (o : Option String) (v : String) :
    textOrNull o = .text v ↔ o = some v := by
  cases o <;> simp [textOrNull]

theorem objectCols_injective : Function.Injective objectCols := by
  intro r r' h
  obtain ⟨id, p, n, t, time⟩ := r
  obtain ⟨id', p', n', t', time'⟩ := r'
  simp only [objectCols, List.cons.injEq, Value.integer.injEq, Nat.cast_inj] at h
  obtain ⟨rfl, rfl, hp, hn, ht, -⟩ := h
  have htext : ∀ {o o' : Option String}, textOrNull o = textOrNull o' → o = o' := by
    intro o o' h
    cases o <;> cases o' <;> simp_all [textOrNull]
  have hinteger : ∀ {o o' : Option ℤ}, integerOrNull o = integerOrNull o' → o = o' := by
    intro o o' h
    cases o <;> cases o' <;> simp_all [integerOrNull]
  rw [htext hp, htext hn, hinteger ht]

theorem readObject_cols (r : ObjectRow) : readObject (objectCols r) = ObjectRow.info r := by
  obtain ⟨id, p, n, t, time⟩ := r
  cases p <;> cases n <;> cases t <;> rfl

theorem readAll_map {β γ δ : Type} (f : γ → Option δ) (g : β → γ) (l : List β) :
    readAll f (l.map g) = readAll (fun r => f (g r)) l := by
  induction l with
  | nil => rfl
  | cons r l ih => simp only [List.map_cons, readAll, ih]

theorem readObjects_cols (l : List ObjectRow) :
    readAll readObject (l.map objectCols) = readAll ObjectRow.info l := by
  rw [readAll_map]
  simp only [readObject_cols]

theorem listing_answers {ρ : Type} {q : Query} {params : List Value} {rows : List ρ}
    {env : ρ → Combination} {cols : ρ → List Value} (hd : q.distinct = false)
    (hn : q.newest = none) (hlim : q.limit = none)
    (hm : q.matching (database s) params = some (rows.map env))
    (hc : ∀ r, q.project (env r) = cols r) (answer : List (List Value)) :
    q.Answers (database s) params answer ↔
      ∃ order : List ρ, order.Perm rows ∧ answer = order.map cols := by
  have hproject : (rows.map env).map q.project = rows.map cols := by
    rw [List.map_map]
    exact List.map_congr_left fun r _ => hc r
  rw [answers_rows hd hn hm hproject]
  simp only [Query.cut, hlim]

theorem matching_objectsNamed {q : Query} {params : List Value}
    (hs : q.sources = ["cpl_objects"]) (hf : q.Fits [objectColumns])
    (hl : params.length = q.params) (hp : q.condition.Plain)
    (hq : ∀ r, q.condition.eval [objectCells r] params = some true ↔
      r.nsPrefix = some p ∧ r.name = some n ∧ (t ≠ 0 → r.type = some t)) :
    q.matching (database s) params =
      some ((s.objectsNamed p n t).map fun r => [objectCells r]) :=
  matching_of_rows hs rfl hf hl hp fun r _ => hq r

theorem lookupObject_answers (answer : List (List Value)) :
    (Request.lookupObject p n t).statement.1.Answers (database s)
        (Request.lookupObject p n t).statement.2 answer ↔
      ∃ order : List ObjectRow, order.Perm (s.objectsNamed p n t) ∧
        answer = (latest order).toList.map fun r => [.integer r.id] := by
  by_cases ht : t = 0
  · rw [Request.statement, if_pos ht]
    have hm : lookupObjectNtStmts.matching (database s) [.text p, .text n] =
        some ((s.objectsNamed p n t).map fun r => [objectCells r]) := by
      apply matching_objectsNamed rfl (by decide) rfl (by decide)
      intro r
      simp [lookupObjectNtStmts, newestFirst, ofSelect, allEqual, objectCells, textOrNull_eq, ht,
        Condition.eval]
    exact answers_newest rfl rfl rfl hm (fun r => rfl) fun r => rfl
  · rw [Request.statement, if_neg ht]
    have hm : lookupObjectTStmts.matching (database s) [.text p, .text n, .integer t] =
        some ((s.objectsNamed p n t).map fun r => [objectCells r]) := by
      apply matching_objectsNamed rfl (by decide) rfl (by decide)
      intro r
      simp [lookupObjectTStmts, newestFirst, ofSelect, allEqual, objectCells, textOrNull_eq,
        integerOrNull_eq, ht, Condition.eval]
    exact answers_newest rfl rfl rfl hm (fun r => rfl) fun r => rfl

theorem lookupObjectExt_answers (flags : ℤ) (answer : List (List Value)) :
    (Request.lookupObjectExt p n t flags).statement.1.Answers (database s)
        (Request.lookupObjectExt p n t flags).statement.2 answer ↔
      ∃ order : List ObjectRow, order.Perm (s.objectsNamed p n t) ∧
        answer = order.map fun r => [.integer r.id, .integer r.creationTime] := by
  by_cases ht : t = 0
  · rw [Request.statement, if_pos ht]
    have hm : lookupObjectNtExtStmts.matching (database s) [.text p, .text n] =
        some ((s.objectsNamed p n t).map fun r => [objectCells r]) := by
      apply matching_objectsNamed rfl (by decide) rfl (by decide)
      intro r
      simp [lookupObjectNtExtStmts, ofSelect, allEqual, objectCells, textOrNull_eq, ht,
        Condition.eval]
    exact listing_answers rfl rfl rfl hm (fun r => rfl) answer
  · rw [Request.statement, if_neg ht]
    have hm : lookupObjectTExtStmts.matching (database s) [.text p, .text n, .integer t] =
        some ((s.objectsNamed p n t).map fun r => [objectCells r]) := by
      apply matching_objectsNamed rfl (by decide) rfl (by decide)
      intro r
      simp [lookupObjectTExtStmts, ofSelect, allEqual, objectCells, textOrNull_eq,
        integerOrNull_eq, ht, Condition.eval]
    exact listing_answers rfl rfl rfl hm (fun r => rfl) answer

/-- NULL is equal to no prefix. -/
theorem equals_prefix (q : Option String) (r : ObjectRow) :
    (textOrNull q ≠ .null ∧ textOrNull r.nsPrefix = textOrNull q) ↔
      q.isSome ∧ r.nsPrefix = q := by
  cases q with
  | none => simp [textOrNull]
  | some q =>
    have hq : textOrNull (some q) = .text q := rfl
    simp [hq, textOrNull_eq]

theorem eval_positive (r : ObjectRow) (params : List Value) :
    (Condition.exceeds (column "id") (.number 0)).eval [objectCells r] params = some true ↔
      r.id > 0 := by
  simp [Condition.eval, column, objectCells]

theorem getAllObjects_answers (q : Option String) (flags : ℤ) (answer : List (List Value)) :
    (Request.getAllObjects q flags t).statement.1.Answers (database s)
        (Request.getAllObjects q flags t).statement.2 answer ↔
      ∃ order : List ObjectRow, order.Perm (s.objectsWithPrefix q t) ∧
        answer = order.map objectCols := by
  by_cases ht : t = 0
  · rw [Request.statement, if_pos ht]
    have hm : getAllObjectsNtStmts.matching (database s) [textOrNull q] =
        some ((s.objectsWithPrefix q t).map fun r => [objectCells r]) := by
      apply matching_of_rows rfl rfl (by decide) rfl (by decide)
      intro r _
      rw [getAllObjectsNtStmts, eval_both, eval_positive, eval_equals]
      simpa [ht, column, objectCells] using fun _ => equals_prefix q r
    exact listing_answers rfl rfl rfl hm (fun r => rfl) answer
  · rw [Request.statement, if_neg ht]
    have hm : getAllObjectsTStmts.matching (database s) [textOrNull q, .integer t] =
        some ((s.objectsWithPrefix q t).map fun r => [objectCells r]) := by
      apply matching_of_rows rfl rfl (by decide) rfl (by decide)
      intro r _
      rw [getAllObjectsTStmts, eval_both, eval_positive, eval_both, eval_equals, eval_equals,
        ← and_assoc, ← and_assoc]
      have hprefix := equals_prefix q r
      simp only [column, eval_column, eval_param, cell_zero, objectCells] at hprefix ⊢
      simp [ht, integerOrNull_eq]
      tauto
    exact listing_answers rfl rfl rfl hm (fun r => rfl) answer

theorem matching_wildcard (value : String) :
    lookupObjectPropertyWildcardStmts.matching (database s) [.text value] =
      (propertiesLike s value).map (·.map fun r => [propertyCells r]) := by
  rw [matching_of_table rfl rfl (by decide) rfl, propertiesLike]
  have heval : ∀ r : PropertyRow, lookupObjectPropertyWildcardStmts.condition.eval
      [propertyCells r] [.text value] = LikePattern.like value r.value := fun r => rfl
  simp only [heval]
  by_cases hall : ∀ r ∈ s.objectProperties, (LikePattern.like value r.value).isSome
  · rw [if_pos hall, if_pos hall]
    rfl
  · rw [if_neg hall, if_neg hall]
    rfl

/-- The condition of a join that speaks of one row only can be asked first. -/
theorem flatMap_filter_and {ρ σ : Type} (l : List ρ) (m : List σ) (A : ρ → Prop)
    (B : ρ → σ → Prop) [DecidablePred A] [∀ a, DecidablePred (B a)] :
    l.flatMap (fun a => m.filter fun b => A a ∧ B a b) =
      (l.filter fun a => A a).flatMap fun a => m.filter fun b => B a b := by
  induction l with
  | nil => rfl
  | cons a l ih =>
    rw [List.flatMap_cons, ih]
    by_cases ha : A a
    · rw [List.filter_cons_of_pos (by simpa using ha), List.flatMap_cons]
      simp [ha]
    · rw [List.filter_cons_of_neg (by simpa using ha)]
      simp [ha]

def relationCols (r : RelationRow) : List Value :=
  [.integer r.id, integerOrNull (r.fromId.map Int.ofNat), integerOrNull (r.toId.map Int.ofNat),
    integerOrNull r.type]

theorem integerOrNull_ofNat (o : Option ℕ) (n : ℕ) :
    integerOrNull (o.map Int.ofNat) = .integer n ↔ o = some n := by
  rw [integerOrNull_eq, Option.map_eq_some_iff]
  simp

theorem equals_reference (o : Option ℕ) (n : ℕ) :
    (integerOrNull (o.map Int.ofNat) ≠ .null ∧
      Value.integer n = integerOrNull (o.map Int.ofNat)) ↔ o = some n := by
  rw [← integerOrNull_ofNat]
  constructor
  · exact fun h => h.2.symm
  · intro h
    simp [h]

/-- The membership stands second, the relation that it puts into the bundle first. -/
theorem eval_bundleRelations (r m : RelationRow) :
    getBundleRelationsStmts.condition.eval [relationCells r, relationCells m] [.integer id] =
        some true ↔
      (m.fromId = some id ∧ m.type = some bundleRelation) ∧ m.toId = some r.id := by
  rw [getBundleRelationsStmts, eval_both, eval_both, eval_equals, eval_equals, eval_equals,
    ← and_assoc, ← equals_reference m.toId]
  simp [column, relationCells, integerOrNull_eq, bundleRelation]

theorem matching_bundleRelations (s : Store) (id : ℕ) : ∃ all,
    getBundleRelationsStmts.matching (database s) [.integer id] = some all ∧
      all.map getBundleRelationsStmts.project = (s.bundleRelations id).map relationCols := by
  have ht : getBundleRelationsStmts.sources.mapM (database s) =
      some [⟨relationColumns, s.relations.map relationCells⟩,
        ⟨relationColumns, s.relations.map relationCells⟩] := rfl
  have hf : getBundleRelationsStmts.Fits [relationColumns, relationColumns] := by decide
  refine ⟨_, matching_of_tables ht hf rfl (by decide), ?_⟩
  have hsec : (List.map Table.rows [⟨relationColumns, s.relations.map relationCells⟩,
      ⟨relationColumns, s.relations.map relationCells⟩]).sections =
      s.relations.flatMap fun m => s.relations.map fun r => [relationCells r, relationCells m] := by
    simp [List.sections, List.flatMap_map, Function.comp_def]
  rw [hsec, List.filter_flatMap, List.map_flatMap, Store.bundleRelations, Store.memberships,
    ← flatMap_filter_and, List.map_flatMap]
  congr 1
  funext m
  rw [List.filter_map, List.map_map]
  have hfilter : ∀ r : RelationRow,
      (fun rows => decide (getBundleRelationsStmts.condition.eval rows [.integer id] =
        some true)) [relationCells r, relationCells m] =
      decide ((m.fromId = some id ∧ m.type = some bundleRelation) ∧ m.toId = some r.id) := by
    intro r
    simp only [eval_bundleRelations]
  exact (congrArg _ (List.filter_congr fun r _ => hfilter r)).trans
    (List.map_congr_left fun r _ => rfl)

/-- The object comes first, then the membership and the relation in the bundle. -/
theorem eval_bundleObjects (c : ObjectRow) (m r : RelationRow) :
    getBundleObjectsStmts.condition.eval [objectCells c, relationCells m, relationCells r]
        [.integer id] = some true ↔
      (m.fromId = some id ∧ m.type = some bundleRelation) ∧ m.toId = some r.id ∧
        (r.fromId = some c.id ∨ r.toId = some c.id) := by
  rw [getBundleObjectsStmts, eval_both, eval_both, eval_both,
    eval_either (by decide) (by decide)]
  simp only [eval_equals, ← and_assoc]
  simp [column, relationCells, objectCells, integerOrNull_eq, bundleRelation]

theorem mem_bundleObjects {c : ObjectRow} : c ∈ s.bundleObjects id ↔ c ∈ s.objects ∧
    ∃ m ∈ s.relations, ∃ r ∈ s.relations, (m.fromId = some id ∧
      m.type = some bundleRelation) ∧ m.toId = some r.id ∧
        (r.fromId = some c.id ∨ r.toId = some c.id) := by
  simp only [Store.bundleObjects, Store.bundleRelations, Store.memberships, List.mem_dedup,
    List.mem_flatMap, List.mem_filter, decide_eq_true_eq]
  constructor
  · rintro ⟨r, ⟨m, ⟨hm, hin⟩, hr, hto⟩, hc, hend⟩
    exact ⟨hc, m, hm, r, hr, hin, hto, hend⟩
  · rintro ⟨hc, m, hm, r, hr, hin, hto, hend⟩
    exact ⟨r, ⟨m, ⟨hm, hin⟩, hr, hto⟩, hc, hend⟩

theorem getBundleObjects_answers (answer : List (List Value)) :
    getBundleObjectsStmts.Answers (database s) [.integer id] answer ↔
      ∃ order : List ObjectRow, order.Perm (s.bundleObjects id) ∧
        answer = order.map objectCols := by
  have ht : getBundleObjectsStmts.sources.mapM (database s) =
      some [⟨objectColumns, s.objects.map objectCells⟩,
        ⟨relationColumns, s.relations.map relationCells⟩,
        ⟨relationColumns, s.relations.map relationCells⟩] := rfl
  have hf : getBundleObjectsStmts.Fits [objectColumns, relationColumns, relationColumns] := by
    decide
  apply answers_distinct rfl rfl rfl (matching_of_tables ht hf rfl (by decide))
  · exact (List.nodup_dedup _).map objectCols_injective
  · intro v
    simp only [List.mem_map, List.mem_filter, List.mem_sections, mem_bundleObjects,
      decide_eq_true_eq, List.map_cons, List.map_nil]
    constructor
    · rintro ⟨rows, ⟨hall, hcond⟩, rfl⟩
      rcases hall with _ | ⟨hc, _ | ⟨hm, _ | ⟨hr, _ | _⟩⟩⟩
      obtain ⟨c, hc', rfl⟩ := List.mem_map.mp hc
      obtain ⟨m, hm', rfl⟩ := List.mem_map.mp hm
      obtain ⟨r, hr', rfl⟩ := List.mem_map.mp hr
      exact ⟨c, ⟨hc', m, hm', r, hr', (eval_bundleObjects c m r).mp hcond⟩, rfl⟩
    · rintro ⟨c, ⟨hc, m, hm, r, hr, hcond⟩, rfl⟩
      refine ⟨[objectCells c, relationCells m, relationCells r], ⟨?_, ?_⟩, rfl⟩
      · exact .cons (List.mem_map_of_mem hc) (.cons (List.mem_map_of_mem hm)
          (.cons (List.mem_map_of_mem hr) .nil))
      · exact (eval_bundleObjects c m r).mpr hcond

theorem getBundleRelations_answers (answer : List (List Value)) :
    getBundleRelationsStmts.Answers (database s) [.integer id] answer ↔
      ∃ order : List RelationRow, order.Perm (s.bundleRelations id) ∧
        answer = order.map relationCols := by
  obtain ⟨all, hm, hproject⟩ := matching_bundleRelations s id
  exact answers_rows rfl rfl hm hproject

theorem select_rows {ρ : Type} {query : Select} {params : List Value} {rows : List ρ}
    {cells : ρ → Row} {cols : ρ → List Value}
    (hm : query.matching (database s) params = some (rows.map cells))
    (hc : ∀ r, query.project (cells r) = cols r) (answer : List (List Value)) :
    (ofSelect query).Answers (database s) params answer ↔
      ∃ order : List ρ, order.Perm rows ∧ answer = (ofSelect query).cut (order.map cols) := by
  have hmq : (ofSelect query).matching (database s) params =
      some (rows.map fun r => [cells r]) := by
    rw [ofSelect_matching, hm, Option.map_some, List.map_map]
    rfl
  refine answers_rows rfl rfl hmq ?_
  rw [List.map_map]
  refine List.map_congr_left fun r _ => ?_
  rw [← hc r]
  simp [Query.project, ofSelect, Select.project]

end Statements

section Operations

variable {s : Store} {calls : ℕ}

theorem query_answered {α : Type} {srv : Server} {read : ℕ → Store → ReturnCode × α} {nothing : α}
    (h : Answered srv calls) : (srv.query read nothing ⟨s, calls⟩).1 = read calls s := by
  rw [Answered] at h
  simp only [Server.query, h]

def Request.Faithful (s : Store) (calls : ℕ) (q : Request) : Prop :=
  Refines q.statement.1 q.statement.2 s calls q.read fun srv => q.run srv

variable {p n : String} {t flags direction : ℤ} {id : ℕ} {q k : Option String}

theorem lookupObject_faithful : (Request.lookupObject p n t).Faithful s calls := by
  apply refines_rows (s.objectsNamed p n t) lookupObject_answers
  intro srv ha
  rw [Request.run, Server.cplOdbcLookupObject, query_answered ha]
  cases latest (srv.scan calls (s.objectsNamed p n t)) with
  | none => rfl
  | some r => rfl

theorem lookupObjectExt_faithful : (Request.lookupObjectExt p n t flags).Faithful s calls := by
  apply refines_rows (s.objectsNamed p n t) (lookupObjectExt_answers flags)
  intro srv ha
  rw [Request.run, Server.cplOdbcLookupObjectExt, query_answered ha]
  have hread : ∀ order : List ObjectRow,
      (order.map fun r => [Value.integer r.id, .integer r.creationTime]).filterMap
        readIdTimestamp = order.map fun r => ⟨r.id, r.creationTime⟩ := by
    intro order
    induction order with
    | nil => rfl
    | cons r order ih => exact congrArg (⟨r.id, r.creationTime⟩ :: ·) ih
  rw [Request.read, Request.readRows, hread]
  cases srv.scan calls (s.objectsNamed p n t) with
  | nil => rfl
  | cons r rows => rfl

theorem lookupObjectPropertyWildcard_faithful :
    (Request.lookupObjectPropertyWildcard p).Faithful s calls := by
  have hm := matching_wildcard (s := s) p
  cases hp : propertiesLike s p with
  | none =>
    apply refines_refused (by rw [Request.statement, hm, hp]; rfl)
    intro srv ha
    rw [Request.run, Server.cplOdbcLookupObjectPropertyWildcard, query_answered ha, hp]
    rfl
  | some rows =>
    rw [hp, Option.map_some] at hm
    apply refines_rows rows (listing_answers rfl rfl rfl hm fun r => rfl)
    intro srv ha
    rw [Request.run, Server.cplOdbcLookupObjectPropertyWildcard, query_answered ha, hp]
    dsimp only
    cases srv.scan calls rows with
    | nil => rfl
    | cons r rows => rfl

theorem getAllObjects_faithful : (Request.getAllObjects q flags t).Faithful s calls := by
  apply refines_rows (s.objectsWithPrefix q t) (getAllObjects_answers q flags)
  intro srv ha
  rw [Request.run, Server.cplOdbcGetAllObjects, query_answered ha, Request.read,
    Request.readRows, readObjects_cols]

theorem getBundleObjects_faithful : (Request.getBundleObjects id).Faithful s calls := by
  apply refines_rows (s.bundleObjects id) getBundleObjects_answers
  intro srv ha
  rw [Request.run, Server.cplOdbcGetBundleObjects, query_answered ha, Request.read,
    Request.readRows, readObjects_cols]

theorem readRelation_cols (r : RelationRow) :
    readRelation (relationCols r) = RelationRow.entry r := by
  obtain ⟨id, f, o, t⟩ := r
  cases f <;> cases o <;> cases t <;> rfl

theorem getBundleRelations_faithful : (Request.getBundleRelations id).Faithful s calls := by
  apply refines_rows (s.bundleRelations id) getBundleRelations_answers
  intro srv ha
  rw [Request.run, Server.cplOdbcGetBundleRelations, query_answered ha, Request.read,
    Request.readRows, readAll_map]
  simp only [readRelation_cols]

def infoCols (r : ObjectRow) : List Value :=
  [.integer r.creationTime, textOrNull r.nsPrefix, textOrNull r.name, integerOrNull r.type]

theorem getObjectInfo_answers (answer : List (List Value)) :
    (Request.getObjectInfo id).statement.1.Answers (database s)
        (Request.getObjectInfo id).statement.2 answer ↔
      ∃ order : List ObjectRow, order.Perm (s.objects.filter fun r => r.id = id) ∧
        answer = (order.take 1).map infoCols := by
  have hc : ∀ r, getObjectInfoStmts.project (objectCells r) = infoCols r := fun r => rfl
  rw [Request.statement, select_rows matching_objectInfo hc]
  simp only [Query.cut, ofSelect, getObjectInfoStmts, List.map_take]

theorem getObjectInfo_faithful : (Request.getObjectInfo id).Faithful s calls := by
  apply refines_rows (s.objects.filter fun r => r.id = id) getObjectInfo_answers
  intro srv ha
  rw [Request.run, Server.cplOdbcGetObjectInfo, query_answered ha]
  cases srv.scan calls (s.objects.filter fun r => r.id = id) with
  | nil => rfl
  | cons r rows =>
    obtain ⟨i, p, n, t, time⟩ := r
    cases p <;> cases n <;> cases t <;> rfl

theorem readSeenFrom_cols (other : RelationRow → Option ℕ) (r : RelationRow) :
    readSeenFrom id [.integer r.id, integerOrNull ((other r).map Int.ofNat),
      integerOrNull r.type] = RelationRow.seenFrom id other r := by
  rw [RelationRow.seenFrom]
  cases other r <;> cases r.type <;> rfl

theorem getObjectRelations_faithful :
    (Request.getObjectRelations id direction).Faithful s calls := by
  by_cases hd : direction = cplDAncestors
  · apply refines_rows (s.relationsFrom id)
    · intro answer
      rw [Request.statement, if_pos hd]
      exact select_rows matching_ancestors (fun r => rfl) answer
    · intro srv ha
      rw [Request.run, Server.cplOdbcGetObjectRelations, query_answered ha, if_pos hd,
        Request.read, Request.readRows, readAll_map]
      exact congrArg (fun f => listing (readAll f _)) (funext fun r =>
        (readSeenFrom_cols (·.toId) r).symm)
  · apply refines_rows (s.relationsTo id)
    · intro answer
      rw [Request.statement, if_neg hd]
      exact select_rows matching_descendants (fun r => rfl) answer
    · intro srv ha
      rw [Request.run, Server.cplOdbcGetObjectRelations, query_answered ha, if_neg hd,
        Request.read, Request.readRows, readAll_map]
      exact congrArg (fun f => listing (readAll f _)) (funext fun r =>
        (readSeenFrom_cols (·.fromId) r).symm)

theorem hasImmediateAncestor_faithful (o query : ℕ) :
    (Request.hasImmediateAncestor o query).Faithful s calls := by
  have hm : hasImmediateAncestorStmts.matching (database s) [.integer query, .integer o] =
      some ((s.relationsBetween query o).map fun r => [relationCells r]) := by
    apply matching_of_rows rfl rfl (by decide) rfl (by decide)
    intro r _
    simp [hasImmediateAncestorStmts, ofSelect, allEqual, relationCells, integerOrNull_eq,
      Condition.eval]
  apply refines_rows (s.relationsBetween query o) (listing_answers rfl rfl rfl hm fun r => rfl)
  intro srv ha
  rw [Request.run, Server.cplOdbcHasImmediateAncestor, query_answered ha]
  cases srv.scan calls (s.relationsBetween query o) with
  | nil => rfl
  | cons r rows => rfl

def propertyCols (r : PropertyRow) : List Value :=
  [.integer r.id, .text r.nsPrefix, .text r.name, .text r.value]

theorem properties_answers {query : Select × List Value} {found : List PropertyRow}
    (hq : query.1.columns = ["id", "prefix", "name", "value"] ∧ query.1.limit = none)
    (hm : query.1.matching (database s) query.2 = some (found.map propertyCells))
    (answer : List (List Value)) :
    (ofSelect query.1).Answers (database s) query.2 answer ↔
      ∃ order : List PropertyRow, order.Perm found ∧ answer = order.map propertyCols := by
  have hc : ∀ r, query.1.project (propertyCells r) = propertyCols r := by
    intro r
    rw [Select.project, hq.1]
    rfl
  rw [select_rows hm hc]
  simp only [Query.cut, ofSelect, hq.2]

theorem readProperties_cols (order : List PropertyRow) :
    (order.map propertyCols).filterMap readProperty = order.map propertyEntry := by
  induction order with
  | nil => rfl
  | cons r order ih => exact congrArg (propertyEntry r :: ·) ih

theorem getObjectProperties_faithful :
    (Request.getObjectProperties id q k t).Faithful s calls := by
  have hreads : (objectPropertiesQuery id q k t).1.columns = ["id", "prefix", "name", "value"] ∧
      (objectPropertiesQuery id q k t).1.limit = none :=
    propertiesQuery_reads ⟨rfl, rfl⟩ ⟨rfl, rfl⟩ id q k t
  apply refines_rows (propertiesOf s.objectProperties id q k t)
    (properties_answers hreads matching_objectProperties)
  intro srv ha
  rw [Request.run, Server.cplOdbcGetObjectProperties, query_answered ha, Request.read,
    Request.readRows, readProperties_cols]

theorem getRelationProperties_faithful :
    (Request.getRelationProperties id q k t).Faithful s calls := by
  have hreads : (relationPropertiesQuery id q k t).1.columns =
      ["id", "prefix", "name", "value"] ∧ (relationPropertiesQuery id q k t).1.limit = none :=
    propertiesQuery_reads ⟨rfl, rfl⟩ ⟨rfl, rfl⟩ id q k t
  apply refines_rows (propertiesOf s.relationProperties id q k t)
    (properties_answers hreads matching_relationProperties)
  intro srv ha
  rw [Request.run, Server.cplOdbcGetRelationProperties, query_answered ha, Request.read,
    Request.readRows, readProperties_cols]

theorem lookupRelation_faithful (f o : ℕ) : (Request.lookupRelation f o t).Faithful s calls := by
  apply refines_select (lookupRelationStmts, [.integer f, .integer o, .integer t])
  intro response
  cases response <;> rfl

theorem lookupObjectByProperty_faithful (nsPrefix key value : String) :
    (Request.lookupObjectByProperty nsPrefix key value t).Faithful s calls := by
  apply refines_select (lookupObjectByPropertyStmts,
    [.text nsPrefix, .text key, .text value, .integer t])
  intro response
  cases response <;> rfl

theorem getPrefixes_faithful : (Request.getPrefixes id).Faithful s calls := by
  apply refines_select (prefixesQuery id none)
  intro response
  cases response <;> rfl

end Operations

end BackendQueries
