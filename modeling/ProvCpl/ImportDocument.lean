import ProvCpl.JsonValue
import ProvCpl.ProvServer

/-! # Import of a PROV-JSON document

The importer is a program over the front end. Its helpers end with the codes of the source,
and the caller's label turns each of these into an internal error. -/
namespace ImportDocument

open CplTypes QualifiedName JsonValue ProvServer EarlyExit

abbrev Api (α : Type) := Prog World Stop α

abbrev LookupTable := List (String × ℕ)

def cplJExternObj : ℤ := 1

/-- The caller goes on with the id that a call gives; a failure is an internal error. -/
def requireId (c : Call World (ReturnCode × Option ℕ)) : Api ℕ := do
  let out ← call c
  if out.1.IsOk then
    match out.2 with
    | some id => pure id
    | none => leave .undefined
  else leave (.ret .internalError)

def requireOk (c : Call World ReturnCode) : Api Unit := do
  let r ← call c
  if r.IsOk then pure () else leave (.ret .internalError)

/-- A call whose code is not looked at. -/
def callUnchecked (c : Call World ReturnCode) : Api Unit := do
  let _ ← call c

/-- The label `error`: every failure becomes an internal error, an exception passes. -/
def gotoError (m : Api α) : Api α :=
  mapExit (fun
    | .ret _ => .ret .internalError
    | e => e) m

def importBundlePrefix (srv : Server) (bundle : ℕ) (e : String × Json) : Api Unit :=
  if e.2.IsScalar then do
    let iri ← orThrow e.2.getString
    requireOk (srv.addPrefix bundle (some (cStr e.1)) (some (cStr iri)))
  else leave (.ret .invalidJson)

def importBundlePrefixesJson (srv : Server) (bundle : ℕ) (document : Json) : Api Unit :=
  match document.find "prefix" with
  | none => pure ()
  | some prefixes =>
    if prefixes.isObject then forEach (importBundlePrefix srv bundle) prefixes.members
    else leave (.ret .invalidJson)

structure PropertyWriter where
  addString : ℕ → Option String → Option String → Option String → Call World ReturnCode
  addNumerical : ℕ → Option String → Option String → FloatText.BinaryFloat →
    Call World ReturnCode
  addBoolean : ℕ → Option String → Option String → Bool → Call World ReturnCode

def objectWriter (srv : Server) : PropertyWriter where
  addString := srv.addObjectStringProperty
  addNumerical := srv.addObjectNumericalProperty
  addBoolean := srv.addObjectBooleanProperty

def relationWriter (srv : Server) : PropertyWriter where
  addString := srv.addRelationStringProperty
  addNumerical := srv.addRelationNumericalProperty
  addBoolean := srv.addRelationBooleanProperty

/-- The switch on the type of a member. -/
def importProperty (out : PropertyWriter) (id : ℕ) (e : String × Json) : Api Unit := do
  let pair := nameToTokens e.1
  let p := some (cStr pair.1)
  let k := some (cStr pair.2)
  match e.2 with
  | .string s => callUnchecked (out.addString id p k (some (cStr s)))
  | .integer n => callUnchecked (out.addNumerical id p k (FloatText.float.ofInt n))
  | .unsigned n => callUnchecked (out.addNumerical id p k (FloatText.float.ofInt n))
  | .float x => callUnchecked (out.addNumerical id p k (FloatText.float.cast x))
  | .boolean b => callUnchecked (out.addBoolean id p k b)
  | _ => leave (.ret .invalidArgument)

def importProperties (out : PropertyWriter) (id : ℕ) (properties : Json) : Api Unit := do
  let items ← orThrow properties.items
  forEach (importProperty out id) items

def importObject (srv : Server) (type : ℤ) (lookupTbl : LookupTable) (e : String × Json) :
    Api LookupTable := do
  let pair := nameToTokens e.1
  let objId ← requireId (srv.createObject (some (cStr pair.1)) (some (cStr pair.2)) type)
  importProperties (objectWriter srv) objId e.2
  pure (OrderedMap.emplace e.1 objId lookupTbl)

def importObjectsJson (srv : Server) (type : ℤ) (typeStr : String) (lookupTbl : LookupTable)
    (document : Json) : Api LookupTable :=
  match document.find typeStr with
  | none => pure lookupTbl
  | some o =>
    if o.isObject then fold (importObject srv type) lookupTbl o.members
    else leave (.ret .invalidJson)

/-- One end of a relation, by the table or else, when external objects are allowed, by a
lookup in the store. -/
def importEndpoint (srv : Server) (lookupTbl : LookupTable) (externObjF : Bool) (record : Json)
    (key : String) (type : ℤ) : Api ℕ :=
  match record.find key with
  | none => leave (.ret .invalidJson)
  | some v => do
    let objName ← orThrow v.getString
    match OrderedMap.find objName lookupTbl with
    | some id => pure id
    | none =>
      if externObjF then
        let pair := nameToTokens objName
        requireId (srv.lookupObject (some (cStr pair.1)) (some (cStr pair.2)) type)
      else leave (.ret .internalError)

/-- The loop over the members compares the name of the record, not that of the member, with
the endpoint keys; so the endpoints are stored as properties too. -/
def importRelation (srv : Server) (bundleId : ℕ) (lookupTbl : LookupTable) (externObjF : Bool)
    (entry : ProvRelationData) (e : String × Json) : Api Unit := do
  let source ← importEndpoint srv lookupTbl externObjF e.2 entry.sourceStr entry.sourceT
  let dest ← importEndpoint srv lookupTbl externObjF e.2 entry.destStr entry.destT
  let relationId ← requireId (srv.addRelation source dest entry.type)
  requireOk (codeOnly (srv.addRelation bundleId relationId bundleRelation))
  if e.1 ≠ entry.sourceStr ∧ e.1 ≠ entry.destStr then
    importProperties (relationWriter srv) relationId e.2
  else pure ()

def importRelationSection (srv : Server) (bundleId : ℕ) (lookupTbl : LookupTable)
    (document : Json) (externObjF : Bool) (entry : ProvRelationData) : Api Unit :=
  match document.find entry.typeStr with
  | none => pure ()
  | some relations =>
    if relations.isObject then
      forEach (importRelation srv bundleId lookupTbl externObjF entry) relations.members
    else leave (.ret .invalidJson)

def importRelationsJson (srv : Server) (bundleId : ℕ) (lookupTbl : LookupTable)
    (document : Json) (externObjF : Bool) : Api Unit :=
  forEach (importRelationSection srv bundleId lookupTbl document externObjF) relationSections

/-- An anchor that names no stored object is skipped. -/
def connectAnchor (srv : Server) (bundleId : ℕ) (idString : ℕ × String) : Api Unit := do
  let pair := nameToTokens idString.2
  let found ← call
    (srv.lookupObject (some (cStr pair.1)) (some (cStr pair.2)) (cplNone : ℕ))
  if found.1.IsOk then
    match found.2 with
    | none => leave .undefined
    | some source => do
      let relationId ← requireId (srv.addRelation source idString.1 alternateOf)
      requireOk (codeOnly (srv.addRelation bundleId relationId bundleRelation))
  else pure ()

def importContents (srv : Server) (document : Json) (bundleName : String)
    (anchorObjects : List (ℕ × String)) (externObjF : Bool) : Api ℕ := do
  let bundleId ← requireId (srv.createObject (some (cStr bundleName)) (some "") cplBundle)
  importBundlePrefixesJson srv bundleId document
  let tbl1 ← importObjectsJson srv cplEntity cplEntityStr [] document
  let tbl2 ← importObjectsJson srv cplAgent cplAgentStr tbl1 document
  let tbl3 ← importObjectsJson srv cplActivity cplActivityStr tbl2 document
  forEach (connectAnchor srv bundleId) anchorObjects
  importRelationsJson srv bundleId tbl3 document externObjF
  pure bundleId

/-- The parser is a parameter, none standing for its exception. The flags are combined by a
logical, not a bitwise, conjunction. -/
def importDocument (parse : String → Option Json) (srv : Server) (jsonString bundleName : String)
    (anchorObjects : List (ℕ × String)) (flags : ℤ) : Api ℕ := do
  let document ← orThrow (parse jsonString)
  let externObjF := decide (flags ≠ 0 ∧ cplJExternObj ≠ 0)
  if document.equalsNull ∨ document.isEmpty then leave (.ret .internalError)
  else if ¬ document.isObject then leave (.ret .invalidJson)
  else gotoError (importContents srv document bundleName anchorObjects externObjF)

/-- The call with its out parameter: `none` is a null pointer, `some v` one that points to a
variable holding `v`. -/
def importDocumentJson (parse : String → Option Json) (srv : Server)
    (jsonString bundleName : String) (anchorObjects : List (ℕ × String)) (flags : ℤ)
    (outId : Option ℕ) : Call World (Stop × Option ℕ) := fun w =>
  match importDocument parse srv jsonString bundleName anchorObjects flags w with
  | (.ok bundleId, w') => ((.ret .ok, outId.map fun _ => bundleId), w')
  | (.error stop, w') => ((stop, outId), w')

/-- The first part of the import: the bundle, its prefixes and the objects of the document. -/
def objectStage (srv : Server) (document : Json) (bundleName : String) : Api (ℕ × LookupTable) := do
  let bundleId ← requireId (srv.createObject (some (cStr bundleName)) (some "") cplBundle)
  importBundlePrefixesJson srv bundleId document
  let tbl1 ← importObjectsJson srv cplEntity cplEntityStr [] document
  let tbl2 ← importObjectsJson srv cplAgent cplAgentStr tbl1 document
  let tbl3 ← importObjectsJson srv cplActivity cplActivityStr tbl2 document
  pure (bundleId, tbl3)

theorem importContents_stage (srv : Server) (document : Json) (bundleName : String)
    (anchorObjects : List (ℕ × String)) (externObjF : Bool) :
    importContents srv document bundleName anchorObjects externObjF =
      (do
        let out ← objectStage srv document bundleName
        forEach (connectAnchor srv out.1) anchorObjects
        importRelationsJson srv out.1 out.2 document externObjF
        pure out.1) := by
  simp only [objectStage, bind_bind]
  rfl

theorem importBundlePrefixesJson_eq (srv : Server) (bundle : ℕ) (document : Json) :
    importBundlePrefixesJson srv bundle document =
      if (document.find "prefix").all Json.isObject then
        forEach (importBundlePrefix srv bundle) (document.membersAt "prefix")
      else leave (.ret .invalidJson) := by
  unfold importBundlePrefixesJson Json.membersAt
  cases document.find "prefix" <;> rfl

theorem importObjectsJson_eq (srv : Server) (type : ℤ) (typeStr : String)
    (lookupTbl : LookupTable) (document : Json) :
    importObjectsJson srv type typeStr lookupTbl document =
      if (document.find typeStr).all Json.isObject then
        fold (importObject srv type) lookupTbl (document.membersAt typeStr)
      else leave (.ret .invalidJson) := by
  unfold importObjectsJson Json.membersAt
  cases document.find typeStr <;> rfl

theorem importRelationSection_eq (srv : Server) (bundleId : ℕ) (lookupTbl : LookupTable)
    (document : Json) (externObjF : Bool) (entry : ProvRelationData) :
    importRelationSection srv bundleId lookupTbl document externObjF entry =
      if (document.find entry.typeStr).all Json.isObject then
        forEach (importRelation srv bundleId lookupTbl externObjF entry)
          (document.membersAt entry.typeStr)
      else leave (.ret .invalidJson) := by
  unfold importRelationSection Json.membersAt
  cases document.find entry.typeStr <;> rfl

theorem importDocument_object {parse : String → Option Json} {jsonString : String}
    {members : List (String × Json)} (hp : parse jsonString = some (.object members))
    (hne : members ≠ []) (srv : Server) (bundleName : String) (anchors : List (ℕ × String))
    (flags : ℤ) (w : World) :
    importDocument parse srv jsonString bundleName anchors flags w =
      gotoError (importContents srv (.object members) bundleName anchors
        (decide (flags ≠ 0 ∧ cplJExternObj ≠ 0))) w := by
  have hnull : ¬ ((Json.object members).equalsNull = true ∨
      (Json.object members).isEmpty = true) := by
    simp [Json.equalsNull, Json.isEmpty, hne]
  have hobj : ¬ ¬ (Json.object members).isObject = true := by simp [Json.isObject]
  unfold importDocument
  rw [bind_run, hp]
  simp only [orThrow, pure_run]
  rw [if_neg hnull, if_neg hobj]

theorem importDocument_exit {parse : String → Option Json} {srv : Server}
    {jsonString bundleName : String} {anchors : List (ℕ × String)} {flags : ℤ} {w : World}
    {stop : Stop} (h : (importDocument parse srv jsonString bundleName anchors flags w).1 =
      .error stop) : stop ≠ .ret .ok := by
  have hexit : Triple (fun _ => True)
      (importDocument parse srv jsonString bundleName anchors flags) (fun _ _ => True)
      fun e _ => e ≠ .ret .ok := by
    refine triple_bind (Q := fun _ _ => True) ?_ fun document => ?_
    · cases parse jsonString with
      | none => exact triple_leave fun _ _ => by decide
      | some d => exact triple_pure fun _ _ => trivial
    · refine triple_ite (fun _ => triple_leave fun _ _ => by decide) fun _ => ?_
      refine triple_ite (fun _ => triple_leave fun _ _ => by decide) fun _ => ?_
      refine triple_mapExit (E := fun _ _ => True) (fun s _ => ?_) fun e _ _ => ?_
      · split <;> trivial
      · cases e <;> simp
  rcases hexit.cases (s := w) trivial with ⟨b, t, hr, -⟩ | ⟨e, t, hr, he⟩
  · rw [hr] at h
    cases h
  · rw [hr] at h
    cases h
    exact he

theorem importDocument_of_ok {parse : String → Option Json} {srv : Server}
    {jsonString bundleName : String} {anchors : List (ℕ × String)} {flags : ℤ}
    {outId : Option ℕ} {w : World}
    (h : (importDocumentJson parse srv jsonString bundleName anchors flags outId w).1.1 =
      .ret .ok) :
    let out := importDocumentJson parse srv jsonString bundleName anchors flags outId w
    ∃ b, importDocument parse srv jsonString bundleName anchors flags w = (.ok b, out.2) ∧
      out.1.2 = outId.map fun _ => b := by
  rcases hrun : importDocument parse srv jsonString bundleName anchors flags w with ⟨r, w'⟩
  rw [importDocumentJson, hrun] at h ⊢
  cases r with
  | error stop => exact absurd h (importDocument_exit (congrArg Prod.fst hrun))
  | ok b => exact ⟨b, rfl, rfl⟩

end ImportDocument
