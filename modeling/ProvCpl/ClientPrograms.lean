import ProvCpl.PropertyWrites
import ProvCpl.ImportAccepts
import ProvCpl.TakingTurns

/-! # Clients of the library, request by request

Each call of the front end runs at most one statement, so between two calls of a client the
statements of others may come. The importer is given here by the calls that it makes; run alone
it is the importer. Without anchors and external objects it uses ids in no other way than to
pass on those it was handed. -/
namespace ClientPrograms

open CplTypes QualifiedName JsonValue ProvServer ImportDocument ImportAccepts PropertyWrites
open TakingTurns EarlyExit

inductive PropertyValue where
  | string (v : Option String)
  | numerical (x : FloatText.BinaryFloat)
  | boolean (b : Bool)

inductive Request where
  | createObject (nsPrefix name : Option String) (type : ℤ)
  | lookupObject (nsPrefix name : Option String) (type : ℤ)
  | addRelation (fromId toId : ℕ) (type : ℤ)
  | addProperty (owner : Owner) (id : ℕ) (nsPrefix key : Option String) (value : PropertyValue)
  | addPrefix (id : ℕ) (nsPrefix iri : Option String)

/-- The code, and the id where the call has one to report. -/
abbrev Answer := ReturnCode × Option ℕ

def withoutId (c : Call World ReturnCode) : Call World Answer := fun w => (noId (c w).1, (c w).2)

def answer (srv : Server) : Request → Call World Answer
  | .createObject p n type => srv.createObject p n type
  | .lookupObject p n type => srv.lookupObject p n type
  | .addRelation f o type => srv.addRelation f o type
  | .addProperty owner id p k (.string v) => withoutId ((ownerWriter srv owner).addString id p k v)
  | .addProperty owner id p k (.numerical x) =>
    withoutId ((ownerWriter srv owner).addNumerical id p k x)
  | .addProperty owner id p k (.boolean b) =>
    withoutId ((ownerWriter srv owner).addBoolean id p k b)
  | .addPrefix id p i => withoutId (srv.addPrefix id p i)

abbrev Program := Dialogue Request Answer Stop

def stop (s : Stop) : Program α := .exit s

def orStop (o : Option α) : Program α := o.elim (stop .thrown) pure

def askId (q : Request) : Program ℕ := do
  let out ← request q
  if out.1.IsOk then out.2.elim (stop .undefined) pure else stop (.ret .internalError)

def askOk (q : Request) : Program Unit := do
  let out ← request q
  if out.1.IsOk then pure () else stop (.ret .internalError)

def askUnchecked (q : Request) : Program Unit := do
  let _ ← request q

def bundlePrefix (bundle : ℕ) (e : String × Json) : Program Unit :=
  if e.2.IsScalar then do
    let iri ← orStop e.2.getString
    askOk (.addPrefix bundle (some (cStr e.1)) (some (cStr iri)))
  else stop (.ret .invalidJson)

/-- A section of the document; anything but an object in its place is an error. -/
def overSection (document : Json) (key : String) (nothing : α)
    (f : List (String × Json) → Program α) : Program α :=
  match document.find key with
  | none => pure nothing
  | some o => if o.isObject then f o.members else stop (.ret .invalidJson)

def bundlePrefixes (bundle : ℕ) (document : Json) : Program Unit :=
  overSection document "prefix" () (eachOf (bundlePrefix bundle))

def property (owner : Owner) (id : ℕ) (e : String × Json) : Program Unit := do
  let pair := nameToTokens e.1
  let add := Request.addProperty owner id (some (cStr pair.1)) (some (cStr pair.2))
  match e.2 with
  | .string s => askUnchecked (add (.string (some (cStr s))))
  | .integer n => askUnchecked (add (.numerical (FloatText.float.ofInt n)))
  | .unsigned n => askUnchecked (add (.numerical (FloatText.float.ofInt n)))
  | .float x => askUnchecked (add (.numerical (FloatText.float.cast x)))
  | .boolean b => askUnchecked (add (.boolean b))
  | _ => stop (.ret .invalidArgument)

def properties (owner : Owner) (id : ℕ) (record : Json) : Program Unit := do
  let items ← orStop record.items
  eachOf (property owner id) items

def object (type : ℤ) (lookupTbl : LookupTable) (e : String × Json) : Program LookupTable := do
  let pair := nameToTokens e.1
  let objId ← askId (.createObject (some (cStr pair.1)) (some (cStr pair.2)) type)
  properties .object objId e.2
  pure (OrderedMap.emplace e.1 objId lookupTbl)

def objects (type : ℤ) (typeStr : String) (lookupTbl : LookupTable) (document : Json) :
    Program LookupTable :=
  overSection document typeStr lookupTbl (foldOver (object type) lookupTbl)

def endpoint (lookupTbl : LookupTable) (externObjF : Bool) (record : Json) (key : String)
    (type : ℤ) : Program ℕ :=
  match record.find key with
  | none => stop (.ret .invalidJson)
  | some v => do
    let objName ← orStop v.getString
    match OrderedMap.find objName lookupTbl with
    | some id => pure id
    | none =>
      if externObjF then
        let pair := nameToTokens objName
        askId (.lookupObject (some (cStr pair.1)) (some (cStr pair.2)) type)
      else stop (.ret .internalError)

def relation (bundleId : ℕ) (lookupTbl : LookupTable) (externObjF : Bool)
    (entry : ProvRelationData) (e : String × Json) : Program Unit := do
  let source ← endpoint lookupTbl externObjF e.2 entry.sourceStr entry.sourceT
  let dest ← endpoint lookupTbl externObjF e.2 entry.destStr entry.destT
  let relationId ← askId (.addRelation source dest entry.type)
  askOk (.addRelation bundleId relationId bundleRelation)
  if e.1 ≠ entry.sourceStr ∧ e.1 ≠ entry.destStr then properties .relation relationId e.2
  else pure ()

def relations (bundleId : ℕ) (lookupTbl : LookupTable) (document : Json) (externObjF : Bool) :
    Program Unit :=
  eachOf (fun entry => overSection document entry.typeStr ()
    (eachOf (relation bundleId lookupTbl externObjF entry))) relationSections

def anchor (bundleId : ℕ) (idString : ℕ × String) : Program Unit := do
  let pair := nameToTokens idString.2
  let found ← request
    (.lookupObject (some (cStr pair.1)) (some (cStr pair.2)) (cplNone : ℕ))
  if found.1.IsOk then
    match found.2 with
    | none => stop .undefined
    | some source => do
      let relationId ← askId (.addRelation source idString.1 alternateOf)
      askOk (.addRelation bundleId relationId bundleRelation)
  else pure ()

def contents (document : Json) (bundleName : String) (anchorObjects : List (ℕ × String))
    (externObjF : Bool) : Program ℕ := do
  let bundleId ← askId (.createObject (some (cStr bundleName)) (some "") cplBundle)
  bundlePrefixes bundleId document
  let tbl1 ← objects cplEntity cplEntityStr [] document
  let tbl2 ← objects cplAgent cplAgentStr tbl1 document
  let tbl3 ← objects cplActivity cplActivityStr tbl2 document
  eachOf (anchor bundleId) anchorObjects
  relations bundleId tbl3 document externObjF
  pure bundleId

/-- The label `error`. -/
def toError : Stop → Stop
  | .ret _ => .ret .internalError
  | e => e

def importProgram (parse : String → Option Json) (jsonString bundleName : String)
    (anchorObjects : List (ℕ × String)) (flags : ℤ) : Program ℕ := do
  let document ← orStop (parse jsonString)
  let externObjF := decide (flags ≠ 0 ∧ cplJExternObj ≠ 0)
  if document.equalsNull ∨ document.isEmpty then stop (.ret .internalError)
  else if ¬ document.isObject then stop (.ret .invalidJson)
  else renameExit toError (contents document bundleName anchorObjects externObjF)

section Alone

variable {srv : Server}

theorem run_orStop {α : Type} (o : Option α) :
    (orStop o).run (answer srv) = (orThrow o : Api α) := by
  cases o <;> rfl

theorem run_askId (q : Request) : (askId q).run (answer srv) = requireId (answer srv q) := by
  rw [askId, run_bind, run_request, requireId]
  refine congrArg _ (funext fun out => ?_)
  rw [run_ite]
  cases out.2 <;> rfl

theorem run_askOk {q : Request} {c : Call World ReturnCode} (h : codeOnly (answer srv q) = c) :
    (askOk q).run (answer srv) = requireOk c := by
  subst h
  rw [askOk, run_bind, run_request]
  funext w
  simp only [requireOk, bind_run, call, codeOnly, run_ite]
  rfl

theorem run_overSection {α : Type} (document : Json) (key : String) (nothing : α)
    {f : List (String × Json) → Program α} {g : List (String × Json) → Api α}
    (h : ∀ l, (f l).run (answer srv) = g l) :
    (overSection document key nothing f).run (answer srv) =
      match document.find key with
      | none => pure nothing
      | some o => if o.isObject then g o.members else leave (.ret .invalidJson) := by
  unfold overSection
  cases document.find key with
  | none => rfl
  | some o => exact (run_ite _ _).trans (by rw [h]; rfl)

theorem run_bundlePrefixes (bundle : ℕ) (document : Json) :
    (bundlePrefixes bundle document).run (answer srv) =
      importBundlePrefixesJson srv bundle document := by
  refine run_overSection document _ () fun l => run_eachOf (fun e => ?_) l
  simp only [bundlePrefix, run_ite, run_bind, run_orStop, run_askOk rfl]
  rfl

theorem run_property (owner : Owner) (id : ℕ) (e : String × Json) :
    (property owner id e).run (answer srv) = importProperty (ownerWriter srv owner) id e := by
  obtain ⟨n, v⟩ := e
  cases v <;> rfl

theorem run_properties (owner : Owner) (id : ℕ) (record : Json) :
    (properties owner id record).run (answer srv) =
      importProperties (ownerWriter srv owner) id record := by
  rw [properties, run_bind, run_orStop]
  exact congrArg _ (funext fun items => run_eachOf (run_property owner id) items)

theorem run_object (type : ℤ) (lookupTbl : LookupTable) (e : String × Json) :
    (object type lookupTbl e).run (answer srv) = importObject srv type lookupTbl e := by
  simp only [object, run_bind, run_askId, run_properties]
  rfl

theorem run_objects (type : ℤ) (typeStr : String) (lookupTbl : LookupTable) (document : Json) :
    (objects type typeStr lookupTbl document).run (answer srv) =
      importObjectsJson srv type typeStr lookupTbl document :=
  run_overSection document typeStr lookupTbl fun l =>
    run_foldOver (run_object type) lookupTbl l

theorem run_endpoint (lookupTbl : LookupTable) (externObjF : Bool) (record : Json) (key : String)
    (type : ℤ) : (endpoint lookupTbl externObjF record key type).run (answer srv) =
      importEndpoint srv lookupTbl externObjF record key type := by
  unfold endpoint importEndpoint
  cases record.find key with
  | none => rfl
  | some v =>
    rw [run_bind, run_orStop]
    refine congrArg _ (funext fun objName => ?_)
    cases OrderedMap.find objName lookupTbl with
    | some id => rfl
    | none =>
      refine (run_ite _ _).trans ?_
      simp only [run_askId]
      rfl

theorem run_relation (bundleId : ℕ) (lookupTbl : LookupTable) (externObjF : Bool)
    (entry : ProvRelationData) (e : String × Json) :
    (relation bundleId lookupTbl externObjF entry e).run (answer srv) =
      importRelation srv bundleId lookupTbl externObjF entry e := by
  simp only [relation, run_bind, run_endpoint, run_askId, run_askOk rfl, run_ite, run_properties]
  rfl

theorem run_relations (bundleId : ℕ) (lookupTbl : LookupTable) (document : Json)
    (externObjF : Bool) :
    (relations bundleId lookupTbl document externObjF).run (answer srv) =
      importRelationsJson srv bundleId lookupTbl document externObjF :=
  run_eachOf (fun entry => run_overSection document entry.typeStr () fun l =>
    run_eachOf (run_relation bundleId lookupTbl externObjF entry) l) relationSections

theorem run_anchor (bundleId : ℕ) (idString : ℕ × String) :
    (anchor bundleId idString).run (answer srv) = connectAnchor srv bundleId idString := by
  rw [anchor, run_bind, run_request]
  refine congrArg _ (funext fun found => ?_)
  refine (run_ite _ _).trans ?_
  cases found.2 with
  | none => rfl
  | some source =>
    simp only [run_bind, run_askId, run_askOk rfl]
    rfl

theorem run_contents (document : Json) (bundleName : String) (anchorObjects : List (ℕ × String))
    (externObjF : Bool) :
    (contents document bundleName anchorObjects externObjF).run (answer srv) =
      importContents srv document bundleName anchorObjects externObjF := by
  simp only [contents, run_bind, run_askId, run_bundlePrefixes, run_objects,
    run_eachOf (run_anchor _), run_relations]
  rfl

theorem run_importProgram (parse : String → Option Json) (jsonString bundleName : String)
    (anchorObjects : List (ℕ × String)) (flags : ℤ) :
    (importProgram parse jsonString bundleName anchorObjects flags).run (answer srv) =
      importDocument parse srv jsonString bundleName anchorObjects flags := by
  rw [importProgram, run_bind, run_orStop]
  refine congrArg _ (funext fun document => ?_)
  refine (run_ite _ _).trans ?_
  rw [run_ite, run_renameExit, run_contents]
  rfl

end Alone

/-! ## Other ids

`O` and `R` say which object or relation id stands for which. -/

section Names

variable {O R : ℕ → ℕ → Prop}

def destination (O R : ℕ → ℕ → Prop) (type : ℤ) : ℕ → ℕ → Prop :=
  if type = bundleRelation then R else O

def owning (O R : ℕ → ℕ → Prop) : Owner → ℕ → ℕ → Prop
  | .object => O
  | .relation => R

/-- One request under two names for the ids; no lookup is one. -/
inductive SameRequest (O R : ℕ → ℕ → Prop) : Request → Request → Prop where
  | createObject (p n : Option String) (type : ℤ) :
      SameRequest O R (.createObject p n type) (.createObject p n type)
  | addRelation {f f' o o' : ℕ} (type : ℤ) : O f f' → destination O R type o o' →
      SameRequest O R (.addRelation f o type) (.addRelation f' o' type)
  | addProperty {id id' : ℕ} (owner : Owner) (p k : Option String) (v : PropertyValue) :
      owning O R owner id id' →
      SameRequest O R (.addProperty owner id p k v) (.addProperty owner id' p k v)
  | addPrefix {id id' : ℕ} (p i : Option String) : O id id' →
      SameRequest O R (.addPrefix id p i) (.addPrefix id' p i)

structure SameAnswer (O R : ℕ → ℕ → Prop) (q : Request) (x x' : Answer) : Prop where
  code : x'.1 = x.1
  id : Option.Rel (match q with
    | .addRelation _ _ _ => R
    | _ => O) x.2 x'.2

/-- A program that uses ids only to pass on those that it was handed. -/
def Closed (V : (ℕ → ℕ → Prop) → (ℕ → ℕ → Prop) → α → α → Prop) (d : Program α) : Prop :=
  ∀ O R, Related (SameRequest O R) (SameAnswer O R) (V O R) d d

def SameNames (O : ℕ → ℕ → Prop) (tbl tbl' : LookupTable) : Prop :=
  ∀ n, Option.Rel O (OrderedMap.find n tbl) (OrderedMap.find n tbl')

theorem sameNames_nil : SameNames O [] [] := fun _ => .none

theorem SameNames.emplace {tbl tbl' : LookupTable} (h : SameNames O tbl tbl') (n : String)
    {id id' : ℕ} (hid : O id id') :
    SameNames O (OrderedMap.emplace n id tbl) (OrderedMap.emplace n id' tbl') := by
  intro m
  rw [OrderedMap.find_emplace, OrderedMap.find_emplace]
  by_cases hm : m = n
  · rw [if_pos hm, if_pos hm]
    have hn := h n
    generalize OrderedMap.find n tbl = i, OrderedMap.find n tbl' = i' at hn
    cases hn with
    | none => exact .some hid
    | some hj => exact .some hj
  · rw [if_neg hm, if_neg hm]
    exact h m

variable {V : α → α → Prop}

theorem related_stop (e : Stop) :
    Related (SameRequest O R) (SameAnswer O R) V (stop e) (stop e) := .exit e

theorem related_orStop (o : Option α) :
    Related (SameRequest O R) (SameAnswer O R) Eq (orStop o) (orStop o) := by
  cases o with
  | none => exact .exit Stop.thrown
  | some a => exact .done rfl

theorem related_askOk {q q' : Request} (h : SameRequest O R q q') :
    Related (SameRequest O R) (SameAnswer O R) Eq (askOk q) (askOk q') := by
  refine related_bind (related_request h) fun x x' hx => ?_
  rw [hx.code]
  exact related_ite (fun _ => .done rfl) fun _ => related_stop _

theorem related_askUnchecked {q q' : Request} (h : SameRequest O R q q') :
    Related (SameRequest O R) (SameAnswer O R) Eq (askUnchecked q) (askUnchecked q') :=
  related_bind (related_request h) fun _ _ _ => .done rfl

theorem related_createObject (p n : Option String) (type : ℤ) :
    Related (SameRequest O R) (SameAnswer O R) O (askId (.createObject p n type))
      (askId (.createObject p n type)) := by
  refine related_bind (related_request (.createObject p n type)) ?_
  rintro ⟨r, i⟩ ⟨r', i'⟩ ⟨rfl, hid⟩
  refine related_ite (fun _ => ?_) fun _ => related_stop _
  cases hid with
  | none => exact related_stop _
  | some h => exact .done h

theorem related_addRelation {f f' o o' : ℕ} (type : ℤ) (hf : O f f')
    (ho : destination O R type o o') :
    Related (SameRequest O R) (SameAnswer O R) R (askId (.addRelation f o type))
      (askId (.addRelation f' o' type)) := by
  refine related_bind (related_request (.addRelation type hf ho)) ?_
  rintro ⟨r, i⟩ ⟨r', i'⟩ ⟨rfl, hid⟩
  refine related_ite (fun _ => ?_) fun _ => related_stop _
  cases hid with
  | none => exact related_stop _
  | some h => exact .done h

theorem related_overSection (document : Json) (key : String) {a a' : α} (ha : V a a')
    {f f' : List (String × Json) → Program α}
    (h : ∀ l, Related (SameRequest O R) (SameAnswer O R) V (f l) (f' l)) :
    Related (SameRequest O R) (SameAnswer O R) V (overSection document key a f)
      (overSection document key a' f') := by
  unfold overSection
  cases document.find key with
  | none => exact .done ha
  | some o => exact related_ite (fun _ => h o.members) fun _ => related_stop _

theorem related_bundlePrefixes {b b' : ℕ} (hb : O b b') (document : Json) :
    Related (SameRequest O R) (SameAnswer O R) Eq (bundlePrefixes b document)
      (bundlePrefixes b' document) := by
  refine related_overSection document _ rfl fun l => related_eachOf fun e _ => ?_
  refine related_ite (fun _ => ?_) fun _ => related_stop _
  refine related_bind (related_orStop e.2.getString) fun iri _ hi => ?_
  subst hi
  exact related_askOk (.addPrefix _ _ hb)

theorem related_properties {owner : Owner} {id id' : ℕ} (h : owning O R owner id id')
    (record : Json) : Related (SameRequest O R) (SameAnswer O R) Eq (properties owner id record)
      (properties owner id' record) := by
  refine related_bind (related_orStop record.items) fun items _ hi => ?_
  subst hi
  refine related_eachOf fun e _ => ?_
  obtain ⟨n, v⟩ := e
  cases v with
  | null | array | object => exact related_stop _
  | _ => exact related_askUnchecked (.addProperty owner _ _ _ h)

theorem related_objects (type : ℤ) (typeStr : String) {tbl tbl' : LookupTable}
    (h : SameNames O tbl tbl') (document : Json) :
    Related (SameRequest O R) (SameAnswer O R) (SameNames O) (objects type typeStr tbl document)
      (objects type typeStr tbl' document) := by
  refine related_overSection document typeStr h fun l => related_foldOver (fun c c' e _ hc => ?_) h
  refine related_bind (related_createObject _ _ type) fun id id' hid => ?_
  refine related_bind (related_properties (show owning O R .object _ _ from hid) e.2)
    fun _ _ _ => ?_
  exact .done (hc.emplace e.1 hid)

theorem related_endpoint {tbl tbl' : LookupTable} (h : SameNames O tbl tbl') (record : Json)
    (key : String) (type : ℤ) :
    Related (SameRequest O R) (SameAnswer O R) O (endpoint tbl false record key type)
      (endpoint tbl' false record key type) := by
  unfold endpoint
  cases record.find key with
  | none => exact related_stop _
  | some v =>
    refine related_bind (related_orStop v.getString) fun n _ hn => ?_
    subst hn
    have hn := h n
    generalize OrderedMap.find n tbl = i, OrderedMap.find n tbl' = i' at hn
    cases hn with
    | none => exact related_stop _
    | some hid => exact .done hid

theorem related_relations {b b' : ℕ} (hb : O b b') {tbl tbl' : LookupTable}
    (h : SameNames O tbl tbl') (document : Json) :
    Related (SameRequest O R) (SameAnswer O R) Eq (relations b tbl document false)
      (relations b' tbl' document false) := by
  refine related_eachOf fun entry hentry => ?_
  have hne := (relationSections_ensureRType entry hentry).2
  refine related_overSection document _ rfl fun l => related_eachOf fun e _ => ?_
  refine related_bind (related_endpoint h e.2 _ _) fun f f' hf => ?_
  refine related_bind (related_endpoint h e.2 _ _) fun o o' ho => ?_
  refine related_bind (related_addRelation entry.type hf ?_) fun r r' hr => ?_
  · rwa [destination, if_neg hne]
  refine related_bind (related_askOk (.addRelation bundleRelation hb ?_)) fun _ _ _ => ?_
  · rwa [destination, if_pos rfl]
  exact related_ite (fun _ => related_properties (show owning O R .relation _ _ from hr) e.2)
    fun _ => .done rfl

theorem related_contents (document : Json) (bundleName : String) :
    Related (SameRequest O R) (SameAnswer O R) O (contents document bundleName [] false)
      (contents document bundleName [] false) := by
  refine related_bind (related_createObject _ _ _) fun b b' hb => ?_
  refine related_bind (related_bundlePrefixes hb document) fun _ _ _ => ?_
  refine related_bind (related_objects _ _ sameNames_nil document) fun tbl1 tbl1' h1 => ?_
  refine related_bind (related_objects _ _ h1 document) fun tbl2 tbl2' h2 => ?_
  refine related_bind (related_objects _ _ h2 document) fun tbl3 tbl3' h3 => ?_
  -- there are no anchors
  refine related_bind (V := Eq) (.done rfl) fun _ _ _ => ?_
  exact related_bind (related_relations hb h3 document) fun _ _ _ => .done hb

/-- The importer makes no use of the numbers that it is handed. -/
theorem closed_importProgram (parse : String → Option Json) (jsonString bundleName : String) :
    Closed (fun O _ => O) (importProgram parse jsonString bundleName [] 0) := by
  intro O R
  refine related_bind (related_orStop (parse jsonString)) fun document _ hd => ?_
  subst hd
  refine related_ite (fun _ => related_stop _) fun _ => ?_
  refine related_ite (fun _ => related_stop _) fun _ => ?_
  exact related_renameExit toError (related_contents document bundleName)

end Names

end ClientPrograms
