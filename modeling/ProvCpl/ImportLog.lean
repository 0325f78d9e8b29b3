import ProvCpl.ImportFrame
import ProvCpl.ProgramLog

/-! # The import with a log of its writes

The importer again, with each write logged under what it is made for: its number among the
backend calls, its code and the id that it gave. Lookups are not writes. Without the log it is
the importer of the source. -/
namespace ImportLog

open CplTypes QualifiedName JsonValue ProvStore ProvServer ImportDocument ImportFrame EarlyExit
open ProgramLog

inductive Write where
  | bundle
  | bundlePrefix (e : String × Json)
  | object (type : ℤ) (e : String × Json)
  | objectProperty (id : ℕ) (e : String × Json)
  | anchor (idString : ℕ × String)
  | relation (entry : ProvRelationData) (e : String × Json)
  | membership (relationId : ℕ)
  | relationProperty (id : ℕ) (e : String × Json)

def Write.IsProperty : Write → Prop
  | .objectProperty .. | .relationProperty .. => True
  | _ => False

instance : DecidablePred Write.IsProperty
  | .objectProperty .. | .relationProperty .. => .isTrue trivial
  | .bundle | .bundlePrefix _ | .object .. | .anchor _ | .relation .. | .membership _ =>
    .isFalse fun h => h

structure Attempt where
  write : Write
  /-- The number of the backend call. -/
  call : ℕ
  code : ReturnCode
  /-- The id that a creation gives. -/
  id : Option ℕ

abbrev Logged (α : Type) := Logging World Attempt Stop α

def Write.attemptId (write : Write) (w : World) (out : ReturnCode × Option ℕ) : Attempt :=
  ⟨write, w.calls, out.1, out.2⟩

def Write.attempt (write : Write) (w : World) (r : ReturnCode) : Attempt :=
  ⟨write, w.calls, r, none⟩

def logId (write : Write) (c : Call World (ReturnCode × Option ℕ)) : Logged ℕ := do
  let out ← logged write.attemptId c
  if out.1.IsOk then
    match out.2 with
    | some id => pure id
    | none => leave .undefined
  else leave (.ret .internalError)

def logOk (write : Write) (c : Call World ReturnCode) : Logged Unit := do
  let r ← logged write.attempt c
  if r.IsOk then pure () else leave (.ret .internalError)

def logUnchecked (write : Write) (c : Call World ReturnCode) : Logged Unit := do
  let _ ← logged write.attempt c

def logBundlePrefix (srv : Server) (bundle : ℕ) (e : String × Json) : Logged Unit :=
  if e.2.IsScalar then do
    let iri ← quiet (orThrow e.2.getString)
    logOk (.bundlePrefix e) (srv.addPrefix bundle (some (cStr e.1)) (some (cStr iri)))
  else leave (.ret .invalidJson)

def logBundlePrefixesJson (srv : Server) (bundle : ℕ) (document : Json) : Logged Unit :=
  if (document.find "prefix").all Json.isObject then
    forEach (logBundlePrefix srv bundle) (document.membersAt "prefix")
  else leave (.ret .invalidJson)

def logProperty (out : PropertyWriter) (write : ℕ → String × Json → Write) (id : ℕ)
    (e : String × Json) : Logged Unit := do
  let pair := nameToTokens e.1
  let p := some (cStr pair.1)
  let k := some (cStr pair.2)
  match e.2 with
  | .string s => logUnchecked (write id e) (out.addString id p k (some (cStr s)))
  | .integer n => logUnchecked (write id e) (out.addNumerical id p k (FloatText.float.ofInt n))
  | .unsigned n => logUnchecked (write id e) (out.addNumerical id p k (FloatText.float.ofInt n))
  | .float x => logUnchecked (write id e) (out.addNumerical id p k (FloatText.float.cast x))
  | .boolean b => logUnchecked (write id e) (out.addBoolean id p k b)
  | _ => leave (.ret .invalidArgument)

def logProperties (out : PropertyWriter) (write : ℕ → String × Json → Write) (id : ℕ)
    (properties : Json) : Logged Unit := do
  let items ← quiet (orThrow properties.items)
  forEach (logProperty out write id) items

def logObject (srv : Server) (type : ℤ) (lookupTbl : LookupTable) (e : String × Json) :
    Logged LookupTable := do
  let pair := nameToTokens e.1
  let objId ← logId (.object type e)
    (srv.createObject (some (cStr pair.1)) (some (cStr pair.2)) type)
  logProperties (objectWriter srv) .objectProperty objId e.2
  pure (OrderedMap.emplace e.1 objId lookupTbl)

def logObjectsJson (srv : Server) (type : ℤ) (typeStr : String) (lookupTbl : LookupTable)
    (document : Json) : Logged LookupTable :=
  if (document.find typeStr).all Json.isObject then
    fold (logObject srv type) lookupTbl (document.membersAt typeStr)
  else leave (.ret .invalidJson)

def logRelation (srv : Server) (bundleId : ℕ) (lookupTbl : LookupTable) (externObjF : Bool)
    (entry : ProvRelationData) (e : String × Json) : Logged Unit := do
  let source ← quiet (importEndpoint srv lookupTbl externObjF e.2 entry.sourceStr entry.sourceT)
  let dest ← quiet (importEndpoint srv lookupTbl externObjF e.2 entry.destStr entry.destT)
  let relationId ← logId (.relation entry e) (srv.addRelation source dest entry.type)
  logOk (.membership relationId)
    (codeOnly (srv.addRelation bundleId relationId bundleRelation))
  if e.1 ≠ entry.sourceStr ∧ e.1 ≠ entry.destStr then
    logProperties (relationWriter srv) .relationProperty relationId e.2
  else pure ()

def logRelationSection (srv : Server) (bundleId : ℕ) (lookupTbl : LookupTable)
    (document : Json) (externObjF : Bool) (entry : ProvRelationData) : Logged Unit :=
  if (document.find entry.typeStr).all Json.isObject then
    forEach (logRelation srv bundleId lookupTbl externObjF entry)
      (document.membersAt entry.typeStr)
  else leave (.ret .invalidJson)

def logRelationsJson (srv : Server) (bundleId : ℕ) (lookupTbl : LookupTable)
    (document : Json) (externObjF : Bool) : Logged Unit :=
  forEach (logRelationSection srv bundleId lookupTbl document externObjF) relationSections

def logAnchor (srv : Server) (bundleId : ℕ) (idString : ℕ × String) : Logged Unit := do
  let pair := nameToTokens idString.2
  let found ← quiet (call
    (srv.lookupObject (some (cStr pair.1)) (some (cStr pair.2)) (cplNone : ℕ)))
  if found.1.IsOk then
    match found.2 with
    | none => leave .undefined
    | some source => do
      let relationId ← logId (.anchor idString) (srv.addRelation source idString.1 alternateOf)
      logOk (.membership relationId)
        (codeOnly (srv.addRelation bundleId relationId bundleRelation))
  else pure ()

def logContents (srv : Server) (document : Json) (bundleName : String)
    (anchorObjects : List (ℕ × String)) (externObjF : Bool) : Logged ℕ := do
  let bundleId ← logId .bundle (srv.createObject (some (cStr bundleName)) (some "") cplBundle)
  logBundlePrefixesJson srv bundleId document
  let tbl1 ← logObjectsJson srv cplEntity cplEntityStr [] document
  let tbl2 ← logObjectsJson srv cplAgent cplAgentStr tbl1 document
  let tbl3 ← logObjectsJson srv cplActivity cplActivityStr tbl2 document
  forEach (logAnchor srv bundleId) anchorObjects
  logRelationsJson srv bundleId tbl3 document externObjF
  pure bundleId

def logStage (srv : Server) (document : Json) (bundleName : String) :
    Logged (ℕ × LookupTable) := do
  let bundleId ← logId .bundle (srv.createObject (some (cStr bundleName)) (some "") cplBundle)
  logBundlePrefixesJson srv bundleId document
  let tbl1 ← logObjectsJson srv cplEntity cplEntityStr [] document
  let tbl2 ← logObjectsJson srv cplAgent cplAgentStr tbl1 document
  let tbl3 ← logObjectsJson srv cplActivity cplActivityStr tbl2 document
  pure (bundleId, tbl3)

theorem logContents_stage (srv : Server) (document : Json) (bundleName : String)
    (anchorObjects : List (ℕ × String)) (externObjF : Bool) :
    logContents srv document bundleName anchorObjects externObjF =
      (do
        let out ← logStage srv document bundleName
        forEach (logAnchor srv out.1) anchorObjects
        logRelationsJson srv out.1 out.2 document externObjF
        pure out.1) := by
  simp only [logStage, bind_bind]
  rfl

def logDocument (parse : String → Option Json) (srv : Server) (jsonString bundleName : String)
    (anchorObjects : List (ℕ × String)) (flags : ℤ) : Logged ℕ := do
  let document ← quiet (orThrow (parse jsonString))
  let externObjF := decide (flags ≠ 0 ∧ cplJExternObj ≠ 0)
  if document.equalsNull ∨ document.isEmpty then leave (.ret .internalError)
  else if ¬ document.isObject then leave (.ret .invalidJson)
  else mapExit (fun
    | .ret _ => .ret .internalError
    | e => e) (logContents srv document bundleName anchorObjects externObjF)

section Erasure

variable {srv : Server} {write : Write}

theorem erases_logId {c : Call World (ReturnCode × Option ℕ)} :
    Erases (logId write c) (requireId c) := by
  refine erases_bind (erases_logged _ c) fun out => erases_ite ?_ (erases_leave _)
  cases out.2 with
  | none => exact erases_leave _
  | some id => exact erases_pure id

theorem erases_logOk {c : Call World ReturnCode} : Erases (logOk write c) (requireOk c) :=
  erases_bind (erases_logged _ c) fun _ => erases_ite (erases_pure ()) (erases_leave _)

theorem erases_logUnchecked {c : Call World ReturnCode} :
    Erases (logUnchecked write c) (callUnchecked c) :=
  erases_bind (erases_logged _ c) fun _ => erases_pure ()

theorem erases_logBundlePrefixesJson (bundle : ℕ) (document : Json) :
    Erases (logBundlePrefixesJson srv bundle document)
      (importBundlePrefixesJson srv bundle document) := by
  rw [importBundlePrefixesJson_eq]
  refine erases_ite (erases_forEach (fun e => ?_) _) (erases_leave _)
  exact erases_ite (erases_bind (erases_quiet _) fun _ => erases_logOk) (erases_leave _)

theorem erases_logProperty (out : PropertyWriter) (what : ℕ → String × Json → Write) (id : ℕ)
    (e : String × Json) : Erases (logProperty out what id e) (importProperty out id e) := by
  obtain ⟨key, v⟩ := e
  cases v with
  | string s => exact erases_logUnchecked
  | integer n => exact erases_logUnchecked
  | unsigned n => exact erases_logUnchecked
  | float x => exact erases_logUnchecked
  | boolean b => exact erases_logUnchecked
  | null => exact erases_leave _
  | array l => exact erases_leave _
  | object m => exact erases_leave _

theorem erases_logProperties (out : PropertyWriter) (what : ℕ → String × Json → Write) (id : ℕ)
    (properties : Json) :
    Erases (logProperties out what id properties) (importProperties out id properties) :=
  erases_bind (erases_quiet _) fun _ => erases_forEach (erases_logProperty out what id) _

theorem erases_logObjectsJson (type : ℤ) (typeStr : String) (tbl : LookupTable)
    (document : Json) : Erases (logObjectsJson srv type typeStr tbl document)
      (importObjectsJson srv type typeStr tbl document) := by
  rw [importObjectsJson_eq]
  refine erases_ite (erases_fold (fun tbl e => ?_) _ _) (erases_leave _)
  exact erases_bind erases_logId fun _ =>
    erases_bind (erases_logProperties _ _ _ _) fun _ => erases_pure _

theorem erases_logRelation (bundleId : ℕ) (tbl : LookupTable) (externObjF : Bool)
    (entry : ProvRelationData) (e : String × Json) :
    Erases (logRelation srv bundleId tbl externObjF entry e)
      (importRelation srv bundleId tbl externObjF entry e) :=
  erases_bind (erases_quiet _) fun _ => erases_bind (erases_quiet _) fun _ =>
    erases_bind erases_logId fun _ => erases_bind erases_logOk fun _ =>
      erases_ite (erases_logProperties _ _ _ _) (erases_pure ())

theorem erases_logRelationsJson (bundleId : ℕ) (tbl : LookupTable) (document : Json)
    (externObjF : Bool) : Erases (logRelationsJson srv bundleId tbl document externObjF)
      (importRelationsJson srv bundleId tbl document externObjF) := by
  refine erases_forEach (fun entry => ?_) _
  rw [importRelationSection_eq]
  exact erases_ite (erases_forEach (erases_logRelation bundleId tbl externObjF entry) _)
    (erases_leave _)

theorem erases_logAnchor (bundleId : ℕ) (anchor : ℕ × String) :
    Erases (logAnchor srv bundleId anchor) (connectAnchor srv bundleId anchor) := by
  refine erases_bind (erases_quiet _) fun found => erases_ite ?_ (erases_pure ())
  cases found.2 with
  | none => exact erases_leave _
  | some source => exact erases_bind erases_logId fun _ => erases_logOk

theorem erases_logStage (document : Json) (bundleName : String) :
    Erases (logStage srv document bundleName) (objectStage srv document bundleName) :=
  erases_bind erases_logId fun b => erases_bind (erases_logBundlePrefixesJson b document) fun _ =>
    erases_bind (erases_logObjectsJson _ _ _ _) fun _ =>
      erases_bind (erases_logObjectsJson _ _ _ _) fun _ =>
        erases_bind (erases_logObjectsJson _ _ _ _) fun _ => erases_pure _

theorem erases_logContents (document : Json) (bundleName : String)
    (anchors : List (ℕ × String)) (externObjF : Bool) :
    Erases (logContents srv document bundleName anchors externObjF)
      (importContents srv document bundleName anchors externObjF) := by
  rw [logContents_stage, importContents_stage]
  exact erases_bind (erases_logStage document bundleName) fun out =>
    erases_bind (erases_forEach (erases_logAnchor out.1) anchors) fun _ =>
      erases_bind (erases_logRelationsJson _ _ _ _) fun _ => erases_pure _

theorem erases_logDocument (parse : String → Option Json) (srv : Server)
    (jsonString bundleName : String) (anchors : List (ℕ × String)) (flags : ℤ) :
    Erases (logDocument parse srv jsonString bundleName anchors flags)
      (importDocument parse srv jsonString bundleName anchors flags) := by
  refine erases_bind (erases_quiet _) fun document => erases_ite (erases_leave _) ?_
  exact erases_ite (erases_leave _) (erases_mapExit _ (erases_logContents _ _ _ _))

end Erasure

def attempts (parse : String → Option Json) (srv : Server) (jsonString bundleName : String)
    (anchors : List (ℕ × String)) (flags : ℤ) (w : World) : List Attempt :=
  (logDocument parse srv jsonString bundleName anchors flags (w, [])).2.2

theorem logDocument_run {parse : String → Option Json} {srv : Server}
    {jsonString bundleName : String} {anchors : List (ℕ × String)} {flags : ℤ} {w w' : World}
    {b : ℕ} (h : importDocument parse srv jsonString bundleName anchors flags w = (.ok b, w')) :
    logDocument parse srv jsonString bundleName anchors flags (w, []) =
      (.ok b, (w', attempts parse srv jsonString bundleName anchors flags w)) := by
  obtain ⟨l, hl⟩ := (erases_logDocument parse srv jsonString bundleName anchors flags).run h []
  rw [attempts, hl]

def LogEnsures {α : Type} (P : Store → List Attempt → Prop) (m : Logged α)
    (Q : α → Store → List Attempt → Prop) : Prop :=
  Triple (fun s => P s.1.store s.2) m (fun a s => Q a s.1.store s.2) fun _ _ => True

section Rules

variable {P : Store → List Attempt → Prop} {α β : Type}

theorem logs_pure {a : α} {Q : α → Store → List Attempt → Prop} (h : ∀ t l, P t l → Q a t l) :
    LogEnsures P (pure a) Q :=
  triple_pure fun s hs => h s.1.store s.2 hs

theorem logs_leave {e : Stop} {Q : α → Store → List Attempt → Prop} :
    LogEnsures P (leave e) Q :=
  triple_leave fun _ _ => trivial

theorem logs_bind {m : Logged α} {f : α → Logged β} {Q : α → Store → List Attempt → Prop}
    {R : β → Store → List Attempt → Prop} (hm : LogEnsures P m Q)
    (hf : ∀ a, LogEnsures (Q a) (f a) R) : LogEnsures P (m >>= f) R :=
  triple_bind hm hf

theorem logs_ite {c : Prop} [Decidable c] {m n : Logged α}
    {Q : α → Store → List Attempt → Prop} (ht : c → LogEnsures P m Q)
    (hf : ¬ c → LogEnsures P n Q) : LogEnsures P (if c then m else n) Q :=
  triple_ite ht hf

theorem logs_conseq {m : Logged α} {P' : Store → List Attempt → Prop}
    {Q Q' : α → Store → List Attempt → Prop} (h : LogEnsures P' m Q')
    (hP : ∀ t l, P t l → P' t l) (hQ : ∀ a t l, Q' a t l → Q a t l) : LogEnsures P m Q :=
  triple_conseq h (fun s hs => hP s.1.store s.2 hs) (fun a s hs => hQ a s.1.store s.2 hs)
    fun _ _ _ => trivial

theorem logs_weaken {m : Logged α} {P' : Store → List Attempt → Prop}
    {Q : α → Store → List Attempt → Prop} (hP : ∀ t l, P t l → P' t l) (h : LogEnsures P' m Q) :
    LogEnsures P m Q :=
  logs_conseq h hP fun _ _ _ hq => hq

theorem logs_assume {c : Prop} {m : Logged α} {Q : α → Store → List Attempt → Prop}
    (h : c → LogEnsures P m Q) : LogEnsures (fun t l => P t l ∧ c) m Q :=
  fun s hs => h hs.2 s hs.1

theorem logs_fold {γ : Type} {f : β → γ → Logged β} {I : List γ → β → Store → List Attempt → Prop}
    {xs : List γ} {b : β} (step : ∀ done x b, x ∈ xs →
      LogEnsures (I done b) (f b x) fun c => I (done ++ [x]) c) :
    LogEnsures (I [] b) (fold f b xs) fun c => I xs c :=
  triple_fold (I := fun done b (s : World × List Attempt) => I done b s.1.store s.2) step

theorem logs_forEach {γ : Type} {f : γ → Logged Unit} {I : List γ → Store → List Attempt → Prop}
    {xs : List γ} (step : ∀ done x, x ∈ xs →
      LogEnsures (I done) (f x) fun _ => I (done ++ [x])) :
    LogEnsures (I []) (forEach f xs) fun _ => I xs :=
  triple_forEach (I := fun done (s : World × List Attempt) => I done s.1.store s.2) step

theorem logs_quiet {m : Api α} {R : α → Prop} (h : ∀ l, Keeps (fun t => P t l) m R) :
    LogEnsures P (quiet m) fun a t l => P t l ∧ R a :=
  triple_quiet fun l => triple_conseq (h l) (fun _ hw => hw) (fun _ _ hw => hw)
    fun _ _ _ => trivial

theorem logs_mapExit {m : Logged α} {g : Stop → Stop} {Q : α → Store → List Attempt → Prop}
    (h : LogEnsures P m Q) : LogEnsures P (mapExit g m) Q :=
  triple_mapExit h fun _ _ _ => trivial

theorem triple_logId {write : Write} {c : Call World (ReturnCode × Option ℕ)}
    {P : World × List Attempt → Prop} {Q : ℕ → World × List Attempt → Prop}
    (h : ∀ w l, P (w, l) → (c w).1.1.IsOk → ∀ id, (c w).1.2 = some id →
      Q id ((c w).2, l ++ [⟨write, w.calls, (c w).1.1, some id⟩])) :
    Triple P (logId write c) Q fun _ _ => True := by
  refine triple_bind (Q := fun out (s : World × List Attempt) => out.1.IsOk →
    ∀ id, out.2 = some id → Q id s) (triple_logged fun w l hw hok id hid => ?_)
    fun out => triple_ite (fun hok => ?_) fun _ => triple_leave fun _ _ => trivial
  · have hq := h w l hw hok id hid
    rw [← hid] at hq
    exact hq
  · cases hid : out.2 with
    | none => exact triple_leave fun _ _ => trivial
    | some id => exact triple_pure fun s hs => hs hok id rfl

theorem triple_logOk {write : Write} {c : Call World ReturnCode}
    {P Q : World × List Attempt → Prop} (h : ∀ w l, P (w, l) → (c w).1.IsOk →
      Q ((c w).2, l ++ [⟨write, w.calls, (c w).1, none⟩])) :
    Triple P (logOk write c) (fun _ => Q) fun _ _ => True := by
  refine triple_bind (Q := fun r s => r.IsOk → Q s)
    (triple_logged fun w l hw hok => h w l hw hok)
    fun r => triple_ite (fun hok => ?_) fun _ => triple_leave fun _ _ => trivial
  exact triple_pure fun s hs => hs hok

theorem logs_logId {write : Write} {c : Call World (ReturnCode × Option ℕ)}
    {Q : ℕ → Store → List Attempt → Prop}
    (h : ∀ w l, P w.store l → (c w).1.1.IsOk → ∀ id, (c w).1.2 = some id →
      Q id (c w).2.store (l ++ [⟨write, w.calls, (c w).1.1, some id⟩])) :
    LogEnsures P (logId write c) Q :=
  triple_logId h

theorem logs_logOk {write : Write} {c : Call World ReturnCode}
    {Q : Store → List Attempt → Prop} (h : ∀ w l, P w.store l → (c w).1.IsOk →
      Q (c w).2.store (l ++ [⟨write, w.calls, (c w).1, none⟩])) :
    LogEnsures P (logOk write c) fun _ => Q :=
  triple_logOk h

theorem logs_logUnchecked {write : Write} {c : Call World ReturnCode}
    {Q : Store → List Attempt → Prop} (h : ∀ w l, P w.store l →
      Q (c w).2.store (l ++ [⟨write, w.calls, (c w).1, none⟩])) :
    LogEnsures P (logUnchecked write c) fun _ => Q :=
  triple_bind (Q := fun _ (s : World × List Attempt) => Q s.1.store s.2)
    (triple_logged fun w l hw => h w l hw) fun _ => triple_pure fun _ hs => hs

theorem logs_conj {m : Logged α} {P' : Store → List Attempt → Prop}
    {Q Q' : α → Store → List Attempt → Prop} (h : LogEnsures P m Q) (h' : LogEnsures P' m Q') :
    LogEnsures (fun t l => P t l ∧ P' t l) m fun a t l => Q a t l ∧ Q' a t l := by
  apply triple_conseq (triple_conj h h')
  · exact fun _ hs => hs
  · exact fun _ _ hs => hs
  · exact fun _ _ _ => trivial

theorem logs_of_erases {m : Logged α} {n : Api α} {I : Store → Prop} {Q : α → Store → Prop}
    (he : Erases m n)
    (h : Triple (fun w => I w.store) n (fun a w => Q a w.store) fun _ _ => True) :
    LogEnsures (fun t _ => I t) m fun a t _ => Q a t :=
  triple_of_erases he h

theorem logs_of_keeps {m : Logged α} {n : Api α} {I : Store → Prop} {R : α → Prop}
    (he : Erases m n) (h : Keeps I n R) : LogEnsures (fun t _ => I t) m fun _ t _ => I t :=
  logs_of_erases he (triple_conseq h (fun _ hw => hw) (fun _ _ hw => hw.1) fun _ _ _ => trivial)

end Rules

theorem logDocument_of_contents {parse : String → Option Json} {srv : Server}
    {jsonString : String} {document : Json} (hp : parse jsonString = some document)
    {bundleName : String} {anchors : List (ℕ × String)} {flags : ℤ}
    {P : World × List Attempt → Prop} {Q : ℕ → World × List Attempt → Prop}
    (h : Triple P (logContents srv document bundleName anchors
      (decide (flags ≠ 0 ∧ cplJExternObj ≠ 0))) Q fun _ _ => True) :
    Triple P (logDocument parse srv jsonString bundleName anchors flags) Q fun _ _ => True := by
  refine triple_bind (Q := fun d s => d = document ∧ P s) ?_ fun d => ?_
  · intro s hs
    rw [hp]
    exact ⟨rfl, hs⟩
  · rintro s ⟨rfl, hs⟩
    refine triple_ite (fun _ => triple_leave fun _ _ => trivial) (fun _ => ?_) s hs
    refine triple_ite (fun _ => triple_leave fun _ _ => trivial) fun _ => ?_
    exact triple_mapExit h fun _ _ _ => trivial

theorem logged_of_ok {parse : String → Option Json} {srv : Server} {jsonString : String}
    {document : Json} (hp : parse jsonString = some document) {bundleName : String}
    {anchors : List (ℕ × String)} {flags : ℤ} {P : World × List Attempt → Prop}
    {Q : ℕ → World × List Attempt → Prop}
    (h : Triple P (logContents srv document bundleName anchors
      (decide (flags ≠ 0 ∧ cplJExternObj ≠ 0))) Q fun _ _ => True)
    {outId : Option ℕ} {w : World} (hw : P (w, []))
    (hok : (importDocumentJson parse srv jsonString bundleName anchors flags outId w).1.1 =
      .ret .ok) :
    let out := importDocumentJson parse srv jsonString bundleName anchors flags outId w
    ∃ b, Q b (out.2, attempts parse srv jsonString bundleName anchors flags w) ∧
      out.1.2 = outId.map fun _ => b := by
  obtain ⟨b, hrun, hb⟩ := importDocument_of_ok hok
  have hlog := logDocument_of_contents hp h (w, []) hw
  rw [logDocument_run hrun] at hlog
  exact ⟨b, hlog, hb⟩

section Selections

variable {α β κ : Type}

def Ignores (f : Attempt → Option κ) (write : Write) : Prop :=
  ∀ call code id, f ⟨write, call, code, id⟩ = none

def Unselected (f : Attempt → Option κ) (m : Logged α) : Prop :=
  ∀ known, LogEnsures (fun _ l => l.filterMap f = known) m fun _ _ l => l.filterMap f = known

variable {f : Attempt → Option κ}

theorem filterMap_ignored {write : Write} (h : Ignores f write) (l : List Attempt) (call : ℕ)
    (code : ReturnCode) (id : Option ℕ) :
    (l ++ [(⟨write, call, code, id⟩ : Attempt)]).filterMap f = l.filterMap f := by
  rw [List.filterMap_append, List.filterMap_cons, h call code id, List.filterMap_nil,
    List.append_nil]

/-- What is known of the store and of the attempts taken stays, if the store keeps it and no
more attempts are taken. -/
theorem logs_unselected {m : Logged α} {n : Api α} {I : List κ → Store → Prop} {R : α → Prop}
    (he : Erases m n) (hk : ∀ known, Keeps (I known) n R) (hu : Unselected f m) :
    LogEnsures (fun t l => I (l.filterMap f) t) m fun _ t l => I (l.filterMap f) t := by
  rintro ⟨w, l⟩ hs
  let known := l.filterMap f
  have h : LogEnsures (fun t l => I known t ∧ l.filterMap f = known) m
      fun _ t l => I (l.filterMap f) t :=
    logs_conseq (logs_conj (logs_of_keeps he (hk known)) (hu known)) (fun _ _ h => h)
      fun _ _ _ h => h.2 ▸ h.1
  exact h (w, l) ⟨hs, rfl⟩

theorem unselected_bind {m : Logged α} {g : α → Logged β} (hm : Unselected f m)
    (hg : ∀ a, Unselected f (g a)) : Unselected f (m >>= g) :=
  fun known => logs_bind (hm known) fun a => hg a known

theorem unselected_pure (a : α) : Unselected f (pure a : Logged α) :=
  fun _ => logs_pure fun _ _ h => h

theorem unselected_leave (e : Stop) : Unselected f (leave e : Logged α) :=
  fun _ => logs_leave

theorem unselected_ite {c : Prop} [Decidable c] {m n : Logged α} (hm : Unselected f m)
    (hn : Unselected f n) : Unselected f (if c then m else n) :=
  fun known => logs_ite (fun _ => hm known) fun _ => hn known

theorem unselected_quiet (m : Api α) : Unselected f (quiet m) := fun known =>
  triple_quiet fun l w hl => by split <;> trivial

theorem unselected_logId {write : Write} (h : Ignores f write)
    (c : Call World (ReturnCode × Option ℕ)) : Unselected f (logId write c) := fun known =>
  logs_logId fun w l hl _ id _ => by rw [filterMap_ignored h, hl]

theorem unselected_logOk {write : Write} (h : Ignores f write) (c : Call World ReturnCode) :
    Unselected f (logOk write c) := fun known =>
  logs_logOk fun w l hl _ => by rw [filterMap_ignored h, hl]

theorem unselected_logUnchecked {write : Write} (h : Ignores f write)
    (c : Call World ReturnCode) : Unselected f (logUnchecked write c) := fun known =>
  logs_logUnchecked fun w l hl => by rw [filterMap_ignored h, hl]

theorem unselected_forEach {γ : Type} {g : γ → Logged Unit} (h : ∀ x, Unselected f (g x))
    (xs : List γ) : Unselected f (forEach g xs) := fun known =>
  logs_forEach (I := fun _ _ l => l.filterMap f = known) fun _ x _ => h x known

theorem unselected_logProperties {out : PropertyWriter} {what : ℕ → String × Json → Write}
    {id : ℕ} (h : ∀ e, Ignores f (what id e)) (properties : Json) :
    Unselected f (logProperties out what id properties) := by
  refine unselected_bind (unselected_quiet _) fun items => unselected_forEach (fun e => ?_) items
  obtain ⟨key, v⟩ := e
  cases v with
  | string s => exact unselected_logUnchecked (h _) _
  | integer n => exact unselected_logUnchecked (h _) _
  | unsigned n => exact unselected_logUnchecked (h _) _
  | float x => exact unselected_logUnchecked (h _) _
  | boolean b => exact unselected_logUnchecked (h _) _
  | null => exact unselected_leave _
  | array l => exact unselected_leave _
  | object m => exact unselected_leave _

theorem unselected_logBundlePrefixesJson {srv : Server} (h : ∀ e, Ignores f (.bundlePrefix e))
    (bundle : ℕ) (document : Json) : Unselected f (logBundlePrefixesJson srv bundle document) := by
  refine unselected_ite (unselected_forEach (fun e => ?_) _) (unselected_leave _)
  refine unselected_ite ?_ (unselected_leave _)
  exact unselected_bind (unselected_quiet _) fun _ => unselected_logOk (h e) _

theorem unselected_logObjectsJson {srv : Server} {type : ℤ} (ho : ∀ e, Ignores f (.object type e))
    (hp : ∀ id e, Ignores f (.objectProperty id e)) (typeStr : String) (tbl : LookupTable)
    (document : Json) : Unselected f (logObjectsJson srv type typeStr tbl document) := by
  refine unselected_ite (fun known => ?_) (unselected_leave _)
  refine logs_fold (I := fun _ _ _ l => l.filterMap f = known) fun _ e tbl _ => ?_
  exact unselected_bind (unselected_logId (ho e) _) (fun id =>
    unselected_bind (unselected_logProperties (hp id) _) fun _ => unselected_pure _) known

theorem unselected_logAnchor {srv : Server} (ha : ∀ a, Ignores f (.anchor a))
    (hm : ∀ r, Ignores f (.membership r)) (bundleId : ℕ) (anchor : ℕ × String) :
    Unselected f (logAnchor srv bundleId anchor) := by
  refine unselected_bind (unselected_quiet _) fun found => unselected_ite ?_ (unselected_pure _)
  cases found.2 with
  | none => exact unselected_leave _
  | some source =>
    exact unselected_bind (unselected_logId (ha anchor) _) fun id => unselected_logOk (hm id) _

theorem unselected_logRelation {srv : Server} (hr : ∀ d e, Ignores f (.relation d e))
    (hm : ∀ r, Ignores f (.membership r)) (hp : ∀ id e, Ignores f (.relationProperty id e))
    (bundleId : ℕ) (tbl : LookupTable) (externObjF : Bool) (entry : ProvRelationData)
    (e : String × Json) : Unselected f (logRelation srv bundleId tbl externObjF entry e) := by
  refine unselected_bind (unselected_quiet _) fun _ => unselected_bind (unselected_quiet _)
    fun _ => unselected_bind (unselected_logId (hr entry e) _) fun id => ?_
  refine unselected_bind (unselected_logOk (hm id) _) fun _ => unselected_ite ?_ (unselected_pure _)
  exact unselected_logProperties (hp id) _

theorem unselected_logRelationsJson {srv : Server} (hr : ∀ d e, Ignores f (.relation d e))
    (hm : ∀ r, Ignores f (.membership r)) (hp : ∀ id e, Ignores f (.relationProperty id e))
    (bundleId : ℕ) (tbl : LookupTable) (document : Json) (externObjF : Bool) :
    Unselected f (logRelationsJson srv bundleId tbl document externObjF) := by
  refine unselected_forEach (fun entry => unselected_ite ?_ (unselected_leave _)) _
  exact unselected_forEach (unselected_logRelation hr hm hp bundleId tbl externObjF entry) _

/-- The selection takes nothing that the import writes before the records. -/
structure OfRecords (f : Attempt → Option κ) : Prop where
  bundle : Ignores f .bundle
  bundlePrefix : ∀ e, Ignores f (.bundlePrefix e)
  object : ∀ type e, Ignores f (.object type e)
  objectProperty : ∀ id e, Ignores f (.objectProperty id e)
  anchor : ∀ a, Ignores f (.anchor a)
  membership : ∀ r, Ignores f (.membership r)

theorem unselected_logStage {f : Attempt → Option κ} (hb : Ignores f .bundle)
    (hnamespace : ∀ e, Ignores f (.bundlePrefix e)) (ho : ∀ type e, Ignores f (.object type e))
    (hp : ∀ id e, Ignores f (.objectProperty id e)) (srv : Server) (document : Json)
    (bundleName : String) : Unselected f (logStage srv document bundleName) := by
  refine unselected_bind (unselected_logId hb _) fun b => ?_
  refine unselected_bind (unselected_logBundlePrefixesJson hnamespace b document) fun _ => ?_
  refine unselected_bind (unselected_logObjectsJson (ho _) hp _ _ _) fun tbl1 => ?_
  refine unselected_bind (unselected_logObjectsJson (ho _) hp _ _ _) fun tbl2 => ?_
  exact unselected_bind (unselected_logObjectsJson (ho _) hp _ _ _) fun tbl3 => unselected_pure _

end Selections

end ImportLog
