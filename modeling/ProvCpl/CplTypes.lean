import Mathlib.Data.Int.Notation
import Mathlib.Data.List.Basic

/-! # Codes, object types and relation types of the library

The integer values are those of the public header; the API takes types as plain
integers and checks their range, so they stay integers here. -/
namespace CplTypes

inductive ReturnCode where
  | ok
  | duplicateIgnored
  | noData
  | objectCreated
  | invalidArgument
  | insufficientResources
  | dbConnectionError
  | notImplemented
  | alreadyInitialized
  | notInitialized
  | prepareStatementError
  | statementError
  | internalError
  | backendInternalError
  | notFound
  | alreadyExists
  | platformError
  | invalidVersion
  | dbNull
  | dbKeyNotFound
  | dbInvalidType
  | invalidJson
  deriving DecidableEq, Repr

def ReturnCode.toInt : ReturnCode → ℤ
  | .ok => 0
  | .duplicateIgnored => 1
  | .noData => 2
  | .objectCreated => 3
  | .invalidArgument => -1
  | .insufficientResources => -2
  | .dbConnectionError => -3
  | .notImplemented => -4
  | .alreadyInitialized => -5
  | .notInitialized => -6
  | .prepareStatementError => -7
  | .statementError => -8
  | .internalError => -9
  | .backendInternalError => -10
  | .notFound => -11
  | .alreadyExists => -12
  | .platformError => -13
  | .invalidVersion => -14
  | .dbNull => -15
  | .dbKeyNotFound => -16
  | .dbInvalidType => -17
  | .invalidJson => -18

def ReturnCode.IsOk (r : ReturnCode) : Prop := 0 ≤ r.toInt

instance (r : ReturnCode) : Decidable r.IsOk := inferInstanceAs (Decidable (0 ≤ r.toInt))

@[simp] theorem isOk_ok : ReturnCode.ok.IsOk := by decide
@[simp] theorem isOk_objectCreated : ReturnCode.objectCreated.IsOk := by decide
@[simp] theorem isOk_noData : ReturnCode.noData.IsOk := by decide
@[simp] theorem not_isOk_notFound : ¬ ReturnCode.notFound.IsOk := by decide
@[simp] theorem not_isOk_invalidArgument : ¬ ReturnCode.invalidArgument.IsOk := by decide
@[simp] theorem not_isOk_notInitialized : ¬ ReturnCode.notInitialized.IsOk := by decide
@[simp] theorem not_isOk_insufficientResources : ¬ ReturnCode.insufficientResources.IsOk := by
  decide
@[simp] theorem not_isOk_dbConnectionError : ¬ ReturnCode.dbConnectionError.IsOk := by decide
@[simp] theorem not_isOk_prepareStatementError : ¬ ReturnCode.prepareStatementError.IsOk := by
  decide
@[simp] theorem not_isOk_statementError : ¬ ReturnCode.statementError.IsOk := by decide
@[simp] theorem not_isOk_internalError : ¬ ReturnCode.internalError.IsOk := by decide
@[simp] theorem not_isOk_invalidJson : ¬ ReturnCode.invalidJson.IsOk := by decide

structure Failure where
  code : ReturnCode
  failed : ¬ code.IsOk

def cplNone : ℕ := 0

def cplEntity : ℤ := 1
def cplActivity : ℤ := 2
def cplAgent : ℤ := 3
def cplBundle : ℤ := 4

def cplEntityStr : String := "entity"
def cplActivityStr : String := "activity"
def cplAgentStr : String := "agent"

/-- `CPL_ENSURE_O_TYPE` and `CPL_ENSURE_R_TYPE` let a call pass. -/
def EnsureOType (n : ℤ) : Prop := ¬ (n < 1 ∨ n > 4)
def EnsureRType (n : ℤ) : Prop := ¬ (n < 1 ∨ n > 20)

instance (n : ℤ) : Decidable (EnsureOType n) := inferInstanceAs (Decidable (¬ (_ ∨ _)))
instance (n : ℤ) : Decidable (EnsureRType n) := inferInstanceAs (Decidable (¬ (_ ∨ _)))

def wasInfluencedBy : ℤ := 1
def alternateOf : ℤ := 2
def derivedByInsertionFrom : ℤ := 3
def derivedByRemovalFrom : ℤ := 4
def hadMember : ℤ := 5
def hadDictionaryMember : ℤ := 6
def specializationOf : ℤ := 7
def wasDerivedFrom : ℤ := 8
def wasGeneratedBy : ℤ := 9
def wasInvalidatedBy : ℤ := 10
def wasAttributedTo : ℤ := 11
def used : ℤ := 12
def wasInformedBy : ℤ := 13
def wasStartedBy : ℤ := 14
def wasEndedBy : ℤ := 15
def hadPlan : ℤ := 16
def wasAssociatedWith : ℤ := 17
def actedOnBehalfOf : ℤ := 18
def inBundle : ℤ := 19
def bundleRelation : ℤ := 20

def cplNumRTypes : ℕ := 19

def stringProperty : ℤ := 0
def numericalProperty : ℤ := 1
def booleanProperty : ℤ := 2

/-- Column limits, which are also the sizes of the buffers that columns are read into. -/
def cplPrefixLen : ℕ := 255
def cplNameLen : ℕ := 255
def cplKeyLen : ℕ := 255
def cplValueLen : ℕ := 4095

def cplLNoFail : ℤ := 1

def cplDAncestors : ℤ := 0
def cplDDescendants : ℤ := 1

structure ProvRelationData where
  type : ℤ
  typeStr : String
  sourceStr : String
  sourceT : ℤ
  destStr : String
  destT : ℤ
  deriving DecidableEq, Repr

def rdataArray : List ProvRelationData := [
  ⟨wasInfluencedBy, "wasInfluencedBy", "prov:influencee", 0, "prov:influencer", 0⟩,
  ⟨alternateOf, "alternateOf", "prov:alternate1", cplEntity, "prov:alternate2", cplEntity⟩,
  ⟨derivedByInsertionFrom, "derivedByInsertionFrom", "prov:after", cplEntity,
    "prov:before", cplEntity⟩,
  ⟨derivedByRemovalFrom, "derivedByRemovalFrom", "prov:after", cplEntity,
    "prov:before", cplEntity⟩,
  ⟨hadMember, "hadMember", "prov:collection", cplEntity, "prov:before", cplEntity⟩,
  ⟨hadDictionaryMember, "hadDictionaryMember", "prov:dictionary", cplEntity,
    "prov:entity", cplEntity⟩,
  ⟨specializationOf, "specializationOf", "prov:specificEntity", cplEntity,
    "prov:generalEntity", cplEntity⟩,
  ⟨wasDerivedFrom, "wasDerivedFrom", "prov:generatedEntity", cplEntity,
    "prov:usedEntity", cplEntity⟩,
  ⟨wasGeneratedBy, "wasGeneratedBy", "prov:entity", cplEntity, "prov:activity", cplActivity⟩,
  ⟨wasInvalidatedBy, "wasInvalidatedBy", "prov:entity", cplEntity,
    "prov:activity", cplActivity⟩,
  ⟨wasAttributedTo, "wasAttributedTo", "prov:entity", cplEntity, "prov:agent", cplAgent⟩,
  ⟨used, "used", "prov:activity", cplActivity, "prov:entity", cplEntity⟩,
  ⟨wasInformedBy, "wasInformedBy", "prov:informed", cplActivity,
    "prov:informant", cplActivity⟩,
  ⟨wasStartedBy, "wasStartedBy", "prov:activity", cplActivity, "prov:trigger", cplEntity⟩,
  ⟨wasEndedBy, "wasEndedBy", "prov:activity", cplActivity, "prov:trigger", cplEntity⟩,
  ⟨hadPlan, "hadPlan", "prov:agent", cplAgent, "prov:plan", cplEntity⟩,
  ⟨wasAssociatedWith, "wasAssociatedWith", "prov:activity", cplActivity,
    "prov:agent", cplAgent⟩,
  ⟨actedOnBehalfOf, "actedOnBehalfOf", "prov:delegate", cplAgent,
    "prov:responsible", cplAgent⟩,
  ⟨inBundle, "inBundle", "prov:bundle", cplBundle, "prov:object", cplEntity⟩,
  ⟨inBundle, "inBundle", "prov:bundle", cplBundle, "prov:object", cplAgent⟩,
  ⟨inBundle, "inBundle", "prov:bundle", cplBundle, "prov:object", cplActivity⟩]

/-- The entries that validation and import loop over: the first `CPL_NUM_R_TYPES`. -/
def relationSections : List ProvRelationData := rdataArray.take cplNumRTypes

/-- Entry `i` of the array describes relation type `i + 1`, as export relies on. -/
theorem rdataArray_index : ∀ d ∈ relationSections, rdataArray[(d.type - 1).toNat]? = some d := by
  decide

theorem relationSections_typeStr_nodup : (relationSections.map (·.typeStr)).Nodup := by decide

theorem relationSections_ensureRType : ∀ d ∈ relationSections,
    EnsureRType d.type ∧ d.type ≠ bundleRelation := by decide

theorem relationSections_keys_ne : ∀ d ∈ relationSections, d.sourceStr ≠ d.destStr := by decide

end CplTypes
