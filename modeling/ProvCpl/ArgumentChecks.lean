import ProvCpl.AttachDetach
import ProvCpl.ImportDocument

/-! # Argument checks of the front end and preconditions of the backend

The front end checks its arguments by macros, and the backend asserts ranges of its own or
reads a pointer at once. The ranges differ: the front end lets bundles and bundle memberships
pass, the assertions do not. -/
namespace ArgumentChecks

open CplTypes AttachDetach ImportDocument ProvServer EarlyExit EventTrace

/-- An iterator or an out parameter; none is NULL. -/
abbrev Pointer := Option ℕ

def CplIsObjectType (r : ℤ) : Prop := r > 0 ∧ r < 4
def CplIsRelationType (r : ℤ) : Prop := r > 0 ∧ r < 20

instance (r : ℤ) : Decidable (CplIsObjectType r) := inferInstanceAs (Decidable (_ ∧ _))
instance (r : ℤ) : Decidable (CplIsRelationType r) := inferInstanceAs (Decidable (_ ∧ _))

inductive BackendCall where
  | destroy
  | createObject (nsPrefix name : Option String) (type : ℤ)
  | lookupObject (nsPrefix name : Option String) (type : ℤ)
  | lookupObjectExt (nsPrefix name : Option String) (type flags : ℤ) (callback : Pointer)
  | addObjectProperty (id : ℕ) (nsPrefix key value : Option String) (type : ℤ)
  | addRelation (fromId toId : ℕ) (type : ℤ)
  | addRelationProperty (id : ℕ) (nsPrefix key value : Option String) (type : ℤ)
  | lookupRelation (fromId toId : ℕ) (type : ℤ)
  | lookupObjectPropertyWildcard (value : Option String)
  | addPrefix (id : ℕ) (nsPrefix iri : Option String)
  | getSessionInfo (id : ℕ) (outInfo : Pointer)
  | getAllObjects (nsPrefix : Option String) (flags type : ℤ) (callback : Pointer)
  | getObjectInfo (id : ℕ) (outInfo : Pointer)
  | getObjectRelations (id : ℕ) (direction flags : ℤ) (callback : Pointer)
  | getObjectProperties (id : ℕ) (nsPrefix key : Option String) (type : ℤ) (callback : Pointer)
  | lookupObjectByProperty (nsPrefix key value : Option String) (type : ℤ) (callback : Pointer)
  | getRelationProperties (id : ℕ) (nsPrefix key : Option String) (type : ℤ) (callback : Pointer)
  | getBundleObjects (id : ℕ) (callback : Pointer)
  | getBundleRelations (id : ℕ) (callback : Pointer)
  | getPrefixes (id : ℕ) (nsPrefix : Option String) (callback : Pointer)
  deriving DecidableEq, Repr

/-- What a function of the backend asserts at its entry of its other arguments, and the
pointers that it reads or writes without a test. Strings are bound with a test for NULL. -/
def BackendCall.Asserts : BackendCall → Prop
  | .createObject nsPrefix name type => nsPrefix.isSome ∧ name.isSome ∧ CplIsObjectType type
  | .addRelation fromId toId type => fromId ≠ cplNone ∧ toId ≠ cplNone ∧ CplIsRelationType type
  | .lookupObjectPropertyWildcard value => value.isSome
  | .getSessionInfo _ outInfo => outInfo.isSome
  | .getObjectInfo _ outInfo => outInfo.isSome
  | _ => True

instance : (c : BackendCall) → Decidable c.Asserts
  | .createObject _ _ type => inferInstanceAs (Decidable (_ ∧ _ ∧ CplIsObjectType type))
  | .addRelation fromId toId type =>
    inferInstanceAs (Decidable (fromId ≠ cplNone ∧ toId ≠ cplNone ∧ CplIsRelationType type))
  | .lookupObjectPropertyWildcard value => inferInstanceAs (Decidable (value.isSome = true))
  | .getSessionInfo _ outInfo => inferInstanceAs (Decidable (outInfo.isSome = true))
  | .getObjectInfo _ outInfo => inferInstanceAs (Decidable (outInfo.isSome = true))
  | .destroy | .lookupObject .. | .lookupObjectExt .. | .addObjectProperty ..
  | .addRelationProperty .. | .lookupRelation .. | .addPrefix .. | .getAllObjects ..
  | .getObjectRelations .. | .getObjectProperties .. | .lookupObjectByProperty ..
  | .getRelationProperties .. | .getBundleObjects .. | .getBundleRelations ..
  | .getPrefixes .. => .isTrue trivial

/-- Every function asserts that its first argument, the backend, is not NULL. -/
def BackendCall.Requires {β : Type} (backend : Option β) (c : BackendCall) : Prop :=
  backend.isSome ∧ c.Asserts

instance {β : Type} (backend : Option β) (c : BackendCall) : Decidable (c.Requires backend) :=
  inferInstanceAs (Decidable (_ ∧ _))

inductive PublicCall where
  | detach
  | createObject (nsPrefix name : Option String) (type : ℤ)
  | lookupObject (nsPrefix name : Option String) (type : ℤ)
  | lookupObjectExt (nsPrefix name : Option String) (type flags : ℤ) (iterator : Pointer)
  | lookupOrCreateObject (nsPrefix name : Option String) (type : ℤ)
  | addObjectStringProperty (id : ℕ) (nsPrefix key value : Option String)
  | addObjectNumericalProperty (id : ℕ) (nsPrefix key : Option String)
      (value : FloatText.BinaryFloat)
  | addObjectBooleanProperty (id : ℕ) (nsPrefix key : Option String) (value : Bool)
  | addRelation (fromId toId : ℕ) (type : ℤ)
  | addRelationStringProperty (id : ℕ) (nsPrefix key value : Option String)
  | addRelationNumericalProperty (id : ℕ) (nsPrefix key : Option String)
      (value : FloatText.BinaryFloat)
  | addRelationBooleanProperty (id : ℕ) (nsPrefix key : Option String) (value : Bool)
  | lookupRelation (fromId toId : ℕ) (type : ℤ)
  | lookupObjectPropertyWildcard (value : Option String)
  | addPrefix (id : ℕ) (nsPrefix iri : Option String)
  | getSessionInfo (id : ℕ) (outInfo : Pointer)
  | getAllObjects (nsPrefix : Option String) (flags type : ℤ) (iterator : Pointer)
  | getObjectInfo (id : ℕ) (outInfo : Pointer)
  | getObjectRelations (id : ℕ) (direction flags : ℤ) (iterator : Pointer)
  | getObjectStringProperties (id : ℕ) (nsPrefix key : Option String) (iterator : Pointer)
  | getObjectNumericalProperties (id : ℕ) (nsPrefix key : Option String) (iterator : Pointer)
  | getObjectBooleanProperties (id : ℕ) (nsPrefix key : Option String) (iterator : Pointer)
  | lookupObjectByStringProperty (nsPrefix key value : Option String) (iterator : Pointer)
  | lookupObjectByNumericalProperty (nsPrefix key : Option String)
      (value : FloatText.BinaryFloat) (iterator : Pointer)
  | lookupObjectByBooleanProperty (nsPrefix key : Option String) (value : Bool)
      (iterator : Pointer)
  | getRelationStringProperties (id : ℕ) (nsPrefix key : Option String) (iterator : Pointer)
  | getRelationNumericalProperties (id : ℕ) (nsPrefix key : Option String) (iterator : Pointer)
  | getRelationBooleanProperties (id : ℕ) (nsPrefix key : Option String) (iterator : Pointer)
  | getBundleObjects (id : ℕ) (iterator : Pointer)
  | getBundleRelations (id : ℕ) (iterator : Pointer)
  | getPrefixes (id : ℕ) (nsPrefix : Option String) (iterator : Pointer)

def notNone (id : ℕ) : Bool := id ≠ cplNone
def notNull {α : Type} (p : Option α) : Bool := p.isSome

def passing (checks : List Bool) (c : BackendCall) : List BackendCall :=
  if checks.all id then [c] else []

section FrontEnd

def createObjectCalls (nsPrefix name : Option String) (type : ℤ) : List BackendCall :=
  passing [notNull nsPrefix, notNull name, EnsureOType type] (.createObject nsPrefix name type)

def lookupObjectCalls (nsPrefix name : Option String) (type : ℤ) : List BackendCall :=
  passing [notNull nsPrefix, notNull name] (.lookupObject nsPrefix name type)

def addObjectPropertyCalls (id : ℕ) (nsPrefix key value : Option String) (type : ℤ) :
    List BackendCall :=
  passing [notNone id, notNull nsPrefix, notNull key, notNull value]
    (.addObjectProperty id nsPrefix key value type)

def addRelationPropertyCalls (id : ℕ) (nsPrefix key value : Option String) (type : ℤ) :
    List BackendCall :=
  passing [notNone id, notNull nsPrefix, notNull key, notNull value]
    (.addRelationProperty id nsPrefix key value type)

def getObjectPropertiesCalls (id : ℕ) (nsPrefix key : Option String) (type : ℤ)
    (iterator : Pointer) : List BackendCall :=
  passing [notNone id, notNull iterator] (.getObjectProperties id nsPrefix key type iterator)

def getRelationPropertiesCalls (id : ℕ) (nsPrefix key : Option String) (type : ℤ)
    (iterator : Pointer) : List BackendCall :=
  passing [notNone id, notNull iterator] (.getRelationProperties id nsPrefix key type iterator)

def lookupObjectByPropertyCalls (nsPrefix key value : Option String) (type : ℤ)
    (iterator : Pointer) : List BackendCall :=
  passing [notNull iterator, notNull nsPrefix, notNull key, notNull value]
    (.lookupObjectByProperty nsPrefix key value type iterator)

/-- The calls that an initialized library makes of its backend; `found` is what the backend
answers to the lookup of `cpl_lookup_or_create_object`. -/
def PublicCall.backendCalls (found : ReturnCode) : PublicCall → List BackendCall
  | .detach => [.destroy]
  | .createObject p n type => createObjectCalls p n type
  | .lookupObject p n type => lookupObjectCalls p n type
  | .lookupObjectExt p n type flags iterator =>
    passing [notNull p, notNull n, notNull iterator] (.lookupObjectExt p n type flags iterator)
  | .lookupOrCreateObject p n type =>
    lookupObjectCalls p n type ++
      if lookupObjectCalls p n type ≠ [] ∧ found = .notFound then createObjectCalls p n type
      else []
  | .addObjectStringProperty id p k v => addObjectPropertyCalls id p k v stringProperty
  | .addObjectNumericalProperty id p k x =>
    addObjectPropertyCalls id p k (some (FloatText.toText x)) numericalProperty
  | .addObjectBooleanProperty id p k b =>
    addObjectPropertyCalls id p k (some (FloatText.boolText b)) booleanProperty
  | .addRelation f o type =>
    passing [notNone f, notNone o, EnsureRType type] (.addRelation f o type)
  | .addRelationStringProperty id p k v => addRelationPropertyCalls id p k v stringProperty
  | .addRelationNumericalProperty id p k x =>
    addRelationPropertyCalls id p k (some (FloatText.toText x)) numericalProperty
  | .addRelationBooleanProperty id p k b =>
    addRelationPropertyCalls id p k (some (FloatText.boolText b)) booleanProperty
  | .lookupRelation f o type =>
    passing [notNone f, notNone o, EnsureRType type] (.lookupRelation f o type)
  | .lookupObjectPropertyWildcard v => [.lookupObjectPropertyWildcard v]
  | .addPrefix id p iri => passing [notNone id, notNull p, notNull iri] (.addPrefix id p iri)
  | .getSessionInfo id outInfo =>
    passing [notNone id, notNull outInfo] (.getSessionInfo id outInfo)
  | .getAllObjects p flags type iterator =>
    passing [notNull iterator] (.getAllObjects p flags type iterator)
  | .getObjectInfo id outInfo => passing [notNone id, notNull outInfo] (.getObjectInfo id outInfo)
  | .getObjectRelations id direction flags iterator =>
    passing [notNone id, notNull iterator,
        ¬ (direction ≠ cplDAncestors ∧ direction ≠ cplDDescendants)]
      (.getObjectRelations id direction flags iterator)
  | .getObjectStringProperties id p k iterator =>
    getObjectPropertiesCalls id p k stringProperty iterator
  | .getObjectNumericalProperties id p k iterator =>
    getObjectPropertiesCalls id p k numericalProperty iterator
  | .getObjectBooleanProperties id p k iterator =>
    getObjectPropertiesCalls id p k booleanProperty iterator
  | .lookupObjectByStringProperty p k v iterator =>
    lookupObjectByPropertyCalls p k v stringProperty iterator
  | .lookupObjectByNumericalProperty p k x iterator =>
    lookupObjectByPropertyCalls p k (some (FloatText.toText x)) numericalProperty iterator
  | .lookupObjectByBooleanProperty p k b iterator =>
    lookupObjectByPropertyCalls p k (some (FloatText.boolText b)) booleanProperty iterator
  | .getRelationStringProperties id p k iterator =>
    getRelationPropertiesCalls id p k stringProperty iterator
  | .getRelationNumericalProperties id p k iterator =>
    getRelationPropertiesCalls id p k numericalProperty iterator
  | .getRelationBooleanProperties id p k iterator =>
    getRelationPropertiesCalls id p k booleanProperty iterator
  | .getBundleObjects id iterator =>
    passing [notNone id, notNull iterator] (.getBundleObjects id iterator)
  | .getBundleRelations id iterator =>
    passing [notNone id, notNull iterator] (.getBundleRelations id iterator)
  | .getPrefixes id p iterator =>
    passing [notNone id, notNull iterator] (.getPrefixes id p iterator)

end FrontEnd

/-- `CPL_ENSURE_INITIALIZED` comes first in every function. -/
def PublicCall.callsOn {β : Type} (l : Library β) (found : ReturnCode) (c : PublicCall) :
    List BackendCall :=
  if l.initialized then c.backendCalls found else []

/-- Where the ranges of the two layers differ, or a check is missing, the call avoids it. -/
def PublicCall.Safe (found : ReturnCode) : PublicCall → Prop
  | .createObject p n type => p.isSome → n.isSome → type ≠ cplBundle
  | .lookupOrCreateObject p n type =>
    p.isSome → n.isSome → found = .notFound → type ≠ cplBundle
  | .addRelation f o type => f ≠ cplNone → o ≠ cplNone → type ≠ bundleRelation
  | .lookupObjectPropertyWildcard v => v.isSome
  | _ => True

theorem forall_passing {checks : List Bool} {c : BackendCall} {P : BackendCall → Prop} :
    (∀ b ∈ passing checks c, P b) ↔ (checks.all id = true → P c) := by
  unfold passing
  split
  · simp [*]
  · simp [*]

/-- The macro of the front end lets one type through that the assertion excludes. -/
theorem isObjectType_iff {type : ℤ} (h : EnsureOType type) :
    CplIsObjectType type ↔ type ≠ cplBundle := by
  simp only [EnsureOType, CplIsObjectType, cplBundle] at h ⊢
  omega

theorem isRelationType_iff {type : ℤ} (h : EnsureRType type) :
    CplIsRelationType type ↔ type ≠ bundleRelation := by
  simp only [EnsureRType, CplIsRelationType, bundleRelation] at h ⊢
  omega

theorem createObject_asserts_iff (p n : Option String) (type : ℤ) :
    (∀ b ∈ createObjectCalls p n type, b.Asserts) ↔
      (p.isSome → n.isSome → type ≠ cplBundle) := by
  have hbundle : EnsureOType cplBundle := by decide
  simp only [createObjectCalls, forall_passing, List.all_cons, List.all_nil, Bool.and_true,
    Bool.and_eq_true, id_eq, notNull, decide_eq_true_eq, BackendCall.Asserts]
  constructor
  · rintro h hp hn rfl
    exact (isObjectType_iff hbundle).mp (h ⟨hp, hn, hbundle⟩).2.2 rfl
  · rintro h ⟨hp, hn, ht⟩
    exact ⟨hp, hn, (isObjectType_iff ht).mpr (h hp hn)⟩

theorem addRelation_asserts_iff (f o : ℕ) (type : ℤ) :
    (∀ b ∈ passing [notNone f, notNone o, EnsureRType type] (.addRelation f o type),
      b.Asserts) ↔ (f ≠ cplNone → o ≠ cplNone → type ≠ bundleRelation) := by
  have hmember : EnsureRType bundleRelation := by decide
  simp only [forall_passing, List.all_cons, List.all_nil, Bool.and_true, Bool.and_eq_true, id_eq,
    notNone, decide_eq_true_eq, BackendCall.Asserts]
  constructor
  · rintro h hf ho rfl
    exact (isRelationType_iff hmember).mp (h ⟨hf, ho, hmember⟩).2.2 rfl
  · rintro h ⟨hf, ho, ht⟩
    exact ⟨hf, ho, (isRelationType_iff ht).mpr (h hf ho)⟩

theorem lookupObject_asserts (p n : Option String) (type : ℤ) :
    ∀ b ∈ lookupObjectCalls p n type, b.Asserts :=
  forall_passing.mpr fun _ => trivial

theorem lookupObjectCalls_ne_nil (p n : Option String) (type : ℤ) :
    lookupObjectCalls p n type ≠ [] ↔ p.isSome ∧ n.isSome := by
  cases p <;> cases n <;> simp [lookupObjectCalls, passing, notNull]

theorem lookupOrCreate_asserts_iff (found : ReturnCode) (p n : Option String) (type : ℤ) :
    (∀ b ∈ (PublicCall.lookupOrCreateObject p n type).backendCalls found, b.Asserts) ↔
      (PublicCall.lookupOrCreateObject p n type).Safe found := by
  simp only [PublicCall.backendCalls, PublicCall.Safe, List.forall_mem_append,
    lookupObjectCalls_ne_nil]
  rw [and_iff_right (lookupObject_asserts p n type)]
  split
  · next h =>
    rw [createObject_asserts_iff]
    simp [h.2]
  · next h =>
    refine iff_of_true (by simp) fun hp hn hf => ?_
    exact absurd ⟨⟨hp, hn⟩, hf⟩ h

theorem asserts_iff (found : ReturnCode) (c : PublicCall) :
    (∀ b ∈ c.backendCalls found, b.Asserts) ↔ c.Safe found := by
  cases c with
  | createObject p n type => exact createObject_asserts_iff p n type
  | lookupOrCreateObject p n type => exact lookupOrCreate_asserts_iff found p n type
  | addRelation f o type => exact addRelation_asserts_iff f o type
  | lookupObjectPropertyWildcard v =>
    simp [PublicCall.backendCalls, PublicCall.Safe, BackendCall.Asserts]
  | getSessionInfo id outInfo =>
    refine iff_of_true (forall_passing.mpr fun h => ?_) trivial
    simp only [List.all_cons, Bool.and_eq_true] at h
    exact h.2.1
  | getObjectInfo id outInfo =>
    refine iff_of_true (forall_passing.mpr fun h => ?_) trivial
    simp only [List.all_cons, Bool.and_eq_true] at h
    exact h.2.1
  | detach => exact iff_of_true (by simp [PublicCall.backendCalls, BackendCall.Asserts]) trivial
  | _ => exact iff_of_true (forall_passing.mpr fun _ => trivial) trivial

/-- After any run of attaches and detaches, the preconditions of every call that a function
makes of the backend hold exactly when its arguments are safe. -/
theorem preconditions_hold_iff {β : Type} (events : List (Event β)) (found : ReturnCode)
    (c : PublicCall) :
    let l := (runTrace next initial events).library
    (∀ b ∈ c.callsOn l found, b.Requires l.backend) ↔ (l.initialized = true → c.Safe found) := by
  intro l
  have hbackend : l.initialized = true → l.backend.isSome := initialized_has_backend events
  unfold PublicCall.callsOn
  by_cases hi : l.initialized = true
  · rw [if_pos hi, ← asserts_iff found c]
    simp only [BackendCall.Requires, hbackend hi, hi, true_and, true_imp_iff]
  · rw [if_neg hi]
    simp [hi]

/-- A bundle, a membership and a NULL pattern pass the checks and break the preconditions. -/
theorem bundle_breaks_precondition :
    let l := (runTrace next initial [Event.attach (some ()) true]).library
    (∃ b ∈ (PublicCall.createObject (some "test") (some "b") cplBundle).callsOn l .ok,
      ¬ b.Requires l.backend) ∧
    (∃ b ∈ (PublicCall.addRelation 1 1 bundleRelation).callsOn l .ok, ¬ b.Requires l.backend) ∧
    ∃ b ∈ (PublicCall.lookupObjectPropertyWildcard none).callsOn l .ok,
      ¬ b.Requires l.backend := by
  decide

/-- The import of any document that it accepts starts with such a call. -/
theorem importContents_breaks_precondition (srv : Server) (document : JsonValue.Json)
    (bundleName : String) (anchorObjects : List (ℕ × String)) (externObjF : Bool) :
    ∃ p, (∃ rest, importContents srv document bundleName anchorObjects externObjF =
        requireId (srv.createObject (some p) (some "") cplBundle) >>= rest) ∧
      ∀ found, ¬ (PublicCall.createObject (some p) (some "") cplBundle).Safe found :=
  ⟨QualifiedName.cStr bundleName, ⟨_, rfl⟩, fun _ h => h rfl rfl rfl⟩

end ArgumentChecks
