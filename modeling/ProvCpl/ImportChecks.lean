import ProvCpl.CheckedProgram
import ProvCpl.ImportGraph

/-! # The checks of the importer

What the importer asks of a document, in the order in which it asks. A check refuses by a return
code; where the source converts a value or reads a key without looking at the type, it throws. -/
namespace ImportChecks

open CplTypes QualifiedName JsonValue ProvStore ProvServer ServerSpecs ImportDocument
open ImportFrame ValidateDocument ImportAccepts ImportGraph EarlyExit CheckedProgram

/-- A section that is there has to be an object. -/
def sectionChecks (document : Json) (key : String) (checks : String × Json → List Verdict) :
    List Verdict :=
  if (document.find key).all Json.isObject then (document.membersAt key).flatMap checks
  else [.refuses]

/-- An IRI is converted to a string if it is a scalar of any type. -/
def prefixCheck (e : String × Json) : Verdict :=
  if e.2.isString then .passes else if e.2.IsScalar then .throws else .refuses

def propertyCheck (e : String × Json) : Verdict := if e.2.IsScalar then .passes else .refuses

/-- The keys of the members are read, whatever their owner is. -/
def propertyChecks (properties : Json) : List Verdict :=
  match properties.items with
  | none => [.throws]
  | some items => items.map propertyCheck

section Accepted

variable (accepted : String → Prop) [DecidablePred accepted]

/-- An end that is there is converted to a string. -/
def endpointCheck (record : Json) (key : String) : Verdict :=
  match record.find key with
  | none => .refuses
  | some v =>
    match v.getString with
    | none => .throws
    | some n => if accepted n then .passes else .refuses

def recordChecks (d : ProvRelationData) (e : String × Json) : List Verdict :=
  [endpointCheck accepted e.2 d.sourceStr] ++ ([endpointCheck accepted e.2 d.destStr] ++
    if e.1 ≠ d.sourceStr ∧ e.1 ≠ d.destStr then propertyChecks e.2 else [])

def relationChecks (document : Json) : List Verdict :=
  relationSections.flatMap fun d => sectionChecks document d.typeStr (recordChecks accepted d)

def objectChecks (document : Json) : List Verdict :=
  objectSections.flatMap fun t => sectionChecks document t.2 fun e => propertyChecks e.2

def importChecks (document : Json) : List Verdict :=
  sectionChecks document "prefix" (fun e => [prefixCheck e]) ++
    (objectChecks document ++ relationChecks accepted document)

def stageChecks (document : Json) : List Verdict :=
  sectionChecks document "prefix" (fun e => [prefixCheck e]) ++ objectChecks document

theorem importChecks_stage (document : Json) :
    importChecks accepted document = stageChecks document ++ relationChecks accepted document :=
  (List.append_assoc _ _ _).symm

end Accepted

/-- A document that is not a nonempty object has no sections. -/
theorem find_of_refused {document : Json}
    (h : document.equalsNull ∨ document.isEmpty ∨ ¬ document.isObject) (key : String) :
    document.find key = none := by
  cases document with
  | object m =>
    have hm : m = [] := by simpa [Json.equalsNull, Json.isEmpty, Json.isObject] using h
    rw [hm]
    rfl
  | _ => rfl

theorem not_object_of_refused {document : Json}
    (h : document.equalsNull ∨ document.isEmpty ∨ ¬ document.isObject)
    (hempty : ¬ (document.equalsNull = true ∨ document.isEmpty = true)) :
    ¬ document.isObject = true := by
  rcases h with h | h | h
  · exact absurd (Or.inl h) hempty
  · exact absurd (Or.inr h) hempty
  · exact h

def Escapes (e : Stop) : Prop := ∀ code, e ≠ .ret code

theorem not_escapes_ret (code : ReturnCode) : ¬ Escapes (.ret code) := fun h => h code rfl

theorem escapes_thrown : Escapes .thrown := by simp [Escapes]

/-- The program makes these checks, keeping the property of stores. -/
def Makes {α : Type} (lossy : Prop) (I : Store → Prop) (m : Api α) (vs : List Verdict)
    (R : α → Prop) : Prop :=
  Follows lossy Escapes (fun w => I w.store) m vs R

section Steps

variable {srv : Server} {lossy : Prop} {I : Store → Prop} {α : Type}

theorem makes_requireId {c : Call World (ReturnCode × Option ℕ)} {R : ℕ → Prop}
    (hc : ∀ w, I w.store → I (c w).2.store ∧ ∀ id, (c w).1.2 = some id → R id)
    (hsome : ∀ w, (c w).1.1.IsOk → (c w).1.2.isSome)
    (hok : ¬ lossy → ∀ w, I w.store → (c w).1.1.IsOk) : Makes lossy I (requireId c) [] R := by
  intro w hw
  obtain ⟨hI, hR⟩ := hc w hw
  by_cases hcode : (c w).1.1.IsOk
  · obtain ⟨id, hid⟩ := Option.isSome_iff_exists.mp (hsome w hcode)
    simp only [requireId, bind_run, call, if_pos hcode, hid, pure_run]
    exact ⟨hI, rfl, hR id hid⟩
  · have hlossy : lossy := by
      by_contra hl
      exact hcode (hok hl w hw)
    simp only [requireId, bind_run, call, if_neg hcode, leave]
    exact ⟨fun h => absurd h (not_escapes_ret _), fun _ => Or.inl hlossy⟩

theorem makes_requireOk {c : Call World ReturnCode} (hc : ∀ w, I w.store → I (c w).2.store)
    (hok : ¬ lossy → ∀ w, I w.store → (c w).1.IsOk) :
    Makes lossy I (requireOk c) [] fun _ => True := by
  intro w hw
  by_cases hcode : (c w).1.IsOk
  · simp only [requireOk, bind_run, call, if_pos hcode, pure_run]
    exact ⟨hc w hw, rfl, trivial⟩
  · have hlossy : lossy := by
      by_contra hl
      exact hcode (hok hl w hw)
    simp only [requireOk, bind_run, call, if_neg hcode, leave]
    exact ⟨fun h => absurd h (not_escapes_ret _), fun _ => Or.inl hlossy⟩

theorem makes_callUnchecked {c : Call World ReturnCode}
    (hc : ∀ w, I w.store → I (c w).2.store) :
    Makes lossy I (callUnchecked c) [] fun _ => True :=
  follows_bind (R := fun _ => True) (v := []) (u := [])
    (follows_call fun w hw => ⟨hc w hw, trivial⟩) fun _ _ => follows_pure trivial

theorem makes_importProperty {out : PropertyWriter} {id : ℕ} (h : WriterKeeps I out id)
    (e : String × Json) :
    Makes lossy I (importProperty out id e) [propertyCheck e] fun _ => True := by
  have hpass : e.2.IsScalar → ∀ {c : Call World ReturnCode},
      (∀ w, I w.store → I (c w).2.store) →
      Makes lossy I (callUnchecked c) [propertyCheck e] fun _ => True := by
    intro hs c hc
    apply follows_congr (makes_callUnchecked hc)
    simp [propertyCheck, if_pos hs, firstFault]
  have hrefuse : ¬ e.2.IsScalar →
      Makes lossy I (leave (.ret .invalidArgument) : Api Unit) [propertyCheck e] fun _ => True := by
    intro hs
    apply follows_refuse (not_escapes_ret _)
    simp [propertyCheck, if_neg hs, firstFault]
  obtain ⟨key, v⟩ := e
  cases v with
  | string s => exact hpass trivial (h.addString _ _ _)
  | integer n => exact hpass trivial (h.addNumerical _ _ _ (FloatText.fits_ofInt n))
  | unsigned n => exact hpass trivial (h.addNumerical _ _ _ (FloatText.fits_ofInt n))
  | float x => exact hpass trivial (h.addNumerical _ _ _ (FloatText.fits_cast x))
  | boolean b => exact hpass trivial (h.addBoolean _ _ _)
  | null => exact hrefuse fun hs => hs
  | array l => exact hrefuse fun hs => hs
  | object m => exact hrefuse fun hs => hs

theorem makes_importProperties {out : PropertyWriter} {id : ℕ} (h : WriterKeeps I out id)
    (properties : Json) :
    Makes lossy I (importProperties out id properties) (propertyChecks properties)
      fun _ => True := by
  unfold importProperties propertyChecks
  cases hitems : properties.items with
  | none =>
    refine follows_bind (R := fun _ => False) (v := [.throws]) (u := [])
      (follows_throw escapes_thrown rfl) ?_
    intro _ h
    exact h.elim
  | some items =>
    dsimp only
    rw [List.map_eq_flatMap]
    refine follows_bind (R := (· = items)) (v := []) (follows_pure rfl) ?_
    rintro _ rfl
    exact follows_forEach fun e _ => makes_importProperty h e

end Steps

structure Lists (names : List String) (tbl : LookupTable) : Prop where
  covers : Covers names tbl
  only : ∀ n id, OrderedMap.find n tbl = some id → n ∈ names

theorem lists_nil : Lists [] [] := ⟨covers_nil, fun _ _ h => nomatch h⟩

theorem Lists.absent {names : List String} {tbl : LookupTable} (h : Lists names tbl) {n : String}
    (hn : n ∉ names) : OrderedMap.find n tbl = none := by
  cases hf : OrderedMap.find n tbl with
  | none => rfl
  | some id => exact absurd (h.only n id hf) hn

theorem Lists.emplace {names : List String} {tbl : LookupTable} (h : Lists names tbl) {id : ℕ}
    (hid : id ≠ 0) (name : String) :
    Lists (names ++ [name]) (OrderedMap.emplace name id tbl) := by
  refine ⟨h.covers.emplace hid name, fun n i hi => ?_⟩
  rw [OrderedMap.find_emplace] at hi
  by_cases hn : n = name
  · simp [hn]
  · rw [if_neg hn] at hi
    exact List.mem_append_left _ (h.only n i hi)

/-- A name that is not declared is refused, or it is found if nothing is lost. -/
def Settled (lossy : Prop) (I : Store → Prop) (externObjF : Bool) (accepted : String → Prop)
    (names : List String) (n : String) (type : ℤ) : Prop :=
  n ∈ names ∧ accepted n ∨ n ∉ names ∧ (externObjF = false ∧ ¬ accepted n ∨
    accepted n ∧ (¬ lossy → externObjF = true ∧ ∀ s, I s →
      s.objectsNamed (cStr (nameToTokens n).1) (cStr (nameToTokens n).2) type ≠ []))

section Importer

variable {srv : Server} {lossy : Prop} {I : Store → Prop} {b : ℕ}
  (hsrv : ¬ lossy → Reliable srv) (hI : ImportClosed I 1 1)

include hsrv hI

theorem makes_createObject (p n : String) {t : ℤ} (ht : EnsureOType t) :
    Makes lossy I (requireId (srv.createObject (some p) (some n) t)) [] fun id => id ≠ 0 := by
  refine makes_requireId (fun w hw => ⟨?_, ?_⟩) (fun w hok => ?_) fun hl w _ => ?_
  · exact createObject_keeps (fun s p n now => hI.object s p n t now) hw
  · intro id hid
    apply Nat.one_le_iff_ne_zero.mp
    exact createObject_value (Q := fun id => 1 ≤ id)
      (fun s p n now ht hs => ⟨hI.object s p n t now ht hs, (hI.next s hs).1⟩) hw id hid
  · obtain ⟨-, -, hid, -⟩ := createObject_ok hok
    rw [hid]
    rfl
  · rw [createObject_reliable (hsrv hl) p n ht]
    simp

theorem makes_importBundlePrefixesJson (hbundle : ∀ s, I s → HasBundle b s) (hb : b ≠ 0)
    (document : Json) :
    Makes lossy I (importBundlePrefixesJson srv b document)
      (sectionChecks document "prefix" fun e => [prefixCheck e]) fun _ => True := by
  have hnamespace : ∀ e : String × Json, Makes lossy I (importBundlePrefix srv b e)
      [prefixCheck e] fun _ => True := by
    intro e
    unfold importBundlePrefix prefixCheck
    by_cases hs : e.2.IsScalar
    · rw [if_pos hs, if_pos hs]
      by_cases hstring : e.2.isString
      · obtain ⟨iri, hiri⟩ := isString_iff.mp hstring
        rw [hiri]
        refine follows_congr (follows_bind (R := fun _ => True) (v := []) (u := [])
          (follows_pure trivial) fun _ _ => makes_requireOk (fun w hw => ?_) fun hl w hw => ?_) rfl
        · exact addPrefix_keeps (fun s s' p i h0 he hs => hI.prefixRow s s' _
            (Nat.one_le_iff_ne_zero.mpr h0) h0 he hs) hw
        · rw [addPrefix_reliable (hsrv hl) hb (hbundle _ hw).stored]
          simp
      · rw [if_neg hstring]
        have hnone : e.2.getString = none := by
          cases he : e.2 with
          | string s => exact absurd (by rw [he]; rfl) hstring
          | _ => rfl
        rw [hnone]
        refine follows_bind (R := fun _ => False) (v := [.throws]) (u := [])
          (follows_throw escapes_thrown rfl) fun _ h => h.elim
    · have hstring : ¬ e.2.isString := by
        intro h
        obtain ⟨s, h⟩ := isString_iff.mp h
        exact hs (by rw [h]; trivial)
      rw [if_neg hs, if_neg hs, if_neg hstring]
      exact follows_refuse (not_escapes_ret _) rfl
  unfold sectionChecks
  rw [importBundlePrefixesJson_eq]
  split
  · exact follows_forEach fun e _ => hnamespace e
  · exact follows_refuse (not_escapes_ret _) rfl

theorem makes_importObjectsJson {u : ℤ × String} (hu : u ∈ objectSections) {names : List String}
    {tbl : LookupTable} (htbl : Lists names tbl) (document : Json) :
    Makes lossy I (importObjectsJson srv u.1 u.2 tbl document)
      (sectionChecks document u.2 fun e => propertyChecks e.2)
      (Lists (names ++ (document.membersAt u.2).map Prod.fst)) := by
  have ht : ∀ u ∈ objectSections, EnsureOType u.1 := by decide
  unfold sectionChecks
  rw [importObjectsJson_eq]
  split
  · refine follows_weaken (follows_fold
      (T := fun done tbl => Lists (names ++ done.map Prod.fst) tbl) (by simpa using htbl)
      fun done e tbl _ htbl => ?_) fun _ h => h
    refine follows_congr (follows_bind (u := propertyChecks e.2 ++ [])
      (makes_createObject hsrv hI _ _ (ht u hu)) fun id hid => ?_) (by simp)
    refine follows_bind (makes_importProperties
      (hI.objects.objectWriter (Nat.one_le_iff_ne_zero.mpr hid)) e.2) fun _ _ => ?_
    refine follows_pure ?_
    simpa using htbl.emplace hid e.1
  · exact follows_refuse (not_escapes_ret _) rfl

variable {accepted : String → Prop} [DecidablePred accepted] {names : List String}
  {tbl : LookupTable} {externObjF : Bool}

omit hI in
theorem makes_lookupObject (hreach : ∀ s, I s → s.Reachable) {p n : String} {type : ℤ}
    (hfound : ¬ lossy → ∀ s, I s → s.objectsNamed p n type ≠ []) :
    Makes lossy I (requireId (srv.lookupObject (some p) (some n) type)) [] fun id => id ≠ 0 := by
  refine makes_requireId (fun w hw => ⟨?_, ?_⟩) (fun w hok => lookupObject_isSome hok)
    fun hl w hw => ?_
  · rwa [lookupObject_store]
  · intro id hid
    obtain ⟨r, hr, rfl⟩ := lookupObject_value hid
    simp only [Store.objectsNamed, List.mem_filter, decide_eq_true_eq] at hr
    exact (hreach _ hw).named_ne_zero r hr.1 (by rw [hr.2.2.1]; rfl)
  · rw [lookupObject_isOk_iff (hsrv hl)]
    exact hfound hl _ hw

omit hI in
theorem makes_importEndpoint (hreach : ∀ s, I s → s.Reachable) (htbl : Lists names tbl)
    {record : Json} {key : String} {type : ℤ}
    (hend : ∀ n, record.find key = some (.string n) →
      Settled lossy I externObjF accepted names n type) :
    Makes lossy I (importEndpoint srv tbl externObjF record key type)
      [endpointCheck accepted record key] fun id => id ≠ 0 := by
  unfold importEndpoint endpointCheck
  cases hv : record.find key with
  | none => exact follows_refuse (not_escapes_ret _) rfl
  | some v =>
    dsimp only
    cases hn : v.getString with
    | none =>
      exact follows_bind (R := fun _ => False) (v := [.throws]) (u := [])
        (follows_throw escapes_thrown rfl) fun _ h => h.elim
    | some n =>
      have hstring : v = .string n := getString_eq_some hn
      have hsettled := hend n (by rw [hv, hstring])
      dsimp only
      refine follows_bind (R := (· = n)) (v := []) (follows_pure rfl) fun m hm => ?_
      rw [hm]
      cases hf : OrderedMap.find n tbl with
      | some id =>
        rcases hsettled with ⟨-, haccepted⟩ | ⟨hnot, -⟩
        · rw [if_pos haccepted]
          exact follows_congr (follows_pure (htbl.covers.nonzero n id hf)) rfl
        · exact absurd (htbl.only n id hf) hnot
      | none =>
        have hnot : n ∉ names := by
          intro hmem
          have hsome := htbl.covers.found n hmem
          rw [hf] at hsome
          cases hsome
        rcases hsettled with ⟨hmem, -⟩ | ⟨-, ⟨hflag, hrefused⟩ | ⟨haccepted, hfound⟩⟩
        · exact absurd hmem hnot
        · rw [hflag, if_neg hrefused, if_neg Bool.false_ne_true]
          exact follows_refuse (not_escapes_ret _) rfl
        · rw [if_pos haccepted]
          refine follows_ite (fun _ => ?_) fun hflag => ?_
          · exact follows_congr (makes_lookupObject hsrv hreach fun hl => (hfound hl).2) rfl
          · apply follows_lost (not_escapes_ret _)
            by_contra hl
            exact hflag (hfound hl).1

def EndsSettled (lossy : Prop) (I : Store → Prop) (externObjF : Bool) (accepted : String → Prop)
    (names : List String) (d : ProvRelationData) (e : String × Json) : Prop :=
  ∀ end' ∈ [(d.sourceStr, d.sourceT), (d.destStr, d.destT)], ∀ n,
    e.2.find end'.1 = some (.string n) → Settled lossy I externObjF accepted names n end'.2

end Importer

section Relations

variable {srv : Server} {lossy : Prop} {I : Store → Prop} {b : ℕ}
  (hsrv : ¬ lossy → Reliable srv) (hI : RelationClosed I b 1) {accepted : String → Prop}
  [DecidablePred accepted] {names : List String} {tbl : LookupTable} {externObjF : Bool}

include hsrv hI

theorem makes_addRelation {f o : ℕ} {t : ℤ} (hf : f ≠ 0) (ho : o ≠ 0) (ht : EnsureRType t)
    (hm : t ≠ bundleRelation) :
    Makes lossy I (requireId (srv.addRelation f o t)) [] fun id => id ≠ 0 := by
  refine makes_requireId (fun w hw => ⟨?_, ?_⟩) (fun w hok => ?_) fun hl w _ => ?_
  · exact addRelation_keeps (fun s hf ho ht => hI.relation s f o t hf ho ht (absurd · hm)) hw
  · intro id hid
    apply Nat.one_le_iff_ne_zero.mp
    exact addRelation_value (Q := fun id => 1 ≤ id)
      (fun s hf ho ht hs => ⟨hI.relation s f o t hf ho ht (absurd · hm) hs, hI.next s hs⟩) hw id hid
  · obtain ⟨-, -, -, hid, -⟩ := addRelation_ok hok
    rw [hid]
    rfl
  · rw [addRelation_reliable (hsrv hl) hf ho ht]
    simp

theorem makes_addMembership {r : ℕ} (hb : b ≠ 0) (hr : r ≠ 0) :
    Makes lossy I (requireOk (codeOnly (srv.addRelation b r bundleRelation))) [] fun _ => True := by
  have ht : EnsureRType bundleRelation := by decide
  refine makes_requireOk (fun w hw => ?_) fun hl w _ => ?_
  · exact addRelation_keeps (fun s hf ho ht => hI.relation s b r _ hf ho ht fun _ => rfl) hw
  · rw [codeOnly, addRelation_reliable (hsrv hl) hb hr ht]
    simp

theorem makes_importRelation (hreach : ∀ s, I s → s.Reachable) (hb : b ≠ 0)
    (htbl : Lists names tbl) {d : ProvRelationData} (hd : d ∈ relationSections)
    {e : String × Json} (hends : EndsSettled lossy I externObjF accepted names d e) :
    Makes lossy I (importRelation srv b tbl externObjF d e) (recordChecks accepted d e)
      fun _ => True := by
  have hsource := hends (d.sourceStr, d.sourceT) List.mem_cons_self
  have hdest := hends (d.destStr, d.destT) (List.mem_cons_of_mem _ List.mem_cons_self)
  refine follows_bind (makes_importEndpoint hsrv hreach htbl hsource) fun f hf => ?_
  refine follows_bind (makes_importEndpoint hsrv hreach htbl hdest) fun o ho => ?_
  let rest := if e.1 ≠ d.sourceStr ∧ e.1 ≠ d.destStr then propertyChecks e.2 else []
  have htype := relationSections_ensureRType d hd
  refine follows_bind (v := []) (u := rest) (makes_addRelation hsrv hI hf ho htype.1 htype.2)
    fun id hid => ?_
  refine follows_bind (v := []) (u := rest) (makes_addMembership hsrv hI hb hid) fun _ _ => ?_
  by_cases hnamed : e.1 ≠ d.sourceStr ∧ e.1 ≠ d.destStr
  · rw [if_pos hnamed, show rest = propertyChecks e.2 from if_pos hnamed]
    exact makes_importProperties (hI.relationWriter (Nat.one_le_iff_ne_zero.mpr hid)) e.2
  · rw [if_neg hnamed, show rest = [] from if_neg hnamed]
    exact follows_pure trivial

theorem makes_importRelationsJson (hreach : ∀ s, I s → s.Reachable) (hb : b ≠ 0)
    (htbl : Lists names tbl) {document : Json}
    (hends : ∀ d ∈ relationSections, ∀ e ∈ records document d,
      EndsSettled lossy I externObjF accepted names d e) :
    Makes lossy I (importRelationsJson srv b tbl document externObjF)
      (relationChecks accepted document) fun _ => True := by
  refine follows_forEach fun d hd => ?_
  unfold sectionChecks
  rw [importRelationSection_eq]
  split
  · exact follows_forEach fun e he =>
      makes_importRelation hsrv hI hreach hb htbl hd (hends d hd e he)
  · exact follows_refuse (not_escapes_ret _) rfl

omit hsrv [DecidablePred accepted] in
theorem makes_anchors {anchors : List (ℕ × String)} (hanchors : ¬ lossy → anchors = []) :
    Makes lossy I (forEach (connectAnchor srv b) anchors) [] fun _ => True := by
  by_cases hl : lossy
  · have hnone : (anchors.flatMap fun _ => ([] : List Verdict)) = [] := by simp
    rw [← hnone]
    refine follows_forEach fun anchor _ => ?_
    refine follows_bind (R := fun out => out.1.IsOk → out.2.isSome) (v := []) (u := [])
      (follows_call fun w hw => ⟨by rwa [lookupObject_store], lookupObject_isSome⟩)
      fun found hfound => follows_ite (fun hok => ?_) fun _ => follows_pure trivial
    obtain ⟨source, hsource⟩ := Option.isSome_iff_exists.mp (hfound hok)
    rw [hsource]
    refine follows_bind (R := fun _ => True) (v := []) (u := []) (makes_requireId
      (fun w hw => ⟨?_, fun _ _ => trivial⟩) (fun w hok => ?_) fun h => absurd hl h) fun id _ => ?_
    · exact addRelation_keeps
        (fun s hf ho ht => hI.relation s _ _ _ hf ho ht (absurd · (by decide))) hw
    · obtain ⟨-, -, -, hid, -⟩ := addRelation_ok hok
      rw [hid]
      rfl
    · refine makes_requireOk (fun w hw => ?_) fun h => absurd hl h
      exact addRelation_keeps (fun s hf ho ht => hI.relation s _ _ _ hf ho ht fun _ => rfl) hw
  · rw [hanchors hl]
    exact follows_pure trivial

end Relations

section Call

variable {srv : Server} {lossy : Prop} {J : Store → Prop} (hsrv : ¬ lossy → Reliable srv)
  (hJ : ImportClosed J 0 0) {accepted : String → Prop} [DecidablePred accepted]
  {externObjF : Bool} {document : Json}

include hsrv hJ

theorem creates_bundle (bundleName : String) :
    Triple (fun w => w.store.Reachable ∧ J w.store)
      (requireId (srv.createObject (some (cStr bundleName)) (some "") cplBundle))
      (fun b w => HasBundle b w.store ∧ J w.store)
      (fun e _ => ¬ Escapes e ∧ lossy) := by
  rintro w ⟨hreach, hw⟩
  have hreach' : (srv.createObject (some (cStr bundleName)) (some "") cplBundle
      w).2.store.Reachable :=
    createObject_keeps (fun s p n now ht hs => .createObject p n _ now ht hs) hreach
  have hJ' : J (srv.createObject (some (cStr bundleName)) (some "") cplBundle w).2.store :=
    createObject_keeps (fun s p n now ht hs => hJ.object s p n cplBundle now ht hs) hw
  by_cases hok : (srv.createObject (some (cStr bundleName)) (some "") cplBundle w).1.1.IsOk
  · obtain ⟨-, -, hid, hstore⟩ := createObject_ok hok
    have hnamed := hreach'.named_ne_zero
    rw [hstore] at hnamed
    simp only [requireId, bind_run, call, if_pos hok, hid, pure_run]
    refine ⟨⟨hreach', ?_, ?_⟩, hJ'⟩
    · rw [hstore]
      simp [Store.insertObject]
    · exact hnamed _ (List.mem_append_right _ (List.mem_singleton_self _)) rfl
  · have hlossy : lossy := by
      by_contra hl
      rw [createObject_reliable (hsrv hl) _ _ (show EnsureOType cplBundle by decide)] at hok
      simp at hok
    simp only [requireId, bind_run, call, if_neg hok, leave]
    exact ⟨not_escapes_ret _, hlossy⟩

theorem makes_objectStage (document : Json) (bundleName : String) :
    Triple (fun w => w.store.Reachable ∧ J w.store) (objectStage srv document bundleName)
      (fun out w => (HasBundle out.1 w.store ∧ J w.store) ∧
        firstFault (stageChecks document) = none ∧ Lists (declaredNames document) out.2)
      fun e _ => (Escapes e → firstFault (stageChecks document) = some .throws) ∧
        (¬ Escapes e → lossy ∨ firstFault (stageChecks document) = some .refuses) := by
  refine triple_bind (Q := fun b w => HasBundle b w.store ∧ J w.store)
    (triple_conseq (creates_bundle hsrv hJ bundleName) (fun _ hw => hw) (fun _ _ hw => hw)
      fun e _ he => ⟨fun h => absurd h he.1, fun _ => Or.inl he.2⟩) fun b => ?_
  rintro w ⟨hbundle, hw⟩
  have hI : ImportClosed (fun t => HasBundle b t ∧ J t) 1 1 :=
    (importClosed_hasBundle b).conj hJ (Nat.zero_le _) (Nat.zero_le _)
  have hrest : Makes lossy (fun t => HasBundle b t ∧ J t) (do
      importBundlePrefixesJson srv b document
      let tbl1 ← importObjectsJson srv cplEntity cplEntityStr [] document
      let tbl2 ← importObjectsJson srv cplAgent cplAgentStr tbl1 document
      let tbl3 ← importObjectsJson srv cplActivity cplActivityStr tbl2 document
      pure (b, tbl3)) (stageChecks document)
      fun out => out.1 = b ∧ Lists (declaredNames document) out.2 := by
    refine follows_bind (makes_importBundlePrefixesJson hsrv hI (fun s hs => hs.1)
      hbundle.nonzero document) fun _ _ => ?_
    have hobjects : objectChecks document =
        sectionChecks document cplEntityStr (fun e => propertyChecks e.2) ++
        (sectionChecks document cplAgentStr (fun e => propertyChecks e.2) ++
        (sectionChecks document cplActivityStr (fun e => propertyChecks e.2) ++ [])) := by
      simp [objectChecks, objectSections]
    rw [hobjects]
    refine follows_bind (makes_importObjectsJson hsrv hI (u := (cplEntity, cplEntityStr))
      (by decide) lists_nil document) fun tbl1 h1 => ?_
    refine follows_bind (makes_importObjectsJson hsrv hI (u := (cplAgent, cplAgentStr))
      (by decide) h1 document) fun tbl2 h2 => ?_
    refine follows_bind (makes_importObjectsJson hsrv hI (u := (cplActivity, cplActivityStr))
      (by decide) h2 document) fun tbl3 h3 => ?_
    exact follows_pure ⟨rfl, by simpa [declaredNames, objectSections] using h3⟩
  refine triple_conseq hrest (fun _ h => h) (fun out w h => ?_) (fun _ _ h => h) w ⟨hbundle, hw⟩
  obtain ⟨hI, hnone, rfl, hlists⟩ := h
  exact ⟨hI, hnone, hlists⟩

theorem makes_importContents (bundleName : String) {anchors : List (ℕ × String)}
    (hanchors : ¬ lossy → anchors = [])
    (hends : ∀ d ∈ relationSections, ∀ e ∈ records document d,
      EndsSettled lossy (fun t => t.Reachable ∧ J t) externObjF accepted
        (declaredNames document) d e) :
    Makes lossy (fun t => t.Reachable ∧ J t)
      (importContents srv document bundleName anchors externObjF)
      (importChecks accepted document) fun _ => True := by
  rw [importContents_stage, importChecks_stage]
  unfold Makes Follows
  rw [firstFault_append]
  refine triple_bind (triple_conseq (makes_objectStage hsrv hJ document bundleName)
    (fun _ h => h) (fun _ _ h => h) fun e _ he => ?_) fun out w hw => ?_
  · exact explained_append he _
  · obtain ⟨b, tbl⟩ := out
    obtain ⟨⟨hbundle, hJw⟩, hnone, hlists⟩ := hw
    rw [hnone, Option.none_or]
    have hI : ImportClosed (fun t => HasBundle b t ∧ J t) 1 1 :=
      (importClosed_hasBundle b).conj hJ (Nat.zero_le _) (Nat.zero_le _)
    have hsettled : ∀ d ∈ relationSections, ∀ e ∈ records document d,
        EndsSettled lossy (fun t => HasBundle b t ∧ J t) externObjF accepted
          (declaredNames document) d e := by
      intro d hd e he end' hend n hn
      rcases hends d hd e he end' hend n hn with h | ⟨hnot, h | ⟨haccepted, h⟩⟩
      · exact Or.inl h
      · exact Or.inr ⟨hnot, Or.inl h⟩
      · exact Or.inr ⟨hnot, Or.inr ⟨haccepted, fun hl =>
          ⟨(h hl).1, fun s hs => (h hl).2 s ⟨hs.1.reachable, hs.2⟩⟩⟩⟩
    have hrest : Makes lossy (fun t => HasBundle b t ∧ J t) (do
        forEach (connectAnchor srv b) anchors
        importRelationsJson srv b tbl document externObjF
        pure b) ([] ++ (relationChecks accepted document ++ [])) fun _ => True := by
      refine follows_bind (makes_anchors hI.relations hanchors) fun _ _ => ?_
      exact follows_bind (makes_importRelationsJson hsrv hI.relations (fun s hs => hs.1.reachable)
        hbundle.nonzero hlists hsettled) fun _ _ => follows_pure trivial
    rw [List.nil_append, List.append_nil] at hrest
    exact triple_conseq hrest (fun _ h => h) (fun _ _ h => ⟨⟨h.1.1.reachable, h.1.2⟩, h.2⟩)
      (fun _ _ h => h) w ⟨hbundle, hJw⟩

end Call

end ImportChecks
