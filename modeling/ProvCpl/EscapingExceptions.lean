import ProvCpl.ImportChecks

/-! # Exceptions that escape

Neither function catches what the JSON library throws. The text is parsed without a guard, and
conversions are made of values whose types were not looked at. So a call ends with a return code
exactly when something that is refused comes before everything that throws. -/
namespace EscapingExceptions

open CplTypes QualifiedName JsonValue ProvStore ProvServer ServerSpecs ImportDocument
open ImportFrame ValidateDocument ImportAccepts ImportGraph VertexNumbering ImportChecks
open EarlyExit CheckedProgram

/-- The ends of a record are converted to strings if both are there. -/
def conversionCheck (v : Json) : Verdict := if v.isString then .passes else .throws

def validatedChecks (d : ProvRelationData) (val : Json) : List Verdict :=
  match val.find d.sourceStr with
  | none => [.refuses]
  | some source =>
    match val.find d.destStr with
    | none => []
    | some dest => [conversionCheck source, conversionCheck dest]

def validatorChecks (document : Json) : List Verdict :=
  relationSections.flatMap fun d =>
    (((document.find d.typeStr).map Json.values).getD []).flatMap (validatedChecks d)

section Validator

variable {lossy : Prop} {I : String → Prop}

theorem follows_conversion (v : Json) :
    Follows lossy Escapes I (orThrow v.getString : Check String) [conversionCheck v]
      fun _ => True := by
  unfold conversionCheck
  cases v with
  | string s => exact follows_congr (follows_pure trivial) rfl
  | _ => exact follows_throw escapes_thrown rfl

theorem follows_validateRecord (d : ProvRelationData) (g : Numbering String) (val : Json) :
    Follows lossy Escapes I (validateRecord d g val) (validatedChecks d val) fun _ => True := by
  unfold validateRecord validatedChecks
  cases val.find d.sourceStr with
  | none => exact follows_refuse (not_escapes_ret _) rfl
  | some source =>
    cases val.find d.destStr with
    | none => exact follows_pure trivial
    | some dest =>
      refine follows_bind (v := [conversionCheck source]) (u := [conversionCheck dest])
        (follows_conversion source) fun a _ => ?_
      refine follows_bind (u := []) (follows_conversion dest) fun c _ => ?_
      exact follows_pure trivial

theorem follows_validateSections (document : Json) (g : Numbering String) :
    Follows lossy Escapes I (fold (validateSection document) g relationSections)
      (validatorChecks document) fun _ => True := by
  refine follows_fold (T := fun _ _ => True) trivial fun _ d g _ _ => ?_
  unfold validateSection
  cases document.find d.typeStr with
  | none => exact follows_pure trivial
  | some relations =>
    exact follows_fold (T := fun _ _ => True) trivial
      fun _ val g _ _ => follows_validateRecord d g val

/-- With the graph sorted, only a code is left to be returned. -/
theorem follows_validateContents (notADag : List (ℕ × ℕ) → ℕ → Bool) (document : Json) :
    Follows (firstFault (validatorChecks document) = none) Escapes (fun _ => True)
      (validateContents notADag document) (validatorChecks document) fun _ => True := by
  have hset : ∀ {lossy : Prop} text, Follows lossy Escapes (fun _ => True) (setOut text) []
      fun _ => True := fun _ => follows_call fun _ _ => ⟨trivial, trivial⟩
  refine follows_bind (v := []) (u := validatorChecks document) (hset _) fun _ _ => ?_
  refine follows_congr (v := validatorChecks document ++ []) ?_ (by rw [List.append_nil])
  refine follows_bind (follows_passed (follows_validateSections document _)) fun g hg =>
    follows_ite (fun _ => ?_) fun _ => hset _
  refine follows_bind (v := []) (u := []) (hset _) fun _ _ => ?_
  exact follows_lost (not_escapes_ret _) hg.1

end Validator

/-- Each call ends with a return code: the validator, and the importer with whatever server,
store and arguments. -/
structure Contained (parse : String → Option Json) (jsonString : String) : Prop where
  validates : ∀ notADag stringOut, ∃ code,
    (validateJson parse notADag jsonString stringOut).1 = .ret code
  imports : ∀ srv s, s.Reachable → ∀ calls bundleName anchors flags outId, ∃ code,
    (importDocumentJson parse srv jsonString bundleName anchors flags outId ⟨s, calls⟩).1.1 =
      .ret code

theorem ret_of_not_escapes {e : Stop} (h : ¬ Escapes e) : ∃ code, e = .ret code := by
  cases e with
  | ret code => exact ⟨code, rfl⟩
  | thrown => exact absurd escapes_thrown h
  | undefined => exact absurd (by simp [Escapes]) h

theorem escapes_gotoError (e : Stop) : Escapes (match e with
    | .ret _ => .ret .internalError
    | e => e) ↔ Escapes e := by
  cases e <;> simp [Escapes]

section Call

variable {parse : String → Option Json} {jsonString : String} {document : Json}

theorem validateJson_ret_iff (hp : parse jsonString = some document)
    (notADag : List (ℕ × ℕ) → ℕ → Bool) (stringOut : String) :
    (∃ code, (validateJson parse notADag jsonString stringOut).1 = .ret code) ↔
      firstFault (validatorChecks document) ≠ some .throws := by
  unfold validateJson validateDocument
  simp only [bind_run, setOut, call, hp, orThrow, pure_run]
  by_cases hrefused : document.equalsNull ∨ document.isEmpty ∨ ¬ document.isObject
  · have hnone : validatorChecks document = [] := by
      simp [validatorChecks, find_of_refused hrefused]
    rw [hnone]
    refine iff_of_true ?_ (by simp)
    by_cases hempty : document.equalsNull ∨ document.isEmpty
    · rw [if_pos hempty]
      exact ⟨_, rfl⟩
    · rw [if_neg hempty, if_pos (not_object_of_refused hrefused hempty)]
      exact ⟨_, rfl⟩
  · have hempty : ¬ (document.equalsNull = true ∨ document.isEmpty = true) := fun h =>
      hrefused (h.elim Or.inl fun h => Or.inr (Or.inl h))
    rw [if_neg hempty, if_neg fun h => hrefused (Or.inr (Or.inr h))]
    have hfollows := follows_validateContents notADag document
    constructor
    · rintro ⟨code, hcode⟩ hthrows
      obtain ⟨e, he, hesc⟩ := hfollows.escapes_of_throws (s := "Validation failed on upload \n")
        (by simp [hthrows]) trivial hthrows
      rcases hrun : validateContents notADag document "Validation failed on upload \n" with ⟨r, out⟩
      rw [hrun] at hcode he
      subst he
      exact hesc code hcode
    · intro hthrows
      rcases hrun : validateContents notADag document "Validation failed on upload \n" with ⟨r, out⟩
      cases r with
      | ok a => exact ⟨_, rfl⟩
      | error e =>
        apply ret_of_not_escapes
        intro hesc
        exact hthrows (hfollows.escaped trivial (congrArg Prod.fst hrun) hesc)

theorem importDocumentJson_ret_iff {srv : Server} {lossy : Prop} {J : Store → Prop}
    (hsrv : ¬ lossy → Reliable srv) (hJ : ImportClosed J 0 0)
    (hp : parse jsonString = some document) {anchors : List (ℕ × String)}
    (hanchors : ¬ lossy → anchors = []) {flags : ℤ}
    (hends : ∀ d ∈ relationSections, ∀ e ∈ records document d,
      EndsSettled lossy (fun t => t.Reachable ∧ J t) (decide (flags ≠ 0 ∧ cplJExternObj ≠ 0))
        (fun _ => True) (declaredNames document) d e)
    {s : Store} (hs : s.Reachable) (hJs : J s) (calls : ℕ) (bundleName : String)
    (outId : Option ℕ) :
    (firstFault (importChecks (fun _ => True) document) ≠ some .throws → ∃ code,
      (importDocumentJson parse srv jsonString bundleName anchors flags outId ⟨s, calls⟩).1.1 =
        .ret code) ∧
    (¬ lossy → firstFault (importChecks (fun _ => True) document) = some .throws → ∀ code,
      (importDocumentJson parse srv jsonString bundleName anchors flags outId ⟨s, calls⟩).1.1 ≠
        .ret code) := by
  unfold importDocumentJson importDocument
  rw [bind_run, hp]
  simp only [orThrow, pure_run]
  by_cases hrefused : document.equalsNull ∨ document.isEmpty ∨ ¬ document.isObject
  · have hnone : importChecks (fun _ => True) document = [] := by
      simp [importChecks, objectChecks, relationChecks, sectionChecks, Json.membersAt,
        find_of_refused hrefused]
    rw [hnone]
    refine ⟨fun _ => ?_, fun _ h => by cases h⟩
    by_cases hempty : document.equalsNull ∨ document.isEmpty
    · rw [if_pos hempty]
      exact ⟨_, rfl⟩
    · rw [if_neg hempty, if_pos (not_object_of_refused hrefused hempty)]
      exact ⟨_, rfl⟩
  · have hempty : ¬ (document.equalsNull = true ∨ document.isEmpty = true) := fun h =>
      hrefused (h.elim Or.inl fun h => Or.inr (Or.inl h))
    rw [if_neg hempty, if_neg fun h => hrefused (Or.inr (Or.inr h))]
    have hfollows := follows_mapExit
      (makes_importContents hsrv hJ bundleName hanchors hends) escapes_gotoError
    constructor
    · intro hthrows
      rcases hrun : gotoError (importContents srv document bundleName anchors
        (decide (flags ≠ 0 ∧ cplJExternObj ≠ 0))) ⟨s, calls⟩ with ⟨r, w⟩
      cases r with
      | ok b => exact ⟨_, rfl⟩
      | error e =>
        apply ret_of_not_escapes
        intro hesc
        exact hthrows (hfollows.escaped ⟨hs, hJs⟩ (congrArg Prod.fst hrun) hesc)
    · intro hlossy hthrows code hcode
      obtain ⟨e, he, hesc⟩ := hfollows.escapes_of_throws (s := ⟨s, calls⟩) hlossy ⟨hs, hJs⟩ hthrows
      change (gotoError _ _).1 = _ at he
      rcases hrun : gotoError (importContents srv document bundleName anchors
        (decide (flags ≠ 0 ∧ cplJExternObj ≠ 0))) ⟨s, calls⟩ with ⟨r, w⟩
      rw [hrun] at hcode he
      subst he
      exact hesc code hcode

end Call

def recordEnds (document : Json) : List (String × ℤ) :=
  relationSections.flatMap fun d => (records document d).flatMap fun e =>
    [(endpointName e.2 d.sourceStr, d.sourceT), (endpointName e.2 d.destStr, d.destT)]

def stocked : List (String × ℤ) → Store
  | [] => Store.fresh
  | (n, type) :: rest =>
    (stocked rest).insertObject (cStr (nameToTokens n).1) (cStr (nameToTokens n).2)
      (if type = (cplNone : ℕ) then cplEntity else type) 0

def HasAll (names : List (String × ℤ)) (s : Store) : Prop :=
  ∀ e ∈ names, s.objectsNamed (cStr (nameToTokens e.1).1) (cStr (nameToTokens e.1).2) e.2 ≠ []

theorem HasAll.mono {names : List (String × ℤ)} {t t' : Store} (h : HasAll names t)
    (hobjects : ∀ r ∈ t.objects, r ∈ t'.objects) : HasAll names t' := by
  intro e he
  obtain ⟨r, hr⟩ := List.exists_mem_of_ne_nil _ (h e he)
  apply List.ne_nil_of_mem (a := r)
  simp only [Store.objectsNamed, List.mem_filter] at hr ⊢
  exact ⟨hobjects r hr.1, hr.2⟩

theorem importClosed_hasAll (names : List (String × ℤ)) : ImportClosed (HasAll names) 0 0 :=
  importClosed_of_mono fun _ _ hobjects _ h => h.mono hobjects

theorem stocked_reachable {names : List (String × ℤ)}
    (h : ∀ e ∈ names, e.2 = (cplNone : ℕ) ∨ EnsureOType e.2) : (stocked names).Reachable := by
  induction names with
  | nil => exact .fresh
  | cons e rest ih =>
    obtain ⟨n, type⟩ := e
    apply Store.Reachable.createObject
    · split
      · decide
      · exact (h _ List.mem_cons_self).resolve_left ‹_›
    · exact ih fun e he => h e (List.mem_cons_of_mem _ he)

theorem stocked_hasAll (names : List (String × ℤ)) : HasAll names (stocked names) := by
  induction names with
  | nil => exact fun _ he => nomatch he
  | cons e rest ih =>
    obtain ⟨n, type⟩ := e
    intro e he
    rcases List.mem_cons.mp he with rfl | he
    · simp only [Store.objectsNamed, stocked, Store.insertObject, List.filter_append, ne_eq,
        List.append_eq_nil_iff, not_and]
      intro _
      by_cases htype : type = (cplNone : ℕ)
      · simp [htype, cplNone]
      · simp [htype]
    · exact ih.mono (fun r hr => List.mem_append_left _ hr) e he

theorem relationSections_types : ∀ d ∈ relationSections,
    (d.sourceT = (cplNone : ℕ) ∨ EnsureOType d.sourceT) ∧
      (d.destT = (cplNone : ℕ) ∨ EnsureOType d.destT) := by decide

theorem recordEnds_types {document : Json} :
    ∀ e ∈ recordEnds document, e.2 = (cplNone : ℕ) ∨ EnsureOType e.2 := by
  intro e he
  obtain ⟨d, hd, he⟩ := List.mem_flatMap.mp he
  obtain ⟨r, -, he⟩ := List.mem_flatMap.mp he
  obtain ⟨hsource, hdest⟩ := relationSections_types d hd
  simp only [List.mem_cons, List.not_mem_nil, or_false] at he
  rcases he with rfl | rfl
  · exact hsource
  · exact hdest

theorem endsSettled_stocked {document : Json} {d : ProvRelationData} (hd : d ∈ relationSections)
    {e : String × Json} (he : e ∈ records document d) :
    EndsSettled False (fun t => t.Reachable ∧ HasAll (recordEnds document) t) true
      (fun _ => True) (declaredNames document) d e := by
  have hends : ∀ end' ∈ [(d.sourceStr, d.sourceT), (d.destStr, d.destT)],
      (endpointName e.2 end'.1, end'.2) ∈ recordEnds document := by
    intro end' hend
    apply List.mem_flatMap_of_mem hd
    apply List.mem_flatMap_of_mem he
    exact List.mem_map_of_mem (f := fun end' => (endpointName e.2 end'.1, end'.2)) hend
  intro end' hend n hn
  by_cases hmem : n ∈ declaredNames document
  · exact Or.inl ⟨hmem, trivial⟩
  · refine Or.inr ⟨hmem, Or.inr ⟨trivial, fun _ => ⟨rfl, fun s hs => ?_⟩⟩⟩
    have hname : endpointName e.2 end'.1 = n := by simp [endpointName, hn, Json.getString]
    have hstored := hs.2 _ (hends end' hend)
    rwa [hname] at hstored

/-- `{`, and a document with a prefix that is no string. -/
def brokenParse (text : String) : Option Json :=
  if text = "\x7b\"prefix\": \x7b\"a\": 1\x7d\x7d" then
    some (.object [("prefix", .object [("a", .integer 1)])])
  else none

/-- Malformed text makes both functions leave by an exception; an IRI that is a number does so
in the import only. -/
theorem broken_text_escapes :
    ¬ Contained brokenParse "\x7b" ∧
      ¬ Contained brokenParse "\x7b\"prefix\": \x7b\"a\": 1\x7d\x7d" := by
  constructor
  · intro h
    obtain ⟨code, hcode⟩ := h.validates (fun _ _ => false) ""
    cases hcode
  · intro h
    obtain ⟨code, hcode⟩ := h.imports .ideal Store.fresh .fresh 0 "b" [] 0 none
    have hthrown : (importDocumentJson brokenParse .ideal
        "\x7b\"prefix\": \x7b\"a\": 1\x7d\x7d" "b" [] 0 none ⟨Store.fresh, 0⟩).1.1 =
          .thrown := by decide
    rw [hthrown] at hcode
    cases hcode

/-- Both functions end with a return code, whatever the store, the server and the arguments,
exactly when the text parses and what each of them meets first among the values that it does
not accept, if there is any, is one that it refuses. -/
theorem contained_iff (parse : String → Option Json) (jsonString : String) :
    Contained parse jsonString ↔ ∃ document, parse jsonString = some document ∧
      firstFault (validatorChecks document) ≠ some .throws ∧
      firstFault (importChecks (fun _ => True) document) ≠ some .throws := by
  constructor
  · intro h
    obtain ⟨code, hcode⟩ := h.validates (fun _ _ => false) ""
    cases hp : parse jsonString with
    | none =>
      rw [validateJson, validateDocument, bind_run, hp] at hcode
      cases hcode
    | some document =>
      refine ⟨document, rfl, (validateJson_ret_iff hp _ _).mp ⟨code, hcode⟩, fun hthrows => ?_⟩
      have hreach : (stocked (recordEnds document)).Reachable := stocked_reachable recordEnds_types
      obtain ⟨code, hcode⟩ := h.imports .ideal _ hreach 0 "" [] 1 none
      exact (importDocumentJson_ret_iff (fun _ : ¬ False => Server.ideal_reliable)
        (importClosed_hasAll _) hp (fun _ => rfl) (fun d hd e he => endsSettled_stocked hd he)
        hreach (stocked_hasAll _) 0 "" none).2 id hthrows code hcode
  · rintro ⟨document, hp, hvalidate, himport⟩
    constructor
    · intro notADag stringOut
      exact (validateJson_ret_iff hp notADag stringOut).mpr hvalidate
    · intro srv s hs calls bundleName anchors flags outId
      have hends : ∀ d ∈ relationSections, ∀ e ∈ records document d,
          EndsSettled True (fun t => t.Reachable ∧ True) (decide (flags ≠ 0 ∧ cplJExternObj ≠ 0))
            (fun _ => True) (declaredNames document) d e := by
        intro d _ e _ end' _ n _
        by_cases hmem : n ∈ declaredNames document
        · exact Or.inl ⟨hmem, trivial⟩
        · exact Or.inr ⟨hmem, Or.inr ⟨trivial, fun h => absurd trivial h⟩⟩
      exact (importDocumentJson_ret_iff (fun h : ¬ True => absurd trivial h)
        (importClosed_of_mono fun _ _ _ _ h => h) hp (fun h => absurd trivial h) hends hs trivial
        calls bundleName outId).1 himport

end EscapingExceptions
