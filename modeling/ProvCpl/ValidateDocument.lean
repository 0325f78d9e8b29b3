import ProvCpl.JsonValue
import ProvCpl.VertexNumbering

/-! # Validation of a PROV-JSON document

The validator collects one edge for each record with a destination, over all sections, and
asks for a topological order. The out parameter with the error text is the state. The parser
and the sorting function of the graph library are parameters; none and true stand for their
exceptions. -/
namespace ValidateDocument

open CplTypes JsonValue EarlyExit VertexNumbering

abbrev Check (α : Type) := Prog String Stop α

def setOut (text : String) : Check Unit := call fun _ => ((), text)

def validateRecord (entry : ProvRelationData) (g : Numbering String) (val : Json) :
    Check (Numbering String) :=
  match val.find entry.sourceStr with
  | none => leave (.ret .invalidJson)
  | some sourceCheck =>
    match val.find entry.destStr with
    | none => pure g
    | some destCheck => do
      let source ← orThrow sourceCheck.getString
      let dest ← orThrow destCheck.getString
      pure (g.addEdge source dest)

def validateSection (document : Json) (g : Numbering String) (entry : ProvRelationData) :
    Check (Numbering String) :=
  match document.find entry.typeStr with
  | none => pure g
  | some relations => fold (validateRecord entry) g relations.values

/-- What is checked once the document is accepted as a nonempty object. -/
def validateContents (notADag : List (ℕ × ℕ) → ℕ → Bool) (document : Json) : Check Unit := do
  setOut "Invalid JSON formatting \n"
  let g ← fold (validateSection document) ⟨[], []⟩ relationSections
  if notADag g.edges g.vertices.length then do
    setOut "Provenance graph is not a DAG \n"
    leave (.ret .invalidJson)
  else setOut "Valid JSON \n"

def validateDocument (parse : String → Option Json) (notADag : List (ℕ × ℕ) → ℕ → Bool)
    (jsonString : String) : Check Unit := do
  setOut "Validation failed on upload \n"
  let document ← orThrow (parse jsonString)
  if document.equalsNull ∨ document.isEmpty then leave (.ret .internalError)
  else if ¬ document.isObject then leave (.ret .invalidJson)
  else validateContents notADag document

def validateJson (parse : String → Option Json) (notADag : List (ℕ × ℕ) → ℕ → Bool)
    (jsonString : String) : Call String Stop := fun stringOut =>
  match validateDocument parse notADag jsonString stringOut with
  | (.ok _, out) => (.ret .ok, out)
  | (.error stop, out) => (stop, out)

def records (document : Json) (entry : ProvRelationData) : List (String × Json) :=
  document.membersAt entry.typeStr

/-- Each relation section is an object of objects whose endpoints are strings. -/
structure WellShaped (document : Json) : Prop where
  sections : ∀ d ∈ relationSections, (document.find d.typeStr).all Json.isObject
  records : ∀ d ∈ relationSections, ∀ e ∈ records document d, e.2.isObject
  sources : ∀ d ∈ relationSections, ∀ e ∈ ValidateDocument.records document d,
    (e.2.find d.sourceStr).all Json.isString
  dests : ∀ d ∈ relationSections, ∀ e ∈ ValidateDocument.records document d,
    (e.2.find d.destStr).all Json.isString

instance (document : Json) : Decidable (WellShaped document) :=
  decidable_of_iff ((∀ d ∈ relationSections, (document.find d.typeStr).all Json.isObject) ∧
      (∀ d ∈ relationSections, ∀ e ∈ records document d, e.2.isObject) ∧
      (∀ d ∈ relationSections, ∀ e ∈ records document d,
        (e.2.find d.sourceStr).all Json.isString) ∧
      ∀ d ∈ relationSections, ∀ e ∈ records document d, (e.2.find d.destStr).all Json.isString)
    ⟨fun h => ⟨h.1, h.2.1, h.2.2.1, h.2.2.2⟩, fun h => ⟨h.1, h.2, h.3, h.4⟩⟩

def HasSources (document : Json) : Prop :=
  ∀ d ∈ relationSections, ∀ e ∈ records document d, (e.2.find d.sourceStr).isSome

instance (document : Json) : Decidable (HasSources document) :=
  inferInstanceAs (Decidable (∀ d ∈ relationSections, ∀ e ∈ records document d, _))

/-- The graph of names: an edge for each record with a source and a destination. -/
def NameEdge (document : Json) (a b : String) : Prop :=
  ∃ d ∈ relationSections, ∃ e ∈ records document d,
    e.2.find d.sourceStr = some (.string a) ∧ e.2.find d.destStr = some (.string b)

/-- Sorting throws exactly on the graphs with a cycle. -/
def SortsAcyclic (notADag : List (ℕ × ℕ) → ℕ → Bool) : Prop :=
  ∀ edges n, (∀ e ∈ edges, e.1 < n ∧ e.2 < n) →
    (notADag edges n = true ↔ Cyclic (EdgeRel edges))

/-- The edge of a record, none without both ends. -/
def recordEdges (entry : ProvRelationData) (val : Json) : List (String × String) :=
  match val.find entry.sourceStr, val.find entry.destStr with
  | some (.string a), some (.string b) => [(a, b)]
  | _, _ => []

def sectionEdges (document : Json) (entry : ProvRelationData) : List (String × String) :=
  (records document entry).flatMap fun e => recordEdges entry e.2

def documentEdges (document : Json) : List (String × String) :=
  relationSections.flatMap (sectionEdges document)

theorem mem_recordEdges {d : ProvRelationData} {v : Json} {a b : String} :
    (a, b) ∈ recordEdges d v ↔
      v.find d.sourceStr = some (.string a) ∧ v.find d.destStr = some (.string b) := by
  unfold recordEdges
  split
  · next hs hd =>
    rw [hs, hd]
    simp [eq_comm]
  · next h =>
    simp only [List.not_mem_nil, false_iff, not_and]
    intro hs hd
    exact h a b hs hd

theorem mem_documentEdges {document : Json} {a b : String} :
    (a, b) ∈ documentEdges document ↔ NameEdge document a b := by
  simp only [documentEdges, sectionEdges, List.mem_flatMap, mem_recordEdges, NameEdge]

theorem edgeRel_documentEdges (document : Json) :
    EdgeRel (documentEdges document) = NameEdge document := by
  funext a b
  exact propext mem_documentEdges

theorem validateRecord_spec {d : ProvRelationData} {v : Json}
    (hs : (v.find d.sourceStr).all Json.isString) (hd : (v.find d.destStr).all Json.isString)
    (g : Numbering String) (es : List (String × String)) :
    Triple (fun _ => g.Represents es) (validateRecord d g v)
      (fun g' _ => (v.find d.sourceStr).isSome ∧ g'.Represents (es ++ recordEdges d v))
      (fun stop _ => stop = .ret .invalidJson ∧ v.find d.sourceStr = none) := by
  unfold validateRecord recordEdges
  cases hsv : v.find d.sourceStr with
  | none => exact triple_leave fun _ _ => ⟨rfl, rfl⟩
  | some x =>
    rw [hsv, Option.all_some, isString_iff] at hs
    obtain ⟨a, rfl⟩ := hs
    cases hdv : v.find d.destStr with
    | none => exact triple_pure fun _ hg => ⟨rfl, by simpa using hg⟩
    | some y =>
      rw [hdv, Option.all_some, isString_iff] at hd
      obtain ⟨b, rfl⟩ := hd
      exact fun _ hg => ⟨rfl, hg.addEdge a b⟩

theorem values_of_isObject {v : Json} (h : v.isObject) : v.values = v.members.map Prod.snd := by
  obtain ⟨m, rfl⟩ := isObject_iff.mp h
  rfl

theorem validateSection_spec {document : Json} (hw : WellShaped document)
    {d : ProvRelationData} (hd : d ∈ relationSections) (g : Numbering String)
    (es : List (String × String)) :
    Triple (fun _ => g.Represents es) (validateSection document g d)
      (fun g' _ => (∀ e ∈ records document d, (e.2.find d.sourceStr).isSome) ∧
        g'.Represents (es ++ sectionEdges document d))
      (fun stop _ => stop = .ret .invalidJson ∧ ¬ HasSources document) := by
  have hrec : ∀ v, document.find d.typeStr = some v → records document d = v.members := by
    intro v hv
    simp [records, Json.membersAt, hv]
  unfold validateSection
  cases hv : document.find d.typeStr with
  | none =>
    exact triple_pure fun _ hg => by
      simpa [sectionEdges, records, Json.membersAt, hv] using hg
  | some v =>
    dsimp only
    have hobj : v.isObject := by simpa [hv] using hw.sections d hd
    rw [values_of_isObject hobj]
    refine triple_conseq (triple_fold
      (I := fun done g' (_ : String) => (∀ x ∈ done, (x.find d.sourceStr).isSome) ∧
        g'.Represents (es ++ done.flatMap (recordEdges d)))
      (E := fun stop _ => stop = .ret .invalidJson ∧ ¬ HasSources document) ?_)
      (fun _ hg => ⟨by simp, by simpa using hg⟩) ?_ fun _ _ h => h
    rotate_left
    · rintro g' _ ⟨hsrc, hrep⟩
      rw [List.forall_mem_map] at hsrc
      rw [List.flatMap_map] at hrep
      simpa only [sectionEdges, hrec v hv] using And.intro hsrc hrep
    · intro done x g' hx
      obtain ⟨e, he, rfl⟩ := List.mem_map.mp hx
      have hem : e ∈ records document d := by rw [hrec v hv]; exact he
      rintro out ⟨hdone, hrep⟩
      refine triple_conseq (validateRecord_spec (hw.sources d hd e hem) (hw.dests d hd e hem) g'
        (es ++ done.flatMap (recordEdges d))) (fun _ h => h) ?_ ?_ out hrep
      · rintro g'' _ ⟨hsome, hrep''⟩
        refine ⟨?_, by simpa [List.flatMap_append] using hrep''⟩
        exact List.forall_mem_append.mpr ⟨hdone, List.forall_mem_singleton.mpr hsome⟩
      · rintro stop _ ⟨hstop, hnone⟩
        refine ⟨hstop, fun hall => ?_⟩
        have hsome := hall d hd e hem
        rw [hnone] at hsome
        exact absurd hsome (by simp)

/-- After all sections the numbering represents the graph of the document. -/
theorem validateSections_spec {document : Json} (hw : WellShaped document) :
    Triple (fun _ => True) (fold (validateSection document) ⟨[], []⟩ relationSections)
      (fun g _ => HasSources document ∧ g.Represents (documentEdges document))
      (fun stop _ => stop = .ret .invalidJson ∧ ¬ HasSources document) := by
  refine triple_conseq (triple_fold
    (I := fun done (g : Numbering String) (_ : String) =>
      (∀ d ∈ done, ∀ e ∈ records document d, (e.2.find d.sourceStr).isSome) ∧
        g.Represents (done.flatMap (sectionEdges document)))
    (E := fun stop _ => stop = .ret .invalidJson ∧ ¬ HasSources document) ?_)
    (fun _ _ => ⟨by simp, represents_nil⟩) (fun _ _ h => h) fun _ _ h => h
  rintro done d g hd out ⟨hdone, hrep⟩
  refine triple_conseq (validateSection_spec hw hd g _) (fun _ h => h) ?_ (fun _ _ h => h)
    out hrep
  rintro g' _ ⟨hsec, hrep'⟩
  refine ⟨?_, by simpa [List.flatMap_append] using hrep'⟩
  exact List.forall_mem_append.mpr ⟨hdone, List.forall_mem_singleton.mpr hsec⟩

theorem validateJson_object {parse : String → Option Json} {notADag : List (ℕ × ℕ) → ℕ → Bool}
    {jsonString : String} {members : List (String × Json)}
    (hp : parse jsonString = some (.object members)) (hne : members ≠ []) (stringOut : String) :
    validateJson parse notADag jsonString stringOut =
      match fold (validateSection (.object members)) ⟨[], []⟩ relationSections
        "Invalid JSON formatting \n" with
      | (.ok g, _) => if notADag g.edges g.vertices.length then
          (.ret .invalidJson, "Provenance graph is not a DAG \n") else (.ret .ok, "Valid JSON \n")
      | (.error stop, out) => (stop, out) := by
  have hnull : ¬ ((Json.object members).equalsNull = true ∨
      (Json.object members).isEmpty = true) := by
    simp [Json.equalsNull, Json.isEmpty, hne]
  have hobj : ¬ ¬ (Json.object members).isObject = true := by simp [Json.isObject]
  unfold validateJson validateDocument
  simp only [bind_run, setOut, call, hp, orThrow, pure_run]
  rw [if_neg hnull, if_neg hobj]
  simp only [validateContents, setOut, call, bind_run]
  rcases fold (validateSection (.object members)) ⟨[], []⟩ relationSections
    "Invalid JSON formatting \n" with ⟨r, out⟩
  cases r with
  | error stop => rfl
  | ok g =>
    dsimp only
    cases notADag g.edges g.vertices.length <;> rfl

/-- The return code on a nonempty object, in terms of the graph of names. -/
theorem validateJson_code {parse : String → Option Json} {notADag : List (ℕ × ℕ) → ℕ → Bool}
    (hsort : SortsAcyclic notADag) {jsonString : String} {members : List (String × Json)}
    (hp : parse jsonString = some (.object members)) (hne : members ≠ [])
    (hw : WellShaped (.object members)) (stringOut : String) :
    (HasSources (.object members) ∧ ¬ Cyclic (NameEdge (.object members)) ∧
      (validateJson parse notADag jsonString stringOut).1 = .ret .ok) ∨
    (¬ (HasSources (.object members) ∧ ¬ Cyclic (NameEdge (.object members))) ∧
      (validateJson parse notADag jsonString stringOut).1 = .ret .invalidJson) := by
  have hspec := validateSections_spec hw "Invalid JSON formatting \n" trivial
  rw [validateJson_object hp hne]
  rcases hrun : fold (validateSection (.object members)) ⟨[], []⟩ relationSections
    "Invalid JSON formatting \n" with ⟨r, out⟩
  rw [hrun] at hspec
  cases r with
  | error stop =>
    obtain ⟨rfl, hno⟩ := hspec
    exact Or.inr ⟨fun h => hno h.1, rfl⟩
  | ok g =>
    obtain ⟨hsrc, hrep⟩ := hspec
    have hcyc : notADag g.edges g.vertices.length = true ↔ Cyclic (NameEdge (.object members)) := by
      rw [hsort g.edges g.vertices.length hrep.inRange, hrep.cyclic_iff,
        edgeRel_documentEdges]
    by_cases hc : notADag g.edges g.vertices.length = true
    · exact Or.inr ⟨fun h => h.2 (hcyc.mp hc), by simp [hc]⟩
    · exact Or.inl ⟨hsrc, fun h => hc (hcyc.mpr h), by simp [hc]⟩

def NotOk (stop : Stop) (_ : String) : Prop := stop ≠ .ret .ok

/-- What acceptance says of a record, whatever the shape of the document. -/
def Checked (d : ProvRelationData) (v : Json) : Prop :=
  ∃ x, v.find d.sourceStr = some x ∧
    ∀ y, v.find d.destStr = some y → (∃ a, x = .string a) ∧ ∃ b, y = .string b

theorem validateRecord_checks (d : ProvRelationData) (g : Numbering String) (v : Json) :
    Maintains (fun _ => True) (validateRecord d g v) (fun _ => Checked d v)
      NotOk := by
  unfold validateRecord
  cases hs : v.find d.sourceStr with
  | none => exact maintains_leave fun _ _ => by simp [NotOk]
  | some x =>
    cases hd : v.find d.destStr with
    | none => exact maintains_pure ⟨x, hs, by simp [hd]⟩
    | some y =>
      dsimp only
      cases hx : x.getString with
      | none => exact fun _ _ => (by simp : Stop.thrown ≠ .ret .ok)
      | some a =>
        cases hy : y.getString with
        | none => exact fun _ _ => (by simp : Stop.thrown ≠ .ret .ok)
        | some b =>
          refine fun _ _ => ⟨trivial, x, hs, fun z hz => ?_⟩
          rw [hd] at hz
          cases hz
          exact ⟨⟨a, getString_eq_some hx⟩, b, getString_eq_some hy⟩

theorem validateSections_checks (document : Json) :
    Maintains (fun _ => True) (fold (validateSection document) ⟨[], []⟩ relationSections)
      (fun _ => ∀ d ∈ relationSections, ∀ v, document.find d.typeStr = some v →
        ∀ x ∈ v.values, Checked d x) NotOk := by
  refine maintains_fold (T := fun done _ => ∀ d ∈ done, ∀ v, document.find d.typeStr = some v →
    ∀ x ∈ v.values, Checked d x) (by simp) fun done d g _ hdone => ?_
  have hsec : Maintains (fun _ => True) (validateSection document g d)
      (fun _ => ∀ v, document.find d.typeStr = some v → ∀ x ∈ v.values, Checked d x)
      NotOk := by
    unfold validateSection
    cases hv : document.find d.typeStr with
    | none => exact maintains_pure (by simp)
    | some v =>
      dsimp only
      refine maintains_weaken (maintains_fold (T := fun done _ => ∀ x ∈ done, Checked d x)
        (by simp) fun done x g _ hdone => ?_) fun g h w hw => Option.some.inj hw ▸ h
      refine maintains_weaken (validateRecord_checks d g x) fun _ hx => ?_
      exact List.forall_mem_append.mpr ⟨hdone, List.forall_mem_singleton.mpr hx⟩
  refine maintains_weaken hsec fun _ hd => ?_
  exact List.forall_mem_append.mpr ⟨hdone, List.forall_mem_singleton.mpr hd⟩

theorem validateJson_checks {parse : String → Option Json} {notADag : List (ℕ × ℕ) → ℕ → Bool}
    {jsonString stringOut : String} {members : List (String × Json)}
    (hp : parse jsonString = some (.object members)) (hne : members ≠ [])
    (h : (validateJson parse notADag jsonString stringOut).1 = .ret .ok) :
    ∀ d ∈ relationSections, ∀ v, (Json.object members).find d.typeStr = some v →
      ∀ x ∈ v.values, Checked d x := by
  have hspec := validateSections_checks (.object members) "Invalid JSON formatting \n" trivial
  rw [validateJson_object hp hne] at h
  rcases hrun : fold (validateSection (.object members)) ⟨[], []⟩ relationSections
    "Invalid JSON formatting \n" with ⟨r, out⟩
  rw [hrun] at hspec h
  cases r with
  | ok g => exact hspec.2
  | error stop => exact absurd h hspec

/-- Acceptance is exactly acyclicity of the graph over all sections, given a source for every
record. -/
theorem validateJson_ok_iff_acyclic {parse : String → Option Json}
    {notADag : List (ℕ × ℕ) → ℕ → Bool} (hsort : SortsAcyclic notADag) {jsonString : String}
    {members : List (String × Json)} (hp : parse jsonString = some (.object members))
    (hne : members ≠ []) (hw : WellShaped (.object members)) (stringOut : String) :
    ((validateJson parse notADag jsonString stringOut).1 = .ret .ok ↔
      HasSources (.object members) ∧ ¬ Cyclic (NameEdge (.object members))) ∧
    (¬ (HasSources (.object members) ∧ ¬ Cyclic (NameEdge (.object members))) →
      (validateJson parse notADag jsonString stringOut).1 = .ret .invalidJson) := by
  rcases validateJson_code hsort hp hne hw stringOut with ⟨hs, hc, hr⟩ | ⟨hno, hr⟩
  · exact ⟨⟨fun _ => ⟨hs, hc⟩, fun _ => hr⟩, fun hno => absurd ⟨hs, hc⟩ hno⟩
  · refine ⟨⟨fun hok => ?_, fun h => absurd h hno⟩, fun _ => hr⟩
    rw [hr] at hok
    cases hok

open Classical in
/-- The sorting function that throws exactly on cycles. -/
noncomputable def throwsOnCycle (edges : List (ℕ × ℕ)) (_ : ℕ) : Bool :=
  decide (Cyclic (EdgeRel edges))

theorem throwsOnCycle_sortsAcyclic : SortsAcyclic throwsOnCycle := by
  intro edges n _
  simp [throwsOnCycle]

/-- A text and its parse: `e` is used by `a` and generated by it as well. -/
def cyclicText : String :=
  "\x7b\"used\": \x7b\"u\": \x7b\"prov:activity\": \"a\", \"prov:entity\": \"e\"\x7d\x7d, " ++
  "\"wasGeneratedBy\": \x7b\"g\": " ++
  "\x7b\"prov:activity\": \"a\", \"prov:entity\": \"e\"\x7d\x7d\x7d"

def cyclicMembers : List (String × Json) := [
  ("used", .object [("u", .object [("prov:activity", .string "a"),
    ("prov:entity", .string "e")])]),
  ("wasGeneratedBy", .object [("g", .object [("prov:activity", .string "a"),
    ("prov:entity", .string "e")])])]

def cyclicParse (text : String) : Option Json :=
  if text = cyclicText then some (.object cyclicMembers) else none

theorem validateJson_ok_iff_acyclic_cyclic :
    (validateJson cyclicParse throwsOnCycle cyclicText "").1 = .ret .invalidJson := by
  have hp : cyclicParse cyclicText = some (.object cyclicMembers) := if_pos rfl
  refine (validateJson_ok_iff_acyclic throwsOnCycle_sortsAcyclic hp (by decide) (by decide)
    "").2 fun h => h.2 ⟨"a", ?_⟩
  have hae : NameEdge (.object cyclicMembers) "a" "e" := mem_documentEdges.mp (by decide)
  have hea : NameEdge (.object cyclicMembers) "e" "a" := mem_documentEdges.mp (by decide)
  exact (Relation.TransGen.single hae).tail hea

end ValidateDocument
