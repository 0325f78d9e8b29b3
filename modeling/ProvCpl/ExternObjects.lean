import ProvCpl.ExternRecords

/-! # Which flags let an import refer to other objects

The flags and the constant of the bit are combined by a logical conjunction, so any flags that
are not 0 allow external objects. -/
namespace ExternObjects

open CplTypes JsonValue ProvStore ProvServer ServerSpecs ImportDocument ImportFrame
open ValidateDocument ImportAccepts ImportGraph BundleMembers ImportChecks ImportedObjects
open ExternRecords EarlyExit CheckedProgram

/-- All checks before it pass, and a record crosses. -/
def ReachesOut (s : Store) (bundleName : String) (document : Json) : Prop :=
  firstFault (stageChecks document) = none ∧
    ∃ done x rest, relationItems document = done ++ x :: rest ∧
      firstFault (done.flatMap (itemChecks (declaredNames document))) = none ∧
      Crosses (keysAfter s bundleName (declared document)) (declaredNames document) x

section Contents

variable {srv : Server} (hsrv : Reliable srv) {w₀ : World} (hreach : w₀.store.Reachable)

include hsrv hreach

theorem objectStage_cases (document : Json) (bundleName : String) :
    (∃ tbl w, objectStage srv document bundleName w₀ = (.ok (w₀.store.nextObject, tbl), w) ∧
      Settles w₀.store.nextObject (keysAfter w₀.store bundleName (declared document)) w.store ∧
      firstFault (stageChecks document) = none ∧ Lists (declaredNames document) tbl ∧
      Tabled srv w₀.store bundleName (declared document) tbl w.store) ∨
    ∃ e w, objectStage srv document bundleName w₀ = (.error e, w) ∧
      firstFault (stageChecks document) ≠ none ∧ Unrelated w₀.store w.store := by
  have hstage := triple_conj
    (makes_objectStage (fun _ : ¬ False => hsrv)
      (importClosed_of_mono (I := fun _ => True) fun _ _ _ _ h => h) document bundleName)
    (tabled_objectStage hreach document bundleName)
  rcases hstage.cases (s := w₀) ⟨⟨hreach, trivial⟩, rfl⟩ with
    ⟨⟨b, tbl⟩, w, hrun, ⟨⟨hbundle, -⟩, hpass, hlists⟩, hid, htabled⟩ | ⟨e, w, hrun, hE, hnone⟩
  · have honce : Once srv w.store := .of_reliable hsrv _
    obtain rfl : b = w₀.store.nextObject := hid honce
    exact Or.inl ⟨tbl, w, hrun, ⟨hbundle, htabled.keys honce⟩, hpass, hlists, htabled⟩
  · refine Or.inr ⟨e, w, hrun, fun hpass => ?_, hnone⟩
    rw [hpass] at hE
    by_cases hesc : Escapes e
    · cases hE.1 hesc
    · rcases hE.2 hesc with hl | hr
      · exact hl
      · cases hr

/-- The runs with and without external objects end alike exactly when no record crosses that
is reached. -/
theorem outcome_contents_iff (document : Json) (bundleName : String) :
    outcome (importContents srv document bundleName [] true w₀) =
        outcome (importContents srv document bundleName [] false w₀) ↔
      ¬ ReachesOut w₀.store bundleName document := by
  rw [importContents_stage, importContents_stage, bind_run, bind_run]
  rcases objectStage_cases hsrv hreach document bundleName with
    ⟨tbl, w, hrun, hw, hpass, hlists, -⟩ | ⟨e, w, hrun, hfault, -⟩
  · rw [hrun]
    have hitems : ∀ externObjF, outcome ((do
        forEach (connectAnchor srv w₀.store.nextObject) []
        importRelationsJson srv w₀.store.nextObject tbl document externObjF
        pure w₀.store.nextObject) w) = outcome (forEach
          (importItem srv w₀.store.nextObject tbl externObjF) (relationItems document) w) := by
      intro externObjF
      rw [← importRelationsJson_items]
      exact outcome_bind_pure _ _ w
    dsimp only
    rw [hitems, hitems]
    constructor
    · rintro heq ⟨-, done, x, rest, hsplit, hdone, hx⟩
      rw [hsplit] at heq
      refine outcome_items_ne hsrv hlists hw.1.nonzero (fun d e hmem => ?_) hdone hx hw heq
      exact (mem_relationItems.mp (hsplit ▸ hmem)).1
    · intro hnot
      refine outcome_items hsrv hlists hw.1.nonzero (fun d e hmem => ?_) ?_ hw
      · exact (mem_relationItems.mp hmem).1
      · intro done x rest hsplit hdone hx
        exact hnot ⟨hpass, done, x, rest, hsplit, hdone, hx⟩
  · rw [hrun]
    exact iff_of_true rfl fun hreaches => hfault hreaches.1

end Contents

def JoinsNew (s t : Store) (r : RelationRow) : Prop :=
  ∃ f o, r.fromId = some f ∧ r.toId = some o ∧ IsNew s t f ∧ IsNew s t o

def AllJoinNew (s t : Store) : Prop :=
  ∀ r ∈ t.relations, s.nextRelation ≤ r.id → r.type ≠ some bundleRelation → JoinsNew s t r

section Joined

variable {srv : Server} {s t : Store} {tbl : LookupTable}

theorem allJoinNew_of_same (hs : s.Valid) (h : t.relations = s.relations) : AllJoinNew s t := by
  intro r hr hid
  rw [h] at hr
  exact absurd (hs.relation_bound r hr) (Nat.not_lt.mpr hid)

theorem AllJoinNew.insertRelation (h : AllJoinNew s t) {f o : ℕ} {type : ℤ}
    (hends : type = bundleRelation ∨ IsNew s t f ∧ IsNew s t o) :
    AllJoinNew s (t.insertRelation f o type) := by
  intro r hr hid htype
  rcases List.mem_append.mp hr with hr | hr
  · exact h r hr hid htype
  · rw [List.mem_singleton.mp hr] at htype ⊢
    rcases hends with rfl | ⟨hf, ho⟩
    · exact absurd rfl htype
    · exact ⟨f, o, rfl, rfl, hf, ho⟩

def NewStage (s : Store) (tbl : LookupTable) (t : Store) : Prop :=
  AllJoinNew s t ∧ ∀ n id, OrderedMap.find n tbl = some id → IsNew s t id

theorem keeps_importEndpoint_table {I : Store → Prop} (record : Json) (key : String) (type : ℤ) :
    Keeps I (importEndpoint srv tbl false record key type)
      fun id => ∃ n, OrderedMap.find n tbl = some id := by
  refine maintains_weaken (keeps_importEndpoint_value tbl false record key type) ?_
  rintro id ⟨n, -, hid | ⟨-, hflag⟩⟩
  · exact ⟨n, hid⟩
  · cases hflag

theorem keeps_importItem_new (b : ℕ) (x : Item) :
    Keeps (NewStage s tbl) (importItem srv b tbl false x) fun _ => True := by
  rcases x with - | ⟨d, e⟩
  · exact keeps_leave
  · refine maintains_bind (keeps_importEndpoint_table _ _ _) fun f hf => ?_
    refine maintains_bind (keeps_importEndpoint_table _ _ _) fun o ho => ?_
    obtain ⟨n, hf⟩ := hf
    obtain ⟨m, ho⟩ := ho
    refine maintains_bind (R := fun _ => True) (keeps_requireId (fun w hw => ?_)
      fun _ _ _ _ => trivial) fun id _ => ?_
    · exact addRelation_keeps (fun t _ _ _ ht =>
        ⟨ht.1.insertRelation (Or.inr ⟨ht.2 n f hf, ht.2 m o ho⟩), ht.2⟩) hw
    · refine maintains_bind (keeps_requireOk fun w hw => addRelation_keeps
        (fun t _ _ _ ht => ⟨ht.1.insertRelation (Or.inl rfl), ht.2⟩) hw) fun _ _ => ?_
      refine maintains_ite (fun _ => keeps_importProperties (relationWriter_keeps ?_) _)
        fun _ => maintains_pure trivial
      intro t t' r _ _ _ he ht
      obtain ⟨-, rfl⟩ := insertRelationProperty_eq he
      exact ht

/-- Without external objects the relations of an import join its own objects. -/
theorem importContents_joinsNew (hsrv : Reliable srv) (w₀ : World)
    (hreach : w₀.store.Reachable) (document : Json) (bundleName : String) :
    AllJoinNew w₀.store (importContents srv document bundleName [] false w₀).2.store := by
  rw [importContents_stage, bind_run]
  rcases objectStage_cases hsrv hreach document bundleName with
    ⟨tbl, w, hrun, -, -, -, htabled⟩ | ⟨e, w, hrun, -, hnone⟩
  · rw [hrun]
    have honce : Once srv w.store := .of_reliable hsrv _
    have hnew : NewStage w₀.store tbl w.store := by
      refine ⟨allJoinNew_of_same hreach.valid htabled.relations, fun n id hid => ?_⟩
      rw [htabled.table honce n] at hid
      obtain ⟨k, hk, rfl⟩ := Option.map_eq_some_iff.mp hid
      have hmem := List.mem_of_find?_eq_some hk
      refine ⟨(Nat.le_succ _).trans (numbered_ids hmem), ?_⟩
      have hids : w.store.objects.map (·.id) =
          (keysAfter w₀.store bundleName (declared document)).map (·.id) := by
        rw [← htabled.keys honce, List.map_map]
        rfl
      rw [hids]
      exact List.mem_map_of_mem (f := (·.id)) (List.mem_append_right _
        (List.mem_cons_of_mem _ (List.mem_map_of_mem (f := memberKey) hmem)))
    have hitems : Keeps (NewStage w₀.store tbl) (do
        forEach (connectAnchor srv w₀.store.nextObject) []
        importRelationsJson srv w₀.store.nextObject tbl document false
        pure w₀.store.nextObject) fun _ => True := by
      refine maintains_bind (R := fun _ => True) (maintains_pure trivial) fun _ _ => ?_
      rw [importRelationsJson_items]
      exact maintains_bind (maintains_forEach fun x _ => keeps_importItem_new _ x)
        fun _ _ => maintains_pure trivial
    exact (hitems.store hnew).1
  · rw [hrun]
    exact allJoinNew_of_same hreach.valid hnone.relations

end Joined

def NamesUndeclared (document : Json) : Prop :=
  ∃ d ∈ relationSections, ∃ e ∈ records document d,
    Foreign (declaredNames document) e.2 d.sourceStr ∨
      Foreign (declaredNames document) e.2 d.destStr

theorem importContents_declared {srv : Server} (hsrv : Reliable srv) {w₀ : World}
    (hreach : w₀.store.Reachable) {document : Json} {bundleName : String} {b : ℕ} {w : World}
    (hrun : importContents srv document bundleName [] false w₀ = (.ok b, w)) :
    ¬ NamesUndeclared document := by
  have hends : ∀ d ∈ relationSections, ∀ e ∈ records document d, EndsSettled False
      (fun t => t.Reachable ∧ True) false (· ∈ declaredNames document) (declaredNames document)
      d e := by
    intro d _ e _ end' _ n _
    by_cases hn : n ∈ declaredNames document
    · exact Or.inl ⟨hn, hn⟩
    · exact Or.inr ⟨hn, Or.inl ⟨rfl, hn⟩⟩
  have hmakes := makes_importContents (fun _ : ¬ False => hsrv)
    (importClosed_of_mono (I := fun _ => True) fun _ _ _ _ h => h) bundleName (fun _ => rfl) hends
  obtain ⟨-, hpass, -⟩ := hmakes.passed ⟨hreach, trivial⟩ hrun
  rw [importChecks_stage, firstFault_eq_none_iff] at hpass
  rintro ⟨d, hd, e, he, hforeign⟩
  have hsection : ∀ v ∈ sectionChecks document d.typeStr
      (recordChecks (· ∈ declaredNames document) d), v = .passes := fun v hv =>
    hpass v (List.mem_append_right _ (List.mem_flatMap_of_mem hd hv))
  have hitem : firstFault (itemChecks (declaredNames document) (some (d, e))) = none := by
    rw [firstFault_eq_none_iff]
    intro v hv
    apply hsection
    unfold sectionChecks at hsection ⊢
    split
    · exact List.mem_flatMap_of_mem he hv
    · next hobject =>
      rw [if_neg hobject] at hsection
      cases hsection _ List.mem_cons_self
  obtain ⟨hsource, hdest⟩ := own_of_itemChecks hitem
  rcases hforeign with hforeign | hforeign
  · exact hsource.not_foreign hforeign
  · exact hdest.not_foreign hforeign

/-- Only the bit lets an import refer to other objects: the call ends as it does under flags 0,
the relations that it stores join its own objects, and a record that names another object makes
it fail. -/
structure ObeysBit (parse : String → Option Json) (srv : Server) (s : Store) (calls : ℕ)
    (jsonString bundleName : String) (flags : ℤ) : Prop where
  sameCode : ∀ outId,
    (importDocumentJson parse srv jsonString bundleName [] flags outId ⟨s, calls⟩).1.1 =
      (importDocumentJson parse srv jsonString bundleName [] 0 outId ⟨s, calls⟩).1.1
  sameStore : ∀ outId,
    (importDocumentJson parse srv jsonString bundleName [] flags outId ⟨s, calls⟩).2.store =
      (importDocumentJson parse srv jsonString bundleName [] 0 outId ⟨s, calls⟩).2.store
  joinsNew : ∀ outId, AllJoinNew s
    (importDocumentJson parse srv jsonString bundleName [] flags outId ⟨s, calls⟩).2.store
  declared : ∀ document, parse jsonString = some document → NamesUndeclared document →
    ∀ outId, (importDocumentJson parse srv jsonString bundleName [] flags outId
      ⟨s, calls⟩).1.1 ≠ .ret .ok

section Call

variable {parse : String → Option Json} {srv : Server} {jsonString bundleName : String}

theorem importDocumentJson_outcome (srv : Server) (bundleName : String) {document : Json}
    (hp : parse jsonString = some document)
    (h : ¬ (document.equalsNull = true ∨ document.isEmpty = true ∨ ¬ document.isObject = true))
    (anchors : List (ℕ × String)) (flags : ℤ) (outId : Option ℕ) (w : World) :
    let out := outcome (importContents srv document bundleName anchors
      (decide (flags ≠ 0 ∧ cplJExternObj ≠ 0)) w)
    (importDocumentJson parse srv jsonString bundleName anchors flags outId w).1.1 = out.1 ∧
      (importDocumentJson parse srv jsonString bundleName anchors flags outId w).2.store =
        out.2 := by
  have hempty : ¬ (document.equalsNull = true ∨ document.isEmpty = true) := fun he =>
    h (he.elim Or.inl fun he => Or.inr (Or.inl he))
  unfold importDocumentJson importDocument
  rw [bind_run, hp]
  simp only [orThrow, pure_run]
  rw [if_neg hempty, if_neg fun ho => h (Or.inr (Or.inr ho)), gotoError, mapExit]
  rcases importContents srv document bundleName anchors (decide (flags ≠ 0 ∧ cplJExternObj ≠ 0)) w
    with ⟨⟨⟩ | ⟨⟩, w'⟩
  · next e => cases e <;> exact ⟨rfl, rfl⟩
  · exact ⟨rfl, rfl⟩

theorem importDocumentJson_refused (srv : Server) (bundleName : String)
    (h : Refused parse jsonString) (flags : ℤ) (outId : Option ℕ) (w : World) :
    (importDocumentJson parse srv jsonString bundleName [] flags outId w).1.1 =
        (importDocumentJson parse srv jsonString bundleName [] 0 outId w).1.1 ∧
      (importDocumentJson parse srv jsonString bundleName [] flags outId w).1.1 ≠ .ret .ok ∧
      (importDocumentJson parse srv jsonString bundleName [] flags outId w).2 = w := by
  unfold importDocumentJson importDocument
  rw [bind_run, bind_run]
  cases hp : parse jsonString with
  | none => exact ⟨rfl, by simp [orThrow, leave], rfl⟩
  | some document =>
    simp only [orThrow, pure_run]
    by_cases hempty : document.equalsNull = true ∨ document.isEmpty = true
    · rw [if_pos hempty, if_pos hempty]
      exact ⟨rfl, by simp [leave], rfl⟩
    · rw [if_neg hempty, if_neg hempty, if_pos (not_object_of_refused (h document hp) hempty),
        if_pos (not_object_of_refused (h document hp) hempty)]
      exact ⟨rfl, by simp [leave], rfl⟩

theorem relationItems_of_refused {document : Json}
    (h : document.equalsNull ∨ document.isEmpty ∨ ¬ document.isObject) :
    relationItems document = [] := by
  simp [relationItems, records, Json.membersAt, find_of_refused h]

def EndsAlike (parse : String → Option Json) (srv : Server) (jsonString bundleName : String)
    (flags flags' : ℤ) (w : World) : Prop :=
  ∀ outId,
    (importDocumentJson parse srv jsonString bundleName [] flags outId w).1.1 =
      (importDocumentJson parse srv jsonString bundleName [] flags' outId w).1.1 ∧
    (importDocumentJson parse srv jsonString bundleName [] flags outId w).2.store =
      (importDocumentJson parse srv jsonString bundleName [] flags' outId w).2.store

theorem ObeysBit.of_endsAlike {s : Store} {calls : ℕ} {flags : ℤ}
    (h : ObeysBit parse srv s calls jsonString bundleName 0)
    (halike : EndsAlike parse srv jsonString bundleName flags 0 ⟨s, calls⟩) :
    ObeysBit parse srv s calls jsonString bundleName flags where
  sameCode := fun outId => (halike outId).1
  sameStore := fun outId => (halike outId).2
  joinsNew := fun outId => by
    rw [(halike outId).2]
    exact h.joinsNew outId
  declared := fun document hp hnames outId => by
    rw [(halike outId).1]
    exact h.declared document hp hnames outId

variable (hsrv : Reliable srv) {s : Store} (hs : s.Reachable) (calls : ℕ)

omit hsrv in
theorem refused_or_accepted : Refused parse jsonString ∨
    ∃ document, parse jsonString = some document ∧ ¬ (document.equalsNull = true ∨
      document.isEmpty = true ∨ ¬ document.isObject = true) := by
  by_cases h : Refused parse jsonString
  · exact Or.inl h
  · right
    simpa [Refused] using h

theorem decode_zero : decide ((0 : ℤ) ≠ 0 ∧ cplJExternObj ≠ 0) = false := by decide

include hsrv hs

/-- Under flags 0 there are no external objects. -/
theorem obeysBit_zero : ObeysBit parse srv s calls jsonString bundleName 0 := by
  rcases refused_or_accepted with hrefused | ⟨document, hp, hdocument⟩
  · have hend := fun outId =>
      importDocumentJson_refused srv bundleName hrefused 0 outId ⟨s, calls⟩
    refine ⟨fun _ => rfl, fun _ => rfl, fun outId => ?_, fun _ _ _ outId => (hend outId).2.1⟩
    rw [(hend outId).2.2]
    exact allJoinNew_of_same hs.valid rfl
  · have houtcome := fun outId =>
      importDocumentJson_outcome srv bundleName hp hdocument [] 0 outId ⟨s, calls⟩
    refine ⟨fun _ => rfl, fun _ => rfl, fun outId => ?_, fun document' hp' hnames outId hok => ?_⟩
    · rw [(houtcome outId).2, decode_zero, outcome_store]
      exact importContents_joinsNew hsrv ⟨s, calls⟩ hs document bundleName
    · rw [hp] at hp'
      cases hp'
      have hreach : (World.mk s calls).store.Reachable := hs
      have hcode := (houtcome outId).1
      rw [decode_zero, hok] at hcode
      rcases hrun : importContents srv document bundleName [] false ⟨s, calls⟩ with
        ⟨⟨e⟩ | ⟨b⟩, w⟩
      · rw [hrun] at hcode
        cases e <;> cases hcode
      · exact importContents_declared hsrv hreach hrun hnames

theorem endsAlike_iff (bundleName : String) {document : Json}
    (hp : parse jsonString = some document)
    (hdocument : ¬ (document.equalsNull = true ∨ document.isEmpty = true ∨
      ¬ document.isObject = true)) {flags : ℤ} (hflags : flags ≠ 0) :
    EndsAlike parse srv jsonString bundleName flags 0 ⟨s, calls⟩ ↔
      ¬ ReachesOut s bundleName document := by
  have hone : decide (flags ≠ 0 ∧ cplJExternObj ≠ 0) = true := by simp [hflags, cplJExternObj]
  have houtcome := fun flags outId =>
    importDocumentJson_outcome srv bundleName hp hdocument [] flags outId ⟨s, calls⟩
  have hreach : (World.mk s calls).store.Reachable := hs
  rw [← outcome_contents_iff hsrv hreach document bundleName]
  constructor
  · intro h
    have hflagged := houtcome flags none
    have hplain := houtcome 0 none
    rw [hone] at hflagged
    rw [decode_zero] at hplain
    apply Prod.ext
    · rw [← hflagged.1, (h none).1, hplain.1]
    · rw [← hflagged.2, (h none).2, hplain.2]
  · intro heq outId
    have hflagged := houtcome flags outId
    have hplain := houtcome 0 outId
    rw [hone, heq] at hflagged
    rw [decode_zero] at hplain
    exact ⟨hflagged.1.trans hplain.1.symm, hflagged.2.trans hplain.2.symm⟩

end Call

/-- Flags in which the bit is clear: an entity that the document does not declare is stored, and
a record of the document derives an object from it. -/
def outsideText : String :=
  "\x7b\"entity\": \x7b\"a\": \x7b\x7d\x7d, \"wasDerivedFrom\": \x7b\"r\": " ++
  "\x7b\"prov:generatedEntity\": \"a\", \"prov:usedEntity\": \"x\"\x7d\x7d\x7d"

def outsideRecord : String × Json :=
  ("r", .object [("prov:generatedEntity", .string "a"), ("prov:usedEntity", .string "x")])

def outsideDocument : Json :=
  .object [("entity", .object [("a", .object [])]), ("wasDerivedFrom", .object [outsideRecord])]

def outsideParse (text : String) : Option Json :=
  if text = outsideText then some outsideDocument else none

/-- Under flags 2 the record is imported, under flags 0 it is refused. -/
theorem other_bit_crosses : (Store.oneEntity "x" 1).Reachable ∧ (2 : ℤ).land cplJExternObj = 0 ∧
    ¬ ObeysBit outsideParse .ideal (Store.oneEntity "x" 1) 0 outsideText "b" 2 := by
  refine ⟨Store.oneEntity_reachable "x" 1, by decide, fun h => ?_⟩
  have hcode := h.sameCode none
  have htwo : (importDocumentJson outsideParse .ideal outsideText "b" [] 2 none
      ⟨Store.oneEntity "x" 1, 0⟩).1.1 = .ret .ok := by decide
  have hzero : (importDocumentJson outsideParse .ideal outsideText "b" [] 0 none
      ⟨Store.oneEntity "x" 1, 0⟩).1.1 = .ret .internalError := by decide
  rw [htwo, hzero] at hcode
  cases hcode

/-- With a database that works, flags that are not 0 are harmless exactly when no record
crosses that the import reaches under flags 0. -/
theorem obeysBit_iff {parse : String → Option Json} {srv : Server} (hsrv : Reliable srv)
    {s : Store} (hs : s.Reachable) (calls : ℕ) (jsonString bundleName : String) (flags : ℤ) :
    ObeysBit parse srv s calls jsonString bundleName flags ↔ flags = 0 ∨
      ∀ document, parse jsonString = some document → ¬ ReachesOut s bundleName document := by
  have hzero : ObeysBit parse srv s calls jsonString bundleName 0 := obeysBit_zero hsrv hs calls
  by_cases hflags : flags = 0
  · exact iff_of_true (hflags ▸ hzero) (Or.inl hflags)
  · rcases refused_or_accepted with hrefused | ⟨document, hp, hdocument⟩
    · refine iff_of_true (hzero.of_endsAlike fun outId => ?_) (Or.inr ?_)
      · have hend := importDocumentJson_refused srv bundleName hrefused
        refine ⟨(hend flags outId _).1, ?_⟩
        rw [(hend flags outId _).2.2, (hend 0 outId _).2.2]
      · rintro document hp ⟨-, done, x, rest, hsplit, -⟩
        rw [relationItems_of_refused (hrefused document hp)] at hsplit
        simp at hsplit
    · have hiff := endsAlike_iff hsrv hs calls bundleName hp hdocument hflags
      constructor
      · intro h
        right
        intro document' hp'
        rw [hp] at hp'
        cases hp'
        exact hiff.mp fun outId => ⟨h.sameCode outId, h.sameStore outId⟩
      · intro h
        exact hzero.of_endsAlike (hiff.mpr ((h.resolve_left hflags) document hp))

/-- Without the stored entity the lookup finds nothing, and flags 2 do no harm. -/
theorem obeysBit_iff_unstored : ObeysBit outsideParse .ideal Store.fresh 0 outsideText "b" 2 := by
  refine (obeysBit_iff Server.ideal_reliable .fresh 0 outsideText "b" 2).mpr (Or.inr ?_)
  rintro document hp ⟨-, done, x, rest, hsplit, -, hx⟩
  obtain rfl : outsideDocument = document := Option.some.inj hp
  have hitems : relationItems outsideDocument = [some (⟨wasDerivedFrom, "wasDerivedFrom",
      "prov:generatedEntity", cplEntity, "prov:usedEntity", cplEntity⟩, outsideRecord)] := rfl
  have hnotFound : ¬ ∃ k ∈ keysAfter Store.fresh "b" (declared outsideDocument),
      k.Answers "x" cplEntity := by decide
  have hmem : x ∈ relationItems outsideDocument := by simp [hsplit]
  rw [hitems, List.mem_singleton] at hmem
  subst hmem
  rcases hx with ⟨⟨n, hn, hnot⟩, -⟩ | ⟨-, -, n, hn, hfound⟩
  · obtain rfl : "a" = n := by simpa [outsideRecord, Json.find, OrderedMap.find] using hn
    exact hnot (by decide)
  · obtain rfl : "x" = n := by simpa [outsideRecord, Json.find, OrderedMap.find] using hn
    exact hnotFound hfound

end ExternObjects
