import ProvCpl.ImportedObjects

/-! # Records with and without external objects

The runs of the relation stage with and without external objects differ at the first record with
an end that the document does not declare, if they do: it is refused without them, and goes on
with them if the store has an object for the name. -/
namespace ExternRecords

open CplTypes QualifiedName JsonValue ProvStore ProvServer ServerSpecs ImportDocument
open ImportFrame ValidateDocument ImportAccepts ImportGraph ImportChecks ImportedObjects
open EarlyExit CheckedProgram

/-- A record under its section, or a section that is not an object. -/
abbrev Item := Option (ProvRelationData × (String × Json))

/-- What the importer finds in the relation sections, in its order. -/
def relationItems (document : Json) : List Item :=
  relationSections.flatMap fun d =>
    if (document.find d.typeStr).all Json.isObject then
      (records document d).map fun e => some (d, e)
    else [none]

def importItem (srv : Server) (bundleId : ℕ) (lookupTbl : LookupTable) (externObjF : Bool) :
    Item → Api Unit
  | none => leave (.ret .invalidJson)
  | some (d, e) => importRelation srv bundleId lookupTbl externObjF d e

def itemChecks (names : List String) : Item → List Verdict
  | none => [.refuses]
  | some (d, e) => recordChecks (· ∈ names) d e

theorem importRelationsJson_items (srv : Server) (b : ℕ) (tbl : LookupTable) (document : Json)
    (externObjF : Bool) : importRelationsJson srv b tbl document externObjF =
      forEach (importItem srv b tbl externObjF) (relationItems document) := by
  rw [relationItems, forEach_flatMap, importRelationsJson]
  congr 1
  funext d
  rw [importRelationSection_eq]
  split
  · rw [forEach_map]
    rfl
  · rfl

def Foreign (names : List String) (record : Json) (key : String) : Prop :=
  ∃ n, record.find key = some (.string n) ∧ n ∉ names

def Own (names : List String) (record : Json) (key : String) : Prop :=
  ∃ n, record.find key = some (.string n) ∧ n ∈ names

def Found (keys : List ObjectKey) (record : Json) (key : String) (type : ℤ) : Prop :=
  ∃ n, record.find key = some (.string n) ∧ ∃ k ∈ keys, k.Answers n type

/-- A record that is refused for an end that is not declared, and goes on if external objects
are allowed: to its relation, or to a value that is no string. -/
def Crosses (keys : List ObjectKey) (names : List String) : Item → Prop
  | none => False
  | some (d, e) =>
    Foreign names e.2 d.sourceStr ∧ Found keys e.2 d.sourceStr d.sourceT ∧
        ((∃ v, e.2.find d.destStr = some v ∧ ¬ v.isString) ∨ Own names e.2 d.destStr ∨
          Foreign names e.2 d.destStr ∧ Found keys e.2 d.destStr d.destT) ∨
      Own names e.2 d.sourceStr ∧ Foreign names e.2 d.destStr ∧
        Found keys e.2 d.destStr d.destT

/-- No end is looked for in the store. -/
def Inward (names : List String) : Item → Prop
  | none => True
  | some (d, e) => ¬ Foreign names e.2 d.sourceStr ∧
      (Own names e.2 d.sourceStr → ¬ Foreign names e.2 d.destStr)

section Ends

variable {srv : Server} {names : List String} {tbl : LookupTable} {record : Json} {key : String}
  {type : ℤ}

theorem importEndpoint_inward (htbl : Lists names tbl) (h : ¬ Foreign names record key) :
    importEndpoint srv tbl true record key type = importEndpoint srv tbl false record key type := by
  unfold importEndpoint
  cases hv : record.find key with
  | none => rfl
  | some v =>
    cases v with
    | string n =>
      have hn : n ∈ names := by
        by_contra hn
        exact h ⟨n, hv, hn⟩
      obtain ⟨id, hid⟩ := Option.isSome_iff_exists.mp (htbl.covers.found n hn)
      simp only [Json.getString, orThrow]
      funext w
      rw [bind_run, bind_run]
      simp only [pure_run, hid]
    | _ => rfl

theorem importEndpoint_refused (htbl : Lists names tbl) (h : Foreign names record key)
    (w : World) : importEndpoint srv tbl false record key type w =
      (.error (.ret .internalError), w) := by
  obtain ⟨n, hv, hn⟩ := h
  have hnone := htbl.absent hn
  unfold importEndpoint
  simp only [hv, Json.getString, orThrow, bind_run, pure_run, hnone, Bool.false_eq_true, if_false]
  rfl

theorem importEndpoint_own (srv : Server) (type : ℤ) (htbl : Lists names tbl)
    (h : Own names record key) (externObjF : Bool) (w : World) : ∃ id, id ≠ 0 ∧
      importEndpoint srv tbl externObjF record key type w = (.ok id, w) := by
  obtain ⟨n, hv, hn⟩ := h
  obtain ⟨id, hid⟩ := Option.isSome_iff_exists.mp (htbl.covers.found n hn)
  refine ⟨id, htbl.covers.nonzero n id hid, ?_⟩
  unfold importEndpoint
  simp only [hv, Json.getString, orThrow, bind_run, pure_run, hid]

theorem importEndpoint_stops (srv : Server) (tbl : LookupTable) (type : ℤ)
    (hown : ¬ Own names record key) (hforeign : ¬ Foreign names record key) :
    ((∃ v, record.find key = some v ∧ ¬ v.isString) ∧ ∀ externObjF w,
      importEndpoint srv tbl externObjF record key type w = (.error .thrown, w)) ∨
    (record.find key = none ∧ ∀ externObjF w,
      importEndpoint srv tbl externObjF record key type w = (.error (.ret .invalidJson), w)) := by
  unfold importEndpoint
  cases hv : record.find key with
  | none => exact Or.inr ⟨rfl, fun _ _ => rfl⟩
  | some v =>
    cases v with
    | string n =>
      by_cases hn : n ∈ names
      · exact absurd ⟨n, hv, hn⟩ hown
      · exact absurd ⟨n, hv, hn⟩ hforeign
    | _ => exact Or.inl ⟨⟨_, rfl, by simp [Json.isString]⟩, fun _ _ => rfl⟩

theorem importEndpoint_looked (type : ℤ) (hsrv : Reliable srv) (htbl : Lists names tbl) {w : World}
    {keys : List ObjectKey} (hreach : w.store.Reachable)
    (hkeys : w.store.objects.map keyOf = keys) (h : Foreign names record key) :
    (Found keys record key type ∧ ∃ id w', id ≠ 0 ∧ w'.store = w.store ∧
      importEndpoint srv tbl true record key type w = (.ok id, w')) ∨
    (¬ Found keys record key type ∧ ∃ w', w'.store = w.store ∧
      importEndpoint srv tbl true record key type w = (.error (.ret .internalError), w')) := by
  obtain ⟨n, hv, hn⟩ := h
  have hnone := htbl.absent hn
  have hfound : Found keys record key type ↔ ∃ k ∈ keys, k.Answers n type := by
    constructor
    · rintro ⟨m, hm, hk⟩
      rw [hv] at hm
      cases hm
      exact hk
    · exact fun hk => ⟨n, hv, hk⟩
  rw [hfound, ← objectsNamed_ne_nil_iff hkeys, ← lookupObject_isOk_iff hsrv]
  have hrun : importEndpoint srv tbl true record key type w =
      requireId (srv.lookupObject (some (cStr (nameToTokens n).1)) (some (cStr (nameToTokens n).2))
        type) w := by
    unfold importEndpoint
    simp only [hv, Json.getString, orThrow, bind_run, pure_run, hnone, if_true]
  rw [hrun]
  by_cases hok : (srv.lookupObject (some (cStr (nameToTokens n).1))
      (some (cStr (nameToTokens n).2)) type w).1.1.IsOk
  · obtain ⟨id, hid⟩ := Option.isSome_iff_exists.mp (lookupObject_isSome hok)
    refine Or.inl ⟨hok, id, _, ?_, lookupObject_store _ _ _,
      by simp only [requireId, bind_run, call, if_pos hok, hid, pure_run]; rfl⟩
    obtain ⟨r, hr, rfl⟩ := lookupObject_value hid
    simp only [Store.objectsNamed, List.mem_filter, decide_eq_true_eq] at hr
    exact hreach.named_ne_zero r hr.1 (by rw [hr.2.2.1]; rfl)
  · exact Or.inr ⟨hok, _, lookupObject_store _ _ _,
      by simp only [requireId, bind_run, call, if_neg hok, leave]; rfl⟩

theorem importEndpoint_found (type : ℤ) (hsrv : Reliable srv) (htbl : Lists names tbl) {w : World}
    {keys : List ObjectKey} (hreach : w.store.Reachable)
    (hkeys : w.store.objects.map keyOf = keys) (h : Foreign names record key)
    (hfound : Found keys record key type) : ∃ id w', id ≠ 0 ∧ w'.store = w.store ∧
      importEndpoint srv tbl true record key type w = (.ok id, w') := by
  rcases importEndpoint_looked type hsrv htbl hreach hkeys h with ⟨-, hid⟩ | ⟨hnot, -⟩
  · exact hid
  · exact absurd hfound hnot

theorem importEndpoint_kept (type : ℤ) (hsrv : Reliable srv) (htbl : Lists names tbl) {w : World}
    {keys : List ObjectKey} (hreach : w.store.Reachable)
    (hkeys : w.store.objects.map keyOf = keys)
    (h : ¬ ((∃ v, record.find key = some v ∧ ¬ v.isString) ∨ Own names record key ∨
      Foreign names record key ∧ Found keys record key type)) :
    ∃ code w', w'.store = w.store ∧
      importEndpoint srv tbl true record key type w = (.error (.ret code), w') := by
  by_cases hforeign : Foreign names record key
  · rcases importEndpoint_looked type hsrv htbl hreach hkeys hforeign with
      ⟨hfound, -⟩ | ⟨-, w', hw', hrun⟩
    · exact absurd (Or.inr (Or.inr ⟨hforeign, hfound⟩)) h
    · exact ⟨_, w', hw', hrun⟩
  · have hown : ¬ Own names record key := fun hown => h (Or.inr (Or.inl hown))
    rcases importEndpoint_stops srv tbl type hown hforeign with ⟨hv, -⟩ | ⟨-, hrun⟩
    · exact absurd (Or.inl hv) h
    · exact ⟨_, w, rfl, hrun true w⟩

end Ends

section Items

variable {srv : Server} {names : List String} {tbl : LookupTable} {b : ℕ} {x : Item}

theorem importRelation_atSource {externObjF : Bool} {d : ProvRelationData} {e : String × Json}
    {stop : Stop} {w w₁ : World}
    (hf : importEndpoint srv tbl externObjF e.2 d.sourceStr d.sourceT w = (.error stop, w₁)) :
    importRelation srv b tbl externObjF d e w = (.error stop, w₁) := by
  unfold importRelation
  rw [bind_run, hf]

theorem importRelation_atDest {externObjF : Bool} {d : ProvRelationData} {e : String × Json}
    {stop : Stop} {w w₁ w₂ : World} {f : ℕ}
    (hf : importEndpoint srv tbl externObjF e.2 d.sourceStr d.sourceT w = (.ok f, w₁))
    (ho : importEndpoint srv tbl externObjF e.2 d.destStr d.destT w₁ = (.error stop, w₂)) :
    importRelation srv b tbl externObjF d e w = (.error stop, w₂) := by
  unfold importRelation
  rw [bind_run, hf]
  dsimp only
  rw [bind_run, ho]

theorem importItem_inward (htbl : Lists names tbl) (h : Inward names x) :
    importItem srv b tbl true x = importItem srv b tbl false x := by
  rcases x with - | ⟨d, e⟩
  · rfl
  · obtain ⟨hsource, hdest⟩ := h
    unfold importItem importRelation
    dsimp only
    rw [importEndpoint_inward htbl hsource]
    by_cases hown : Own names e.2 d.sourceStr
    · rw [importEndpoint_inward htbl (hdest hown)]
    · funext w
      rw [bind_run, bind_run]
      rcases importEndpoint_stops srv tbl d.sourceT hown hsource with
        ⟨-, hstop⟩ | ⟨-, hstop⟩
      · rw [hstop]
      · rw [hstop]

theorem importItem_refused (htbl : Lists names tbl) (h : ¬ Inward names x) (w : World) :
    importItem srv b tbl false x w = (.error (.ret .internalError), w) := by
  rcases x with - | ⟨d, e⟩
  · exact absurd trivial h
  · by_cases hsource : Foreign names e.2 d.sourceStr
    · exact importRelation_atSource (importEndpoint_refused htbl hsource w)
    · have hdest : Own names e.2 d.sourceStr ∧ Foreign names e.2 d.destStr := by
        by_contra hd
        exact h ⟨hsource, fun ho hf => hd ⟨ho, hf⟩⟩
      obtain ⟨id, -, hrun⟩ := importEndpoint_own srv d.sourceT htbl hdest.1 false w
      exact importRelation_atDest hrun (importEndpoint_refused htbl hdest.2 w)

theorem relationClosed_grows (n b : ℕ) : RelationClosed (fun t => n < t.nextRelation) b 0 where
  next := fun _ _ => Nat.zero_le _
  relation := fun _ _ _ _ _ _ _ _ h => Nat.lt_succ_of_lt h
  relationProperty := fun _ _ _ _ _ _ he h => by
    obtain ⟨-, rfl⟩ := insertRelationProperty_eq he
    exact h

theorem keeps_importItem {I : Store → Prop} {lr : ℕ} (hI : RelationClosed I b lr)
    (tbl : LookupTable) (externObjF : Bool) {x : Item}
    (hx : ∀ d e, x = some (d, e) → d ∈ relationSections) :
    Keeps I (importItem srv b tbl externObjF x) fun _ => True := by
  rcases x with - | ⟨d, e⟩
  · exact keeps_leave
  · exact keeps_importRelation hI tbl externObjF (hx d e rfl) e

theorem importRelation_grows (hsrv : Reliable srv) {d : ProvRelationData}
    (hd : d ∈ relationSections) {e : String × Json} {externObjF : Bool} {w w₁ w₂ : World}
    {f o : ℕ} (hf : importEndpoint srv tbl externObjF e.2 d.sourceStr d.sourceT w = (.ok f, w₁))
    (ho : importEndpoint srv tbl externObjF e.2 d.destStr d.destT w₁ = (.ok o, w₂))
    (hf0 : f ≠ 0) (ho0 : o ≠ 0) :
    w₂.store.nextRelation <
      (importRelation srv b tbl externObjF d e w).2.store.nextRelation := by
  have hI := relationClosed_grows w₂.store.nextRelation b
  have hrest : Triple (· = w₂) (do
      let relationId ← requireId (srv.addRelation f o d.type)
      requireOk (codeOnly (srv.addRelation b relationId bundleRelation))
      if e.1 ≠ d.sourceStr ∧ e.1 ≠ d.destStr then
        importProperties (relationWriter srv) relationId e.2
      else pure ()) (fun _ w => w₂.store.nextRelation < w.store.nextRelation)
      fun _ w => w₂.store.nextRelation < w.store.nextRelation := by
    refine triple_bind (Q := fun _ w => w₂.store.nextRelation < w.store.nextRelation) ?_
      fun id => ?_
    · rintro w rfl
      simp only [requireId, bind_run, call,
        addRelation_reliable hsrv hf0 ho0 (relationSections_ensureRType d hd).1]
      exact Nat.lt_succ_self _
    · refine triple_conseq (maintains_bind (keeps_addMembership hI id) fun _ _ => maintains_ite
        (fun _ => keeps_importProperties (hI.relationWriter (Nat.zero_le id)) e.2)
        fun _ => maintains_pure trivial) (fun _ hw => hw) (fun _ _ hw => hw.1) fun _ _ hw => hw
  unfold importRelation
  rw [bind_run, hf]
  dsimp only
  rw [bind_run, ho]
  dsimp only
  rcases hrest.cases rfl with ⟨a, t, hr, ht⟩ | ⟨a, t, hr, ht⟩
  · rw [hr]
    exact ht
  · rw [hr]
    exact ht

/-- A record that crosses leaves by an exception, or stores a relation. -/
theorem importItem_crosses (hsrv : Reliable srv) (htbl : Lists names tbl) {w : World}
    {keys : List ObjectKey} (hreach : w.store.Reachable)
    (hkeys : w.store.objects.map keyOf = keys)
    (hx : ∀ d e, x = some (d, e) → d ∈ relationSections) (h : Crosses keys names x) :
    (∃ w', importItem srv b tbl true x w = (.error .thrown, w')) ∨
      w.store.nextRelation < (importItem srv b tbl true x w).2.store.nextRelation := by
  rcases x with - | ⟨d, e⟩
  · exact h.elim
  · have hd := hx d e rfl
    rcases h with ⟨hsource, hfound, hdest⟩ | ⟨hsource, hdest, hfound⟩
    · obtain ⟨f, w₁, hf0, hw₁, hf⟩ :=
        importEndpoint_found d.sourceT hsrv htbl hreach hkeys hsource hfound
      rcases hdest with ⟨v, hv, hstring⟩ | hown | ⟨hforeign, hfound'⟩
      · left
        have hstop : importEndpoint srv tbl true e.2 d.destStr d.destT w₁ =
            (.error .thrown, w₁) := by
          unfold importEndpoint
          rw [hv]
          cases v with
          | string n => exact absurd rfl hstring
          | _ => rfl
        exact ⟨w₁, importRelation_atDest hf hstop⟩
      · right
        obtain ⟨o, ho0, ho⟩ := importEndpoint_own srv d.destT htbl hown true w₁
        rw [← hw₁]
        exact importRelation_grows hsrv hd hf ho hf0 ho0
      · right
        have hkeys₁ : w₁.store.objects.map keyOf = keys := by rw [hw₁, hkeys]
        obtain ⟨o, w₂, ho0, hw₂, ho⟩ :=
          importEndpoint_found d.destT hsrv htbl (hw₁ ▸ hreach) hkeys₁ hforeign hfound'
        rw [← hw₁, ← hw₂]
        exact importRelation_grows hsrv hd hf ho hf0 ho0
    · right
      obtain ⟨f, hf0, hf⟩ := importEndpoint_own srv d.sourceT htbl hsource true w
      obtain ⟨o, w₂, ho0, hw₂, ho⟩ :=
        importEndpoint_found d.destT hsrv htbl hreach hkeys hdest hfound
      rw [← hw₂]
      exact importRelation_grows hsrv hd hf ho hf0 ho0

/-- A record that neither keeps inside nor crosses is refused with external objects too. -/
theorem importItem_kept (hsrv : Reliable srv) (htbl : Lists names tbl) {w : World}
    {keys : List ObjectKey} (hreach : w.store.Reachable)
    (hkeys : w.store.objects.map keyOf = keys) (hinward : ¬ Inward names x)
    (h : ¬ Crosses keys names x) :
    ∃ code w', w'.store = w.store ∧
      importItem srv b tbl true x w = (.error (.ret code), w') := by
  rcases x with - | ⟨d, e⟩
  · exact absurd trivial hinward
  · by_cases hsource : Foreign names e.2 d.sourceStr
    · rcases importEndpoint_looked d.sourceT hsrv htbl hreach hkeys hsource with
        ⟨hfound, f, w₁, -, hw₁, hf⟩ | ⟨-, w₁, hw₁, hf⟩
      · have hkeys₁ : w₁.store.objects.map keyOf = keys := by rw [hw₁, hkeys]
        obtain ⟨code, w₂, hw₂, ho⟩ := importEndpoint_kept d.destT hsrv htbl (hw₁ ▸ hreach) hkeys₁
          fun hd => h (Or.inl ⟨hsource, hfound, hd⟩)
        exact ⟨code, w₂, hw₂.trans hw₁, importRelation_atDest hf ho⟩
      · exact ⟨.internalError, w₁, hw₁, importRelation_atSource hf⟩
    · have hown : Own names e.2 d.sourceStr ∧ Foreign names e.2 d.destStr := by
        by_contra hd
        exact hinward ⟨hsource, fun ho hf => hd ⟨ho, hf⟩⟩
      obtain ⟨f, -, hf⟩ := importEndpoint_own srv d.sourceT htbl hown.1 true w
      have hnot : ¬ Found keys e.2 d.destStr d.destT :=
        fun hfound => h (Or.inr ⟨hown.1, hown.2, hfound⟩)
      have hdest : ¬ ((∃ v, e.2.find d.destStr = some v ∧ ¬ v.isString) ∨
          Own names e.2 d.destStr ∨
          Foreign names e.2 d.destStr ∧ Found keys e.2 d.destStr d.destT) := by
        obtain ⟨n, hn, hmem⟩ := hown.2
        rintro (⟨v, hv, hstring⟩ | ⟨m, hm, hdeclared⟩ | ⟨-, hfound⟩)
        · rw [hn] at hv
          cases hv
          exact hstring rfl
        · rw [hn] at hm
          cases hm
          exact hmem hdeclared
        · exact hnot hfound
      obtain ⟨code, w₂, hw₂, ho⟩ := importEndpoint_kept d.destT hsrv htbl hreach hkeys hdest
      exact ⟨code, w₂, hw₂, importRelation_atDest hf ho⟩

end Items

/-- What a caller sees of a run: the code, every failure being an internal error, and the
store. -/
def outcome {α : Type} (out : Except Stop α × World) : Stop × Store :=
  match out with
  | (.ok _, w) => (.ret .ok, w.store)
  | (.error (.ret _), w) => (.ret .internalError, w.store)
  | (.error e, w) => (e, w.store)

theorem outcome_store {α : Type} (out : Except Stop α × World) :
    (outcome out).2 = out.2.store := by
  rcases out with ⟨⟨⟩ | ⟨⟩, w⟩
  · next e => cases e <;> rfl
  · rfl

theorem outcome_bind_pure {α β : Type} (m : Api α) (b : β) (w : World) :
    outcome ((m >>= fun _ => pure b) w) = outcome (m w) := by
  rw [bind_run]
  rcases m w with ⟨⟨⟩ | ⟨⟩, w'⟩
  · next e => cases e <;> rfl
  · rfl

def Settles (b : ℕ) (keys : List ObjectKey) (t : Store) : Prop :=
  HasBundle b t ∧ t.objects.map keyOf = keys

theorem relationClosed_settles (b : ℕ) (keys : List ObjectKey) :
    RelationClosed (Settles b keys) b 1 where
  next := fun s h => ((importClosed_hasBundle b).next s h.1).2
  relation := fun s f o t hf ho ht _ h =>
    ⟨(importClosed_hasBundle b).relation s f o t hf ho ht h.1, h.2⟩
  relationProperty := fun s s' r hr h0 hw he h => by
    refine ⟨(importClosed_hasBundle b).relationProperty s s' r hr h0 hw he h.1, ?_⟩
    obtain ⟨-, rfl⟩ := insertRelationProperty_eq he
    exact h.2

theorem firstFault_eq_none_iff {vs : List Verdict} :
    firstFault vs = none ↔ ∀ v ∈ vs, v = .passes := by
  simp [firstFault]

theorem own_of_passes {names : List String} {record : Json} {key : String}
    (h : endpointCheck (· ∈ names) record key = .passes) : Own names record key := by
  unfold endpointCheck at h
  cases hv : record.find key with
  | none => simp [hv] at h
  | some v =>
    cases v with
    | string n =>
      simp only [hv, Json.getString, ite_eq_left_iff, reduceCtorEq, imp_false, not_not] at h
      exact ⟨n, hv, h⟩
    | _ => simp [hv, Json.getString] at h

theorem Own.not_foreign {names : List String} {record : Json} {key : String}
    (h : Own names record key) : ¬ Foreign names record key := by
  rintro ⟨n, hn, hnot⟩
  obtain ⟨m, hm, hmem⟩ := h
  rw [hn] at hm
  cases hm
  exact hnot hmem

theorem own_of_itemChecks {names : List String} {d : ProvRelationData} {e : String × Json}
    (h : firstFault (itemChecks names (some (d, e))) = none) :
    Own names e.2 d.sourceStr ∧ Own names e.2 d.destStr := by
  rw [firstFault_eq_none_iff] at h
  constructor
  · exact own_of_passes (h _ (by simp [itemChecks, recordChecks]))
  · exact own_of_passes (h _ (by simp [itemChecks, recordChecks]))

theorem inward_of_passes {names : List String} {x : Item}
    (h : firstFault (itemChecks names x) = none) : Inward names x := by
  rcases x with - | ⟨d, e⟩
  · trivial
  · obtain ⟨hsource, hdest⟩ := own_of_itemChecks h
    exact ⟨hsource.not_foreign, fun _ => hdest.not_foreign⟩

section Runs

variable {srv : Server} {names : List String} {tbl : LookupTable} {b : ℕ}
  {keys : List ObjectKey} (hsrv : Reliable srv) (htbl : Lists names tbl) (hb : b ≠ 0)

include hsrv htbl hb

theorem makes_importItem {x : Item} (hx : ∀ d e, x = some (d, e) → d ∈ relationSections) :
    Makes False (Settles b keys) (importItem srv b tbl false x) (itemChecks names x)
      fun _ => True := by
  rcases x with - | ⟨d, e⟩
  · exact follows_refuse (not_escapes_ret _) rfl
  · refine makes_importRelation (fun _ => hsrv) (relationClosed_settles b keys)
      (fun s hs => hs.1.reachable) hb htbl (hx d e rfl) fun end' _ n _ => ?_
    by_cases hn : n ∈ names
    · exact Or.inl ⟨hn, hn⟩
    · exact Or.inr ⟨hn, Or.inl ⟨rfl, hn⟩⟩

theorem outcome_items {items : List Item}
    (hitems : ∀ d e, some (d, e) ∈ items → d ∈ relationSections)
    (h : ∀ done x rest, items = done ++ x :: rest →
      firstFault (done.flatMap (itemChecks names)) = none → ¬ Crosses keys names x)
    {w : World} (hw : Settles b keys w.store) :
    outcome (forEach (importItem srv b tbl true) items w) =
      outcome (forEach (importItem srv b tbl false) items w) := by
  induction items generalizing w with
  | nil => rfl
  | cons x items ih =>
    have hx : ∀ d e, x = some (d, e) → d ∈ relationSections :=
      fun d e hxe => hitems d e (hxe ▸ List.mem_cons_self)
    rw [forEach_cons, forEach_cons, bind_run, bind_run]
    by_cases hinward : Inward names x
    · rw [importItem_inward htbl hinward]
      rcases hrun : importItem srv b tbl false x w with ⟨r, w'⟩
      cases r with
      | error e => rfl
      | ok a =>
        obtain ⟨hw', hpass, -⟩ := (makes_importItem hsrv htbl hb hx).passed hw hrun
        apply ih (fun d e he => hitems d e (List.mem_cons_of_mem x he)) _ hw'
        intro done y rest hsplit hdone
        apply h (x :: done) y rest (by rw [hsplit, List.cons_append])
        rw [List.flatMap_cons, firstFault_append, hpass, hdone]
        rfl
    · obtain ⟨code, w', hw', hrun⟩ := importItem_kept (b := b) hsrv htbl hw.1.reachable hw.2
        hinward (h [] x items rfl rfl)
      rw [hrun, importItem_refused htbl hinward]
      exact congrArg (Prod.mk _) hw'

/-- A record that crosses and is reached sets the two runs apart. -/
theorem outcome_items_ne {done rest : List Item} {x : Item}
    (hitems : ∀ d e, some (d, e) ∈ done ++ x :: rest → d ∈ relationSections)
    (hdone : firstFault (done.flatMap (itemChecks names)) = none) (hx : Crosses keys names x)
    {w : World} (hw : Settles b keys w.store) :
    outcome (forEach (importItem srv b tbl true) (done ++ x :: rest) w) ≠
      outcome (forEach (importItem srv b tbl false) (done ++ x :: rest) w) := by
  have hinward : ∀ y ∈ done, importItem srv b tbl true y = importItem srv b tbl false y := by
    intro y hy
    apply importItem_inward htbl
    apply inward_of_passes
    rw [firstFault_eq_none_iff] at hdone ⊢
    exact fun v hv => hdone v (List.mem_flatMap_of_mem hy hv)
  have hmakes : Makes False (Settles b keys) (forEach (importItem srv b tbl false) done)
      (done.flatMap (itemChecks names)) fun _ => True :=
    follows_forEach fun y hy => makes_importItem hsrv htbl hb fun d e hye =>
      hitems d e (List.mem_append_left _ (hye ▸ hy))
  obtain ⟨a, w', hrun, hw', -⟩ := hmakes.returns_of_passes (s := w) id hw hdone
  have hout : ¬ Inward names x := by
    rcases x with - | ⟨d, e⟩
    · exact hx.elim
    · rintro ⟨hsource, hdest⟩
      rcases hx with ⟨hforeign, -⟩ | ⟨hown, hforeign, -⟩
      · exact hsource hforeign
      · exact hdest hown hforeign
  rw [forEach_append, forEach_append, forEach_congr hinward, bind_run, bind_run, hrun]
  dsimp only
  rw [forEach_cons, forEach_cons, bind_run, bind_run, importItem_refused htbl hout]
  dsimp only
  rcases importItem_crosses (b := b) hsrv htbl hw'.1.reachable hw'.2
    (fun d e hxe => hitems d e (by simp [hxe])) hx with ⟨w'', hthrown⟩ | hgrows
  · rw [hthrown]
    intro h
    exact absurd (congrArg Prod.fst h) (by simp [outcome])
  · intro h
    have hstore := congrArg Prod.snd h
    rw [outcome_store, outcome_store] at hstore
    have hrest : Keeps (fun t => w'.store.nextRelation < t.nextRelation)
        (forEach (importItem srv b tbl true) rest) fun _ => True :=
      maintains_forEach fun y hy => keeps_importItem (relationClosed_grows _ b) tbl true
        fun d e hye => hitems d e (by simp [← hye, hy])
    rcases hrun' : importItem srv b tbl true x w' with ⟨r, t⟩
    rw [hrun'] at hstore hgrows
    have hlt : w'.store.nextRelation < w'.store.nextRelation := by
      cases r with
      | ok a => exact hstore ▸ hrest.store hgrows
      | error e => exact hstore ▸ hgrows
    exact absurd hlt (Nat.lt_irrefl _)

end Runs

theorem mem_relationItems {document : Json} {d : ProvRelationData} {e : String × Json} :
    some (d, e) ∈ relationItems document ↔ d ∈ relationSections ∧
      (document.find d.typeStr).all Json.isObject ∧ e ∈ records document d := by
  unfold relationItems
  rw [List.mem_flatMap]
  constructor
  · rintro ⟨d', hd', hmem⟩
    split at hmem
    · obtain ⟨e', he', heq⟩ := List.mem_map.mp hmem
      cases heq
      exact ⟨hd', ‹_›, he'⟩
    · simp at hmem
  · rintro ⟨hd, hobject, he⟩
    refine ⟨d, hd, ?_⟩
    rw [if_pos hobject]
    exact List.mem_map_of_mem he

end ExternRecords
