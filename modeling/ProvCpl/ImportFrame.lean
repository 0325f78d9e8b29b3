import ProvCpl.ImportDocument
import ProvCpl.ServerSpecs

/-! # What a failed import leaves behind

The importer only inserts, and every property or prefix it writes belongs to an object or
relation that it has itself created. So whatever the way out, the store is the old one with
rows for new ids appended. -/
namespace ImportFrame

open CplTypes JsonValue ProvStore ProvServer ServerSpecs ImportDocument EarlyExit

/-- The rows of `s` are still there unchanged, and every added row belongs to a new id. -/
structure FreshExtension (s t : Store) : Prop where
  objects : ∃ l, t.objects = s.objects ++ l ∧ ∀ r ∈ l, s.nextObject ≤ r.id
  relations : ∃ l, t.relations = s.relations ++ l ∧ ∀ r ∈ l, s.nextRelation ≤ r.id
  objectProperties : ∃ l, t.objectProperties = s.objectProperties ++ l ∧
    ∀ r ∈ l, s.nextObject ≤ r.id
  relationProperties : ∃ l, t.relationProperties = s.relationProperties ++ l ∧
    ∀ r ∈ l, s.nextRelation ≤ r.id
  prefixes : ∃ l, t.prefixes = s.prefixes ++ l ∧ ∀ r ∈ l, s.nextObject ≤ r.id
  nextObject : s.nextObject ≤ t.nextObject
  nextRelation : s.nextRelation ≤ t.nextRelation

theorem append_row {β : Type} {base rows : List β} {x : β} {New : β → Prop}
    (h : ∃ l, rows = base ++ l ∧ ∀ r ∈ l, New r) (hx : New x) :
    ∃ l, rows ++ [x] = base ++ l ∧ ∀ r ∈ l, New r := by
  obtain ⟨l, rfl, hl⟩ := h
  refine ⟨l ++ [x], by rw [List.append_assoc], ?_⟩
  exact List.forall_mem_append.mpr ⟨hl, List.forall_mem_singleton.mpr hx⟩

theorem append_once {β : Type} {Same : β → β → Prop} [DecidableRel Same] {base rows : List β}
    {x : β} {New : β → Prop} (h : ∃ l, rows = base ++ l ∧ ∀ r ∈ l, New r) (hx : New x) :
    ∃ l, InsertOnce.insertOnce Same rows x = base ++ l ∧ ∀ r ∈ l, New r := by
  rcases InsertOnce.insertOnce_cases Same rows x with he | he
  · rwa [he]
  · rw [he]
    exact append_row h hx

theorem FreshExtension.refl (s : Store) : FreshExtension s s where
  objects := ⟨[], by simp⟩
  relations := ⟨[], by simp⟩
  objectProperties := ⟨[], by simp⟩
  relationProperties := ⟨[], by simp⟩
  prefixes := ⟨[], by simp⟩
  nextObject := Nat.le_refl _
  nextRelation := Nat.le_refl _

variable {s t : Store}

theorem FreshExtension.insertObject (h : FreshExtension s t) (p n : String) (ty : ℤ) (now : ℕ) :
    FreshExtension s (t.insertObject p n ty now) :=
  { h with
    objects := append_row h.objects h.nextObject
    nextObject := Nat.le_succ_of_le h.nextObject }

theorem FreshExtension.insertRelation (h : FreshExtension s t) (f o : ℕ) (ty : ℤ) :
    FreshExtension s (t.insertRelation f o ty) :=
  { h with
    relations := append_row h.relations h.nextRelation
    nextRelation := Nat.le_succ_of_le h.nextRelation }

theorem FreshExtension.insertObjectProperty (h : FreshExtension s t) {r : PropertyRow}
    (hr : s.nextObject ≤ r.id) {t' : Store} (ht : t.insertObjectProperty r = some t') :
    FreshExtension s t' := by
  obtain ⟨-, rfl⟩ := insertObjectProperty_eq ht
  exact { h with objectProperties := append_once h.objectProperties hr }

theorem FreshExtension.insertRelationProperty (h : FreshExtension s t) {r : PropertyRow}
    (hr : s.nextRelation ≤ r.id) {t' : Store} (ht : t.insertRelationProperty r = some t') :
    FreshExtension s t' := by
  obtain ⟨-, rfl⟩ := insertRelationProperty_eq ht
  exact { h with relationProperties := append_once h.relationProperties hr }

theorem FreshExtension.insertPrefix (h : FreshExtension s t) {r : PrefixRow}
    (hr : s.nextObject ≤ r.id) {t' : Store} (ht : t.insertPrefix r = some t') :
    FreshExtension s t' := by
  obtain ⟨-, rfl⟩ := insertPrefix_eq ht
  exact { h with prefixes := append_once h.prefixes hr }

/-- Whatever the way out, the property of stores is kept. -/
def Keeps {α : Type} (I : Store → Prop) (m : Api α) (R : α → Prop) : Prop :=
  Maintains (fun w => I w.store) m R fun _ w => I w.store

variable {srv : Server} {I : Store → Prop} {α : Type}

theorem Keeps.store {m : Api α} {R : α → Prop} (h : Keeps I m R) {w : World} (hw : I w.store) :
    I (m w).2.store := by
  rcases Triple.cases h hw with ⟨a, t, hr, ha, -⟩ | ⟨e, t, hr, he⟩
  · rw [hr]
    exact ha
  · rw [hr]
    exact he

theorem keeps_leave {e : Stop} {R : α → Prop} : Keeps I (leave e) R :=
  maintains_leave fun _ hw => hw

theorem keeps_conj {m : Api α} {R T : α → Prop} (h : Keeps I m R) (h' : Keeps I m T) :
    Keeps I m fun a => R a ∧ T a :=
  maintains_conj h h'

theorem keeps_orThrow (o : Option α) : Keeps I (orThrow o) fun _ => True := by
  cases o with
  | none => exact keeps_leave
  | some a => exact maintains_pure trivial

theorem keeps_orThrow_value (o : Option α) : Keeps I (orThrow o) fun a => o = some a := by
  cases o with
  | none => exact keeps_leave
  | some a => exact maintains_pure rfl

theorem keeps_requireId {c : Call World (ReturnCode × Option ℕ)} {R : ℕ → Prop}
    (hc : ∀ w, I w.store → I (c w).2.store)
    (hv : ∀ w, I w.store → ∀ id, (c w).1.2 = some id → R id) : Keeps I (requireId c) R := by
  refine maintains_bind (R := fun out => ∀ id, out.2 = some id → R id)
    (maintains_call fun w hw => ⟨hc w hw, hv w hw⟩) ?_
  intro out hout
  refine maintains_ite (fun _ => ?_) fun _ => keeps_leave
  split
  · exact maintains_pure (hout _ ‹_›)
  · exact keeps_leave

theorem keeps_requireOk {c : Call World ReturnCode} (hc : ∀ w, I w.store → I (c w).2.store) :
    Keeps I (requireOk c) fun _ => True := by
  refine maintains_bind (R := fun _ => True) (maintains_call fun w hw => ⟨hc w hw, trivial⟩) ?_
  intro r _
  exact maintains_ite (fun _ => maintains_pure trivial) fun _ => keeps_leave

theorem keeps_callUnchecked {c : Call World ReturnCode}
    (hc : ∀ w, I w.store → I (c w).2.store) : Keeps I (callUnchecked c) fun _ => True :=
  maintains_bind (R := fun _ => True) (maintains_call fun w hw => ⟨hc w hw, trivial⟩)
    fun _ _ => maintains_pure trivial

structure WriterKeeps (I : Store → Prop) (out : PropertyWriter) (id : ℕ) : Prop where
  addString : ∀ p k v w, I w.store → I (out.addString id p k v w).2.store
  addNumerical : ∀ p k x, FloatText.float.Fits x → ∀ w, I w.store →
    I (out.addNumerical id p k x w).2.store
  addBoolean : ∀ p k b w, I w.store → I (out.addBoolean id p k b w).2.store

theorem keeps_importProperty {out : PropertyWriter} {id : ℕ} (h : WriterKeeps I out id)
    (e : String × Json) : Keeps I (importProperty out id e) fun _ => True := by
  unfold importProperty
  dsimp only
  split
  · exact keeps_callUnchecked (h.addString _ _ _)
  · exact keeps_callUnchecked (h.addNumerical _ _ _ (FloatText.fits_ofInt _))
  · exact keeps_callUnchecked (h.addNumerical _ _ _ (FloatText.fits_ofInt _))
  · exact keeps_callUnchecked (h.addNumerical _ _ _ (FloatText.fits_cast _))
  · exact keeps_callUnchecked (h.addBoolean _ _ _)
  · exact keeps_leave

theorem keeps_importProperties {out : PropertyWriter} {id : ℕ} (h : WriterKeeps I out id)
    (properties : Json) : Keeps I (importProperties out id properties) fun _ => True :=
  maintains_bind (keeps_orThrow _) fun _ _ =>
    maintains_forEach fun e _ => keeps_importProperty h e

/-- Rows that the property writers produce: a number is stored as the decimal text of a value
of single precision. -/
def Written (r : PropertyRow) : Prop :=
  r.type = numericalProperty → ∃ x, FloatText.float.Fits x ∧ r.value = FloatText.toText x

theorem written_of_ne {id : ℕ} {p k v : String} {type : ℤ} (h : type ≠ numericalProperty) :
    Written ⟨id, p, k, v, type⟩ :=
  fun ht => absurd ht h

theorem addProperty_row {add : ℕ → String → String → String → ℤ → Call World ReturnCode}
    {id : ℕ} {value : Option String} {type : ℤ}
    (h : ∀ p k v w, id ≠ 0 → Written ⟨id, p, k, v, type⟩ → I w.store →
      I (add id p k v type w).2.store)
    (hv : ∀ p k v, value = some v → Written ⟨id, p, k, v, type⟩) (p k : Option String)
    (w : World) (hw : I w.store) : I (srv.addProperty add id p k value type w).2.store :=
  addProperty_keeps (fun p k v he h0 => h p k v w h0 (hv p k v he) hw) hw

theorem writerKeeps_of_rows {out : PropertyWriter} {id : ℕ}
    {add : ℕ → String → String → String → ℤ → Call World ReturnCode}
    (hs : out.addString = fun id p k v => srv.addProperty add id p k v stringProperty)
    (hn : out.addNumerical = fun id p k x =>
      srv.addProperty add id p k (some (FloatText.toText x)) numericalProperty)
    (hb : out.addBoolean = fun id p k b =>
      srv.addProperty add id p k (some (FloatText.boolText b)) booleanProperty)
    (h : ∀ type p k v w, id ≠ 0 → Written ⟨id, p, k, v, type⟩ → I w.store →
      I (add id p k v type w).2.store) : WriterKeeps I out id := by
  refine ⟨fun p k v => ?_, fun p k x hx => ?_, fun p k b => ?_⟩
  · rw [hs]
    exact addProperty_row (h _) (fun _ _ _ _ => written_of_ne (by decide)) p k
  · rw [hn]
    exact addProperty_row (h _) (fun _ _ _ hv _ => ⟨x, hx, (Option.some.inj hv).symm⟩) p k
  · rw [hb]
    exact addProperty_row (h _) (fun _ _ _ _ => written_of_ne (by decide)) p k

theorem objectWriter_keeps {id : ℕ}
    (h : ∀ s s' (r : PropertyRow), r.id = id → id ≠ 0 → Written r →
      s.insertObjectProperty r = some s' → I s → I s') : WriterKeeps I (objectWriter srv) id :=
  writerKeeps_of_rows rfl rfl rfl fun _ _ _ _ _ h0 hr hw =>
    cplOdbcAddObjectProperty_keeps (fun s s' he hs => h s s' _ rfl h0 hr he hs) hw

theorem relationWriter_keeps {id : ℕ}
    (h : ∀ s s' (r : PropertyRow), r.id = id → id ≠ 0 → Written r →
      s.insertRelationProperty r = some s' → I s → I s') :
    WriterKeeps I (relationWriter srv) id :=
  writerKeeps_of_rows rfl rfl rfl fun _ _ _ _ _ h0 hr hw =>
    cplOdbcAddRelationProperty_keeps (fun s s' he hs => h s s' _ rfl h0 hr he hs) hw

theorem keeps_lookupObject (p n : Option String) (t : ℤ) :
    Keeps I (requireId (srv.lookupObject p n t)) fun _ => True :=
  keeps_requireId (fun w hw => by rwa [lookupObject_store]) fun _ _ _ _ => trivial

theorem keeps_importEndpoint_value (tbl : LookupTable) (externObjF : Bool) (record : Json)
    (key : String) (type : ℤ) :
    Keeps I (importEndpoint srv tbl externObjF record key type) fun id =>
      ∃ n, record.find key = some (.string n) ∧ (OrderedMap.find n tbl = some id ∨
        OrderedMap.find n tbl = none ∧ externObjF = true) := by
  unfold importEndpoint
  cases hv : record.find key with
  | none => exact keeps_leave
  | some v =>
    refine maintains_bind (keeps_orThrow_value _) fun n hn => ?_
    obtain rfl := getString_eq_some hn
    cases hf : OrderedMap.find n tbl with
    | some id => exact maintains_pure ⟨n, rfl, Or.inl hf⟩
    | none =>
      refine maintains_ite (fun hflag => ?_) fun _ => keeps_leave
      exact maintains_weaken (keeps_lookupObject _ _ _) fun id _ => ⟨n, rfl, Or.inr ⟨hf, hflag⟩⟩

theorem keeps_importEndpoint (tbl : LookupTable) (externObjF : Bool) (record : Json)
    (key : String) (type : ℤ) :
    Keeps I (importEndpoint srv tbl externObjF record key type) fun _ => True :=
  maintains_weaken (keeps_importEndpoint_value tbl externObjF record key type) fun _ _ => trivial

/-- A property of stores that each insertion of the importer keeps, when it is about ids
from `lo` (objects) and `lr` (relations) on. -/
structure ImportClosed (I : Store → Prop) (lo lr : ℕ) : Prop where
  next : ∀ s, I s → lo ≤ s.nextObject ∧ lr ≤ s.nextRelation
  object : ∀ s p n t now, EnsureOType t → I s → I (s.insertObject p n t now)
  relation : ∀ s f o t, f ≠ 0 → o ≠ 0 → EnsureRType t → I s → I (s.insertRelation f o t)
  objectProperty : ∀ s s' (r : PropertyRow), lo ≤ r.id → r.id ≠ 0 → Written r →
    s.insertObjectProperty r = some s' → I s → I s'
  relationProperty : ∀ s s' (r : PropertyRow), lr ≤ r.id → r.id ≠ 0 → Written r →
    s.insertRelationProperty r = some s' → I s → I s'
  prefixRow : ∀ s s' (r : PrefixRow), lo ≤ r.id → r.id ≠ 0 →
    s.insertPrefix r = some s' → I s → I s'

/-- Kept by what the importer writes for the bundle and the members. -/
structure ObjectClosed (I : Store → Prop) (lo : ℕ) : Prop where
  next : ∀ s, I s → lo ≤ s.nextObject
  object : ∀ s p n t now, EnsureOType t → I s → I (s.insertObject p n t now)
  objectProperty : ∀ s s' (r : PropertyRow), lo ≤ r.id → r.id ≠ 0 → Written r →
    s.insertObjectProperty r = some s' → I s → I s'
  prefixRow : ∀ s s' (r : PrefixRow), lo ≤ r.id → r.id ≠ 0 →
    s.insertPrefix r = some s' → I s → I s'

/-- Kept by what the importer writes for anchors and records: all the memberships it adds are
of its own bundle `b`. -/
structure RelationClosed (I : Store → Prop) (b lr : ℕ) : Prop where
  next : ∀ s, I s → lr ≤ s.nextRelation
  relation : ∀ s f o t, f ≠ 0 → o ≠ 0 → EnsureRType t → (t = bundleRelation → f = b) → I s →
    I (s.insertRelation f o t)
  relationProperty : ∀ s s' (r : PropertyRow), lr ≤ r.id → r.id ≠ 0 → Written r →
    s.insertRelationProperty r = some s' → I s → I s'

theorem ImportClosed.objects {lo lr : ℕ} (hI : ImportClosed I lo lr) : ObjectClosed I lo where
  next := fun s h => (hI.next s h).1
  object := hI.object
  objectProperty := hI.objectProperty
  prefixRow := hI.prefixRow

theorem ImportClosed.relations {lo b lr : ℕ} (hI : ImportClosed I lo lr) :
    RelationClosed I b lr where
  next := fun s h => (hI.next s h).2
  relation := fun s f o t hf ho ht _ => hI.relation s f o t hf ho ht
  relationProperty := hI.relationProperty

theorem importClosed_of_mono (h : ∀ t t' : Store, (∀ r ∈ t.objects, r ∈ t'.objects) →
    (∀ r ∈ t.relations, r ∈ t'.relations) → I t → I t') : ImportClosed I 0 0 where
  next := fun _ _ => ⟨Nat.zero_le _, Nat.zero_le _⟩
  object := fun _ _ _ _ _ _ => h _ _ (fun _ hr => List.mem_append_left _ hr) fun _ hr => hr
  relation := fun _ _ _ _ _ _ _ => h _ _ (fun _ hr => hr) fun _ hr => List.mem_append_left _ hr
  objectProperty := fun _ _ _ _ _ _ he => by
    obtain ⟨-, rfl⟩ := insertObjectProperty_eq he
    exact h _ _ (fun _ hr => hr) fun _ hr => hr
  relationProperty := fun _ _ _ _ _ _ he => by
    obtain ⟨-, rfl⟩ := insertRelationProperty_eq he
    exact h _ _ (fun _ hr => hr) fun _ hr => hr
  prefixRow := fun _ _ _ _ _ he => by
    obtain ⟨-, rfl⟩ := insertPrefix_eq he
    exact h _ _ (fun _ hr => hr) fun _ hr => hr

theorem ImportClosed.conj {J : Store → Prop} {lo lr lo' lr' : ℕ} (hI : ImportClosed I lo lr)
    (hJ : ImportClosed J lo' lr') (hlo : lo' ≤ lo) (hlr : lr' ≤ lr) :
    ImportClosed (fun t => I t ∧ J t) lo lr where
  next := fun s h => hI.next s h.1
  object := fun s p n t now ht h => ⟨hI.object s p n t now ht h.1, hJ.object s p n t now ht h.2⟩
  relation := fun s f o t hf ho ht h =>
    ⟨hI.relation s f o t hf ho ht h.1, hJ.relation s f o t hf ho ht h.2⟩
  objectProperty := fun s s' r hr h0 hw he h => ⟨hI.objectProperty s s' r hr h0 hw he h.1,
    hJ.objectProperty s s' r (Nat.le_trans hlo hr) h0 hw he h.2⟩
  relationProperty := fun s s' r hr h0 hw he h => ⟨hI.relationProperty s s' r hr h0 hw he h.1,
    hJ.relationProperty s s' r (Nat.le_trans hlr hr) h0 hw he h.2⟩
  prefixRow := fun s s' r hr h0 he h => ⟨hI.prefixRow s s' r hr h0 he h.1,
    hJ.prefixRow s s' r (Nat.le_trans hlo hr) h0 he h.2⟩

theorem ObjectClosed.objectWriter {lo id : ℕ} (hI : ObjectClosed I lo) (hid : lo ≤ id) :
    WriterKeeps I (objectWriter srv) id :=
  objectWriter_keeps fun s s' r hr h0 hw => hI.objectProperty s s' r (hr ▸ hid) (hr ▸ h0) hw

theorem RelationClosed.relationWriter {b lr id : ℕ} (hI : RelationClosed I b lr) (hid : lr ≤ id) :
    WriterKeeps I (relationWriter srv) id :=
  relationWriter_keeps fun s s' r hr h0 hw => hI.relationProperty s s' r (hr ▸ hid) (hr ▸ h0) hw

theorem ImportClosed.relationWriter {lo lr id : ℕ} (hI : ImportClosed I lo lr) (hid : lr ≤ id) :
    WriterKeeps I (relationWriter srv) id :=
  (hI.relations (b := 0)).relationWriter hid

theorem keeps_importBundlePrefixesJson {bundle : ℕ}
    (h : ∀ s s' (r : PrefixRow), r.id = bundle → r.id ≠ 0 → s.insertPrefix r = some s' →
      I s → I s') (document : Json) :
    Keeps I (importBundlePrefixesJson srv bundle document) fun _ => True := by
  rw [importBundlePrefixesJson_eq]
  refine maintains_ite (fun _ => maintains_forEach fun e _ => ?_) fun _ => keeps_leave
  refine maintains_ite (fun _ => ?_) fun _ => keeps_leave
  refine maintains_bind (keeps_orThrow _) fun iri _ => ?_
  exact keeps_requireOk fun w hw =>
    addPrefix_keeps (fun s s' p i h0 he hs => h s s' _ rfl h0 he hs) hw

section Relations

variable {bundleId lr : ℕ} (hI : RelationClosed I bundleId lr)

include hI

theorem keeps_addRelation (f o : ℕ) {t : ℤ} (ht : t ≠ bundleRelation) :
    Keeps I (requireId (srv.addRelation f o t)) fun id => lr ≤ id :=
  keeps_requireId
    (fun _ => addRelation_keeps fun s hf ho ht' => hI.relation s f o t hf ho ht' (absurd · ht))
    fun _ => addRelation_value
      fun s hf ho ht' hs => ⟨hI.relation s f o t hf ho ht' (absurd · ht) hs, hI.next s hs⟩

theorem keeps_addMembership (r : ℕ) :
    Keeps I (requireOk (codeOnly (srv.addRelation bundleId r bundleRelation)))
      fun _ => True :=
  keeps_requireOk fun _ =>
    addRelation_keeps fun s hf ho ht => hI.relation s bundleId r _ hf ho ht fun _ => rfl

theorem keeps_importRelation (tbl : LookupTable) (externObjF : Bool) {entry : ProvRelationData}
    (hentry : entry ∈ relationSections) (e : String × Json) :
    Keeps I (importRelation srv bundleId tbl externObjF entry e) fun _ => True :=
  maintains_bind (keeps_importEndpoint _ _ _ _ _) fun _ _ =>
    maintains_bind (keeps_importEndpoint _ _ _ _ _) fun _ _ =>
      maintains_bind
          (keeps_addRelation hI _ _ (relationSections_ensureRType entry hentry).2) fun _ hid =>
        maintains_bind (keeps_addMembership hI _) fun _ _ =>
          maintains_ite
            (fun _ => keeps_importProperties (hI.relationWriter hid) _)
            fun _ => maintains_pure trivial

theorem keeps_importRelationsJson (tbl : LookupTable) (document : Json) (externObjF : Bool) :
    Keeps I (importRelationsJson srv bundleId tbl document externObjF)
      fun _ => True := by
  refine maintains_forEach fun entry hentry => ?_
  rw [importRelationSection_eq]
  exact maintains_ite
    (fun _ => maintains_forEach fun e _ => keeps_importRelation hI _ _ hentry e)
    fun _ => keeps_leave

theorem keeps_connectAnchor (anchor : ℕ × String) :
    Keeps I (connectAnchor srv bundleId anchor) fun _ => True := by
  refine maintains_bind (R := fun _ => True)
    (maintains_call fun w hw => ⟨by rwa [lookupObject_store], trivial⟩) ?_
  intro found _
  refine maintains_ite (fun _ => ?_) fun _ => maintains_pure trivial
  split
  · exact keeps_leave
  · exact maintains_bind (keeps_addRelation hI _ _ (by decide)) fun _ _ =>
      keeps_addMembership hI _

end Relations

section Objects

variable {lo : ℕ} (hI : ObjectClosed I lo)

include hI

theorem keeps_createObject (p n : Option String) (t : ℤ) :
    Keeps I (requireId (srv.createObject p n t)) fun id => lo ≤ id :=
  keeps_requireId
    (fun _ => createObject_keeps fun s p n now ht => hI.object s p n t now ht)
    fun _ => createObject_value
      fun s p n now ht hs => ⟨hI.object s p n t now ht hs, hI.next s hs⟩

theorem keeps_importObject (type : ℤ) (tbl : LookupTable) (e : String × Json) :
    Keeps I (importObject srv type tbl e) fun _ => True :=
  maintains_bind (keeps_createObject hI _ _ _) fun _ hid =>
    maintains_bind (keeps_importProperties (hI.objectWriter hid) _) fun _ _ =>
      maintains_pure trivial

theorem keeps_importObjectsJson (type : ℤ) (typeStr : String) (tbl : LookupTable)
    (document : Json) :
    Keeps I (importObjectsJson srv type typeStr tbl document) fun _ => True := by
  rw [importObjectsJson_eq]
  refine maintains_ite (fun _ => ?_) fun _ => keeps_leave
  exact maintains_fold (T := fun _ _ => True) trivial fun _ e tbl _ _ =>
    keeps_importObject hI type tbl e

theorem keeps_objectStage (document : Json) (bundleName : String) :
    Keeps I (objectStage srv document bundleName) fun out => lo ≤ out.1 :=
  maintains_bind (keeps_createObject hI _ _ _) fun _ hb =>
    maintains_bind (keeps_importBundlePrefixesJson
        (fun s s' r hr h0 he hs => hI.prefixRow s s' r (hr ▸ hb) h0 he hs) _) fun _ _ =>
      maintains_bind (keeps_importObjectsJson hI _ _ _ _) fun _ _ =>
        maintains_bind (keeps_importObjectsJson hI _ _ _ _) fun _ _ =>
          maintains_bind (keeps_importObjectsJson hI _ _ _ _) fun _ _ => maintains_pure hb

end Objects

section Importer

variable {lo lr : ℕ} (hO : ObjectClosed I lo) (hR : ∀ b, lo ≤ b → RelationClosed I b lr)

include hO hR

theorem keeps_importContents (document : Json) (bundleName : String)
    (anchors : List (ℕ × String)) (externObjF : Bool) :
    Keeps I (importContents srv document bundleName anchors externObjF)
      fun _ => True := by
  rw [importContents_stage]
  exact maintains_bind (keeps_objectStage hO document bundleName) fun out hb =>
    maintains_bind (maintains_forEach fun a _ => keeps_connectAnchor (hR out.1 hb) a) fun _ _ =>
      maintains_bind (keeps_importRelationsJson (hR out.1 hb) _ _ _) fun _ _ =>
        maintains_pure trivial

theorem keeps_importDocument_own (parse : String → Option Json)
    (jsonString bundleName : String) (anchors : List (ℕ × String)) (flags : ℤ) :
    Keeps I (importDocument parse srv jsonString bundleName anchors flags)
      fun _ => True := by
  refine maintains_bind (keeps_orThrow _) fun document _ => ?_
  refine maintains_ite (fun _ => keeps_leave) fun _ => ?_
  refine maintains_ite (fun _ => keeps_leave) fun _ => ?_
  exact maintains_mapExit (keeps_importContents hO hR _ _ _ _) fun _ _ hw => hw

end Importer

theorem keeps_importDocument {lo lr : ℕ} (hI : ImportClosed I lo lr)
    (parse : String → Option Json) (jsonString bundleName : String)
    (anchors : List (ℕ × String)) (flags : ℤ) :
    Keeps I (importDocument parse srv jsonString bundleName anchors flags) fun _ => True :=
  keeps_importDocument_own hI.objects (fun _ _ => hI.relations) parse jsonString bundleName
    anchors flags

theorem importClosed_fresh (s : Store) :
    ImportClosed (FreshExtension s) s.nextObject s.nextRelation where
  next := fun _ h => ⟨h.nextObject, h.nextRelation⟩
  object := fun _ p n t now _ h => h.insertObject p n t now
  relation := fun _ f o t _ _ _ h => h.insertRelation f o t
  objectProperty := fun _ _ _ hr _ _ he h => h.insertObjectProperty hr he
  relationProperty := fun _ _ _ hr _ _ he h => h.insertRelationProperty hr he
  prefixRow := fun _ _ _ hr _ he h => h.insertPrefix hr he

def Refused (parse : String → Option Json) (jsonString : String) : Prop :=
  ∀ d, parse jsonString = some d → d.equalsNull ∨ d.isEmpty ∨ ¬ d.isObject

def FirstCallLost (srv : Server) (w : World) : Prop :=
  srv.attached = false ∨
    (srv.outcome w.calls).lost = 0 ∧ (srv.outcome w.calls).failure.isSome

theorem importDocument_refused {parse : String → Option Json} {jsonString : String}
    (h : Refused parse jsonString) (srv : Server) (bundleName : String)
    (anchors : List (ℕ × String)) (flags : ℤ) (w : World) :
    (importDocument parse srv jsonString bundleName anchors flags w).2 = w := by
  unfold importDocument
  rw [bind_run]
  cases hp : parse jsonString with
  | none => rfl
  | some d =>
    have hd := h d hp
    simp only [orThrow, pure_run]
    split
    · rfl
    · next hc =>
      rw [not_or] at hc
      have ho : ¬ d.isObject := by
        rcases hd with hd | hd | hd
        · exact absurd hd hc.1
        · exact absurd hd hc.2
        · exact hd
      rw [if_pos ho]
      rfl

theorem createObject_firstCallLost {srv : Server} {w : World} (h : FirstCallLost srv w)
    (p n : Option String) (t : ℤ) : (srv.createObject p n t w).2.store = w.store ∧
      ¬ (srv.createObject p n t w).1.1.IsOk := by
  unfold Server.createObject Server.ensureInitialized
  rcases h with h | ⟨hl, hf⟩
  · simp [h, noId]
  · split
    · obtain ⟨f, hf⟩ := Option.isSome_iff_exists.mp hf
      unfold cplCreateObject
      cases p <;> cases n <;> try simp
      split
      · simp [Server.cplOdbcCreateObject, Server.execute, hl, hf, replay, f.failed]
      · simp
    · simp [noId]

theorem importDocument_firstCallLost {srv : Server} {w : World} (h : FirstCallLost srv w)
    (parse : String → Option Json) (jsonString bundleName : String)
    (anchors : List (ℕ × String)) (flags : ℤ) :
    (importDocument parse srv jsonString bundleName anchors flags w).2.store = w.store := by
  unfold importDocument
  rw [bind_run]
  cases hp : parse jsonString with
  | none => rfl
  | some d =>
    simp only [orThrow, pure_run]
    split
    · rfl
    · split
      · rfl
      · have hc := createObject_firstCallLost h (some (QualifiedName.cStr bundleName)) (some "")
          cplBundle
        simp only [gotoError, mapExit, importContents, requireId, bind_run, call, if_neg hc.2,
          leave]
        exact hc.1

/-- A text and its parse, for a document whose section `used` is not an object. -/
def malformedText : String := "\x7b\"used\": 1\x7d"

def malformedParse (text : String) : Option Json :=
  if text = malformedText then some (.object [("used", .unsigned 1)]) else none

/-- There is no rollback: here the bundle object stays behind. -/
theorem failedImport_leaves_bundle :
    let out := importDocumentJson malformedParse .ideal malformedText "b" [] 0 (some 7)
      ⟨Store.fresh, 0⟩
    Store.fresh.Reachable ∧ out.1 = (.ret .internalError, some 7) ∧
      out.2.store.objects = Store.fresh.objects ++ [⟨1, some "b", some "", some cplBundle, 0⟩] :=
  ⟨Store.Reachable.fresh, by decide, by decide⟩

/-- Whatever fails and wherever the import stops, the out parameter and every row are as they
were, and added rows belong to ids that the call has allocated; a document that is refused, or
a first statement that is not executed, leaves no trace at all. -/
theorem failedImport_adds_only_new_rows (parse : String → Option Json) (srv : Server)
    {s : Store} (_ : s.Reachable) (calls : ℕ) (jsonString bundleName : String)
    (anchors : List (ℕ × String)) (flags : ℤ) (outId : Option ℕ) {stop : Stop}
    {outId' : Option ℕ} {w' : World}
    (h : importDocumentJson parse srv jsonString bundleName anchors flags outId ⟨s, calls⟩ =
      ((stop, outId'), w')) (hstop : stop ≠ .ret .ok) :
    outId' = outId ∧ FreshExtension s w'.store ∧
      (Refused parse jsonString ∨ FirstCallLost srv ⟨s, calls⟩ → w'.store = s) := by
  have hm : Keeps (FreshExtension s)
      (importDocument parse srv jsonString bundleName anchors flags) fun _ => True :=
    keeps_importDocument (importClosed_fresh s) parse jsonString bundleName anchors flags
  have hm := hm ⟨s, calls⟩ (FreshExtension.refl s)
  have hr := fun hr : Refused parse jsonString =>
    importDocument_refused hr srv bundleName anchors flags ⟨s, calls⟩
  have hf := fun hf : FirstCallLost srv ⟨s, calls⟩ =>
    importDocument_firstCallLost hf parse jsonString bundleName anchors flags
  unfold importDocumentJson at h
  rcases hrun : importDocument parse srv jsonString bundleName anchors flags ⟨s, calls⟩ with
    ⟨r, t⟩
  rw [hrun] at h hm hr hf
  cases r with
  | ok b =>
    simp only [Prod.mk.injEq] at h
    exact absurd h.1.1.symm hstop
  | error e =>
    simp only [Prod.mk.injEq] at h
    obtain ⟨⟨-, rfl⟩, rfl⟩ := h
    refine ⟨rfl, hm, ?_⟩
    rintro (hc | hc)
    · exact congrArg World.store (hr hc)
    · exact hf hc

theorem failedImport_adds_only_new_rows_malformed :
    let out := importDocumentJson malformedParse .ideal malformedText "b" [] 0 (some 7)
      ⟨Store.fresh, 0⟩
    FreshExtension Store.fresh out.2.store :=
  (failedImport_adds_only_new_rows malformedParse .ideal Store.Reachable.fresh 0 malformedText "b"
    [] 0 (some 7) rfl (by decide)).2.1

end ImportFrame
