import ProvCpl.ImportFrame
import ProvCpl.ValidateDocument

/-! # Which documents the importer accepts

With every backend call succeeding, the import of a document goes through when its sections
have the shape that the importer checks and the endpoints of its records are declared. The
validator checks less: it accepts a record without a destination and a relation section that
is not an object. -/
namespace ImportAccepts

open CplTypes QualifiedName JsonValue ProvStore ProvServer ServerSpecs ImportDocument
open ImportFrame ValidateDocument VertexNumbering EarlyExit

def objectSections : List (ℤ × String) :=
  [(cplEntity, cplEntityStr), (cplAgent, cplAgentStr), (cplActivity, cplActivityStr)]

def declaredNames (document : Json) : List String :=
  objectSections.flatMap fun t => (document.membersAt t.2).map Prod.fst

/-- Prefixes are strings; objects are objects with scalar members. -/
structure DeclaresObjects (document : Json) : Prop where
  prefixSection : (document.find "prefix").all Json.isObject
  prefixes : ∀ e ∈ document.membersAt "prefix", e.2.isString
  sections : ∀ t ∈ objectSections, (document.find t.2).all Json.isObject
  objects : ∀ t ∈ objectSections, ∀ e ∈ document.membersAt t.2,
    e.2.isObject ∧ ∀ p ∈ e.2.members, p.2.IsScalar

instance (document : Json) : Decidable (DeclaresObjects document) :=
  decidable_of_iff ((document.find "prefix").all Json.isObject ∧
      (∀ e ∈ document.membersAt "prefix", e.2.isString) ∧
      (∀ t ∈ objectSections, (document.find t.2).all Json.isObject) ∧
      ∀ t ∈ objectSections, ∀ e ∈ document.membersAt t.2,
        e.2.isObject ∧ ∀ p ∈ e.2.members, p.2.IsScalar)
    ⟨fun h => ⟨h.1, h.2.1, h.2.2.1, h.2.2.2⟩, fun h => ⟨h.1, h.2, h.3, h.4⟩⟩

/-- A value whose members the importer stores as properties: an object with scalar members,
or a null. -/
def HoldsProperties (j : Json) : Prop :=
  ∃ items, j.items = some items ∧ ∀ p ∈ items, p.2.IsScalar

theorem holdsProperties_of_isObject {j : Json} (ho : j.isObject)
    (hs : ∀ p ∈ j.members, p.2.IsScalar) : HoldsProperties j := by
  obtain ⟨m, rfl⟩ := isObject_iff.mp ho
  exact ⟨m, rfl, hs⟩

structure AcceptsObjects (document : Json) : Prop where
  prefixSection : (document.find "prefix").all Json.isObject
  prefixes : ∀ e ∈ document.membersAt "prefix", e.2.isString
  sections : ∀ t ∈ objectSections, (document.find t.2).all Json.isObject
  objects : ∀ t ∈ objectSections, ∀ e ∈ document.membersAt t.2, HoldsProperties e.2

theorem DeclaresObjects.accepts {document : Json} (h : DeclaresObjects document) :
    AcceptsObjects document where
  prefixSection := h.prefixSection
  prefixes := h.prefixes
  sections := h.sections
  objects := fun t ht e he =>
    holdsProperties_of_isObject (h.objects t ht e he).1 (h.objects t ht e he).2

/-- Both ends of every record name declared objects; its members are scalar. -/
structure RelatesDeclared (document : Json) : Prop where
  sections : ∀ d ∈ relationSections, (document.find d.typeStr).all Json.isObject
  endpoints : ∀ d ∈ relationSections, ∀ e ∈ records document d, ∀ key,
    key = d.sourceStr ∨ key = d.destStr →
      ∃ n, e.2.find key = some (.string n) ∧ n ∈ declaredNames document
  scalar : ∀ d ∈ relationSections, ∀ e ∈ records document d, ∀ p ∈ e.2.members, p.2.IsScalar

def Succeeds {α : Type} (I : Store → Prop) (m : Api α) (R : α → Prop) : Prop :=
  Maintains (fun w => I w.store) m R fun _ _ => False

theorem keeps_of_succeeds {α : Type} {I : Store → Prop} {m : Api α} {R : α → Prop}
    (h : Succeeds I m R) : Keeps I m R :=
  triple_conseq h (fun _ hw => hw) (fun _ _ hw => hw) fun _ _ hw => hw.elim

structure HasBundle (b : ℕ) (s : Store) : Prop where
  reachable : s.Reachable
  stored : b ∈ s.objects.map (·.id)
  nonzero : b ≠ 0

structure Covers (names : List String) (tbl : LookupTable) : Prop where
  found : ∀ n ∈ names, (OrderedMap.find n tbl).isSome
  nonzero : ∀ n id, OrderedMap.find n tbl = some id → id ≠ 0

theorem covers_nil : Covers [] [] := ⟨by simp, by simp⟩

theorem Covers.emplace {names : List String} {tbl : LookupTable} (h : Covers names tbl)
    {id : ℕ} (hid : id ≠ 0) (name : String) :
    Covers (names ++ [name]) (OrderedMap.emplace name id tbl) := by
  refine ⟨fun n hn => ?_, fun n i hi => ?_⟩
  · rw [OrderedMap.find_emplace]
    split
    · rfl
    · next hne =>
      rcases List.mem_append.mp hn with hn | hn
      · exact h.found n hn
      · exact absurd (List.mem_singleton.mp hn) hne
  · rw [OrderedMap.find_emplace] at hi
    split at hi
    · cases ht : OrderedMap.find name tbl with
      | none => simp only [ht, Option.getD_none, Option.some.injEq] at hi; exact hi ▸ hid
      | some j =>
        simp only [ht, Option.getD_some, Option.some.injEq] at hi
        exact hi ▸ h.nonzero name j ht
    · exact h.nonzero n i hi

theorem importClosed_hasBundle (b : ℕ) : ImportClosed (HasBundle b) 1 1 where
  next := fun _ h => ⟨h.reachable.valid.next_object, h.reachable.valid.next_relation⟩
  object := fun s p n t now ht h => ⟨.createObject p n t now ht h.reachable,
    by simpa [Store.insertObject] using Or.inl h.stored, h.nonzero⟩
  relation := fun s f o t hf ho ht h => ⟨.addRelation f o t hf ho ht h.reachable, h.stored,
    h.nonzero⟩
  objectProperty := fun s s' r _ h0 _ he h => ⟨.addObjectProperty r h0 h.reachable he,
    by rw [(insertObjectProperty_eq he).2]; exact h.stored, h.nonzero⟩
  relationProperty := fun s s' r _ h0 _ he h => ⟨.addRelationProperty r h0 h.reachable he,
    by rw [(insertRelationProperty_eq he).2]; exact h.stored, h.nonzero⟩
  prefixRow := fun s s' r _ h0 he h => ⟨.addPrefix r h0 h.reachable he,
    by rw [(insertPrefix_eq he).2]; exact h.stored, h.nonzero⟩

section Steps

variable {srv : Server} {I : Store → Prop} {lo lr : ℕ}

theorem succeeds_requireId {c : Call World (ReturnCode × Option ℕ)} {R : ℕ → Prop}
    (h : ∀ w, I w.store → ∃ r id w', c w = ((r, some id), w') ∧ r.IsOk ∧ R id ∧ I w'.store) :
    Succeeds I (requireId c) R := by
  intro w hw
  obtain ⟨r, id, w', hc, hr, hid, hI⟩ := h w hw
  simp only [requireId, bind_run, call, hc, if_pos hr, pure_run]
  exact ⟨hI, hid⟩

theorem succeeds_requireOk {c : Call World ReturnCode}
    (h : ∀ w, I w.store → (c w).1.IsOk ∧ I (c w).2.store) :
    Succeeds I (requireOk c) fun _ => True := by
  intro w hw
  obtain ⟨hr, hI⟩ := h w hw
  simp only [requireOk, bind_run, call, if_pos hr, pure_run]
  exact ⟨hI, trivial⟩

theorem succeeds_callUnchecked {c : Call World ReturnCode}
    (hc : ∀ w, I w.store → I (c w).2.store) : Succeeds I (callUnchecked c) fun _ => True :=
  maintains_bind (R := fun _ => True) (maintains_call fun w hw => ⟨hc w hw, trivial⟩)
    fun _ _ => maintains_pure trivial

theorem succeeds_importProperty {out : PropertyWriter} {id : ℕ} (h : WriterKeeps I out id)
    {e : String × Json} (he : e.2.IsScalar) :
    Succeeds I (importProperty out id e) fun _ => True := by
  obtain ⟨key, v⟩ := e
  unfold importProperty
  dsimp only
  cases v with
  | string s => exact succeeds_callUnchecked (h.addString _ _ _)
  | integer n => exact succeeds_callUnchecked (h.addNumerical _ _ _ (FloatText.fits_ofInt n))
  | unsigned n => exact succeeds_callUnchecked (h.addNumerical _ _ _ (FloatText.fits_ofInt n))
  | float x => exact succeeds_callUnchecked (h.addNumerical _ _ _ (FloatText.fits_cast x))
  | boolean b => exact succeeds_callUnchecked (h.addBoolean _ _ _)
  | null => exact he.elim
  | array l => exact he.elim
  | object m => exact he.elim

theorem succeeds_importProperties {out : PropertyWriter} {id : ℕ} (h : WriterKeeps I out id)
    {properties : Json} (hp : HoldsProperties properties) :
    Succeeds I (importProperties out id properties) fun _ => True := by
  obtain ⟨m, hm, hs⟩ := hp
  unfold importProperties
  rw [hm]
  refine maintains_bind (R := fun l => l = m) (maintains_pure rfl) ?_
  rintro _ rfl
  exact maintains_forEach fun e he => succeeds_importProperty h (hs e he)

theorem succeeds_importEndpoint {I : Store → Prop} {names : List String} {tbl : LookupTable}
    (htbl : Covers names tbl) {record : Json} {key : String}
    (h : ∃ n, record.find key = some (.string n) ∧ n ∈ names) (type : ℤ) :
    Succeeds I (importEndpoint srv tbl false record key type) fun id => id ≠ 0 := by
  obtain ⟨n, hn, hmem⟩ := h
  obtain ⟨id, hid⟩ := Option.isSome_iff_exists.mp (htbl.found n hmem)
  unfold importEndpoint
  simp only [hn, Json.getString, orThrow]
  refine maintains_bind (R := fun m => m = n) (maintains_pure rfl) fun m hm => ?_
  rw [hm, hid]
  exact maintains_pure (htbl.nonzero n id hid)

variable (hsrv : Reliable srv) (hI : ImportClosed I lo lr)

include hsrv hI

theorem succeeds_createObject (p n : String) {t : ℤ} (ht : EnsureOType t) :
    Succeeds I (requireId (srv.createObject (some p) (some n) t)) fun id => lo ≤ id :=
  succeeds_requireId fun w hw => ⟨_, _, _, createObject_reliable hsrv p n ht w, by simp,
    (hI.next _ hw).1, hI.object _ p n t _ ht hw⟩

theorem succeeds_addRelation {f o : ℕ} {t : ℤ} (hf : f ≠ 0) (ho : o ≠ 0) (ht : EnsureRType t) :
    Succeeds I (requireId (srv.addRelation f o t)) fun id => lr ≤ id :=
  succeeds_requireId fun w hw => ⟨_, _, _, addRelation_reliable hsrv hf ho ht w, by simp,
    (hI.next _ hw).2, hI.relation _ f o t hf ho ht hw⟩

theorem succeeds_addMembership {b r : ℕ} (hb : b ≠ 0) (hr : r ≠ 0) :
    Succeeds I (requireOk (codeOnly (srv.addRelation b r bundleRelation))) fun _ => True := by
  have ht : EnsureRType bundleRelation := by decide
  refine succeeds_requireOk fun w hw => ?_
  rw [codeOnly, addRelation_reliable hsrv hb hr ht w]
  exact ⟨by simp, hI.relation _ b r _ hb hr ht hw⟩

end Steps

section Importer

variable {srv : Server} {b : ℕ} {document : Json} (hsrv : Reliable srv)

include hsrv

theorem succeeds_importBundlePrefixesJson (hd : AcceptsObjects document) :
    Succeeds (HasBundle b) (importBundlePrefixesJson srv b document) fun _ => True := by
  rw [importBundlePrefixesJson_eq, if_pos hd.prefixSection]
  refine maintains_forEach fun e he => ?_
  obtain ⟨iri, hiri⟩ := isString_iff.mp (hd.prefixes e he)
  unfold importBundlePrefix
  rw [hiri, if_pos (by trivial)]
  refine maintains_bind (R := fun _ => True) (maintains_pure trivial) fun i _ => ?_
  refine succeeds_requireOk fun w hw => ?_
  have hk : HasBundle b (srv.addPrefix b (some (cStr e.1)) (some (cStr i)) w).2.store :=
    addPrefix_keeps (fun s s' p i h0 he hs => (importClosed_hasBundle b).prefixRow s s' _
      (Nat.one_le_iff_ne_zero.mpr h0) h0 he hs) hw
  refine ⟨?_, hk⟩
  rw [addPrefix_reliable hsrv hw.nonzero hw.stored]
  simp

theorem succeeds_importObject {type : ℤ} (ht : EnsureOType type) {names : List String}
    {tbl : LookupTable} (htbl : Covers names tbl) {e : String × Json}
    (hp : HoldsProperties e.2) :
    Succeeds (HasBundle b) (importObject srv type tbl e) (Covers (names ++ [e.1])) := by
  refine maintains_bind
    (succeeds_createObject hsrv (importClosed_hasBundle b) _ _ ht) fun id hid => ?_
  refine maintains_bind
    (succeeds_importProperties ((importClosed_hasBundle b).objects.objectWriter hid) hp)
    fun _ _ => ?_
  exact maintains_pure (htbl.emplace (Nat.one_le_iff_ne_zero.mp hid) e.1)

theorem succeeds_importObjectsJson {t : ℤ × String} (hm : t ∈ objectSections)
    (hd : AcceptsObjects document) {names : List String} {tbl : LookupTable}
    (htbl : Covers names tbl) :
    Succeeds (HasBundle b) (importObjectsJson srv t.1 t.2 tbl document)
      (Covers (names ++ (document.membersAt t.2).map Prod.fst)) := by
  have ht : ∀ t ∈ objectSections, EnsureOType t.1 := by decide
  rw [importObjectsJson_eq, if_pos (hd.sections t hm)]
  refine maintains_fold (T := fun done tbl => Covers (names ++ done.map Prod.fst) tbl)
    (by simpa using htbl) fun done e tbl he htbl => ?_
  refine maintains_weaken
    (succeeds_importObject hsrv (ht t hm) htbl (hd.objects t hm e he)) fun tbl h => ?_
  simpa using h

theorem succeeds_importRelation {tbl : LookupTable} (htbl : Covers (declaredNames document) tbl)
    (hr : RelatesDeclared document) {d : ProvRelationData} (hd : d ∈ relationSections)
    {e : String × Json} (he : e ∈ records document d) (hb : b ≠ 0) :
    Succeeds (HasBundle b) (importRelation srv b tbl false d e) fun _ => True := by
  have hclosed := importClosed_hasBundle b
  have hprops : HoldsProperties e.2 := by
    apply holdsProperties_of_isObject _ (hr.scalar d hd e he)
    obtain ⟨n, hn, -⟩ := hr.endpoints d hd e he d.sourceStr (Or.inl rfl)
    rw [isObject_of_find hn]
    rfl
  refine maintains_bind (succeeds_importEndpoint htbl
    (hr.endpoints d hd e he d.sourceStr (Or.inl rfl)) _) fun source hs => ?_
  refine maintains_bind (succeeds_importEndpoint htbl
    (hr.endpoints d hd e he d.destStr (Or.inr rfl)) _) fun dest ho => ?_
  refine maintains_bind (succeeds_addRelation hsrv hclosed hs ho
    (relationSections_ensureRType d hd).1) fun id hid => ?_
  refine maintains_bind
    (succeeds_addMembership hsrv hclosed hb (Nat.one_le_iff_ne_zero.mp hid)) fun _ _ => ?_
  exact maintains_ite
    (fun _ => succeeds_importProperties (hclosed.relationWriter hid) hprops)
    fun _ => maintains_pure trivial

theorem succeeds_importRelationsJson {tbl : LookupTable}
    (htbl : Covers (declaredNames document) tbl) (hr : RelatesDeclared document) (hb : b ≠ 0) :
    Succeeds (HasBundle b) (importRelationsJson srv b tbl document false) fun _ => True := by
  refine maintains_forEach fun d hd => ?_
  rw [importRelationSection_eq, if_pos (hr.sections d hd)]
  exact maintains_forEach fun e he => succeeds_importRelation hsrv htbl hr hd he hb

theorem succeeds_importContents {s : Store} (hs : s.Reachable) (hd : AcceptsObjects document)
    (hr : RelatesDeclared document) (bundleName : String) (calls : ℕ) :
    ∃ b w', importContents srv document bundleName [] false ⟨s, calls⟩ = (.ok b, w') := by
  have ht : EnsureOType cplBundle := by decide
  have hb : s.nextObject ≠ 0 := Nat.pos_iff_ne_zero.mp hs.valid.next_object
  have hrest : Succeeds (HasBundle s.nextObject) (do
      importBundlePrefixesJson srv s.nextObject document
      let tbl1 ← importObjectsJson srv cplEntity cplEntityStr [] document
      let tbl2 ← importObjectsJson srv cplAgent cplAgentStr tbl1 document
      let tbl3 ← importObjectsJson srv cplActivity cplActivityStr tbl2 document
      forEach (connectAnchor srv s.nextObject) []
      importRelationsJson srv s.nextObject tbl3 document false
      pure s.nextObject) fun _ => True := by
    refine maintains_bind (succeeds_importBundlePrefixesJson hsrv hd) fun _ _ => ?_
    refine maintains_bind (succeeds_importObjectsJson hsrv (t := (cplEntity, cplEntityStr))
      (by decide) hd covers_nil) fun tbl1 h1 => ?_
    refine maintains_bind (succeeds_importObjectsJson hsrv (t := (cplAgent, cplAgentStr))
      (by decide) hd h1) fun tbl2 h2 => ?_
    refine maintains_bind (succeeds_importObjectsJson hsrv (t := (cplActivity, cplActivityStr))
      (by decide) hd h2) fun tbl3 h3 => ?_
    refine maintains_bind (R := fun _ => True) (maintains_forEach (by simp)) fun _ _ => ?_
    have h3' : Covers (declaredNames document) tbl3 := by
      simpa [declaredNames, objectSections] using h3
    refine maintains_bind (succeeds_importRelationsJson hsrv h3' hr hb) fun _ _ => ?_
    exact maintains_pure trivial
  have hstart : HasBundle s.nextObject
      (s.insertObject (cStr bundleName) "" cplBundle (srv.clock calls)) :=
    ⟨.createObject _ _ _ _ ht hs, by simp [Store.insertObject], hb⟩
  unfold importContents
  rw [bind_run]
  simp only [requireId, bind_run, call, createObject_reliable hsrv _ _ ht, isOk_objectCreated,
    if_true, pure_run]
  obtain ⟨b, w', hrun, -⟩ := triple_returns hrest (s := ⟨_, calls + 1⟩) hstart
  exact ⟨b, w', hrun⟩

theorem importDocument_accepts {parse : String → Option Json} {jsonString : String}
    {members : List (String × Json)} (hp : parse jsonString = some (.object members))
    (hne : members ≠ []) (hd : AcceptsObjects (.object members))
    (hr : RelatesDeclared (.object members)) {s : Store} (hs : s.Reachable)
    (bundleName : String) (calls : ℕ) :
    ∃ b w', importDocument parse srv jsonString bundleName [] 0 ⟨s, calls⟩ = (.ok b, w') := by
  obtain ⟨b, w', h⟩ := succeeds_importContents hsrv hs hd hr bundleName calls
  refine ⟨b, w', ?_⟩
  rw [importDocument_object hp hne]
  simp only [gotoError, mapExit, ne_eq, not_true_eq_false, false_and, decide_false, h]

end Importer

/-- Endpoint strings name declared objects; the other members of a record are scalar. -/
structure DeclaredEndpoints (document : Json) : Prop where
  declared : ∀ d ∈ relationSections, ∀ e ∈ records document d, ∀ key ∈ [d.sourceStr, d.destStr],
    ∀ n ∈ (e.2.find key).bind Json.getString, n ∈ declaredNames document
  others : ∀ d ∈ relationSections, ∀ e ∈ records document d, ∀ p ∈ e.2.members,
    p.1 ≠ d.sourceStr → p.1 ≠ d.destStr → p.2.IsScalar

instance (document : Json) : Decidable (DeclaredEndpoints document) :=
  decidable_of_iff ((∀ d ∈ relationSections, ∀ e ∈ records document d,
      ∀ key ∈ [d.sourceStr, d.destStr], ∀ n ∈ (e.2.find key).bind Json.getString,
        n ∈ declaredNames document) ∧
      ∀ d ∈ relationSections, ∀ e ∈ records document d, ∀ p ∈ e.2.members,
        p.1 ≠ d.sourceStr → p.1 ≠ d.destStr → p.2.IsScalar)
    ⟨fun h => ⟨h.1, h.2⟩, fun h => ⟨h.1, h.2⟩⟩

/-- What the importer asks for beyond what the validator checks. -/
structure HasDestinations (document : Json) : Prop where
  sections : ∀ d ∈ relationSections, (document.find d.typeStr).all Json.isObject
  dests : ∀ d ∈ relationSections, ∀ e ∈ records document d, (e.2.find d.destStr).isSome

instance (document : Json) : Decidable (HasDestinations document) :=
  decidable_of_iff ((∀ d ∈ relationSections, (document.find d.typeStr).all Json.isObject) ∧
      ∀ d ∈ relationSections, ∀ e ∈ records document d, (e.2.find d.destStr).isSome)
    ⟨fun h => ⟨h.1, h.2⟩, fun h => ⟨h.1, h.2⟩⟩

theorem relatesDeclared_of_checked {document : Json} (hwf : document.WellFormed)
    (hdecl : DeclaredEndpoints document) (hdest : HasDestinations document)
    (hc : ∀ d ∈ relationSections, ∀ v, document.find d.typeStr = some v → ∀ x ∈ v.values,
      Checked d x) : RelatesDeclared document := by
  have ends : ∀ d ∈ relationSections, ∀ e ∈ records document d,
      (∃ a, e.2.find d.sourceStr = some (.string a)) ∧
        ∃ b, e.2.find d.destStr = some (.string b) := by
    intro d hd e he
    have hobj := hdest.sections d hd
    obtain ⟨y, hy⟩ := Option.isSome_iff_exists.mp (hdest.dests d hd e he)
    unfold records Json.membersAt at he
    cases hv : document.find d.typeStr with
    | none => simp [hv] at he
    | some v =>
      rw [hv] at he hobj
      simp only [Option.map_some, Option.getD_some] at he
      have hx : e.2 ∈ v.values := by
        rw [values_of_isObject (by simpa using hobj)]
        exact List.mem_map.mpr ⟨e, he, rfl⟩
      obtain ⟨x, hsrc, hstr⟩ := hc d hd v hv e.2 hx
      obtain ⟨⟨a, rfl⟩, b, rfl⟩ := hstr y hy
      exact ⟨⟨a, hsrc⟩, b, hy⟩
  refine ⟨hdest.sections, ?_, ?_⟩
  · intro d hd e he key hkey
    obtain ⟨⟨a, ha⟩, b, hb⟩ := ends d hd e he
    rcases hkey with rfl | rfl
    · exact ⟨a, ha, hdecl.declared d hd e he d.sourceStr (by simp) a (by simp [ha, Json.getString])⟩
    · exact ⟨b, hb, hdecl.declared d hd e he d.destStr (by simp) b (by simp [hb, Json.getString])⟩
  · intro d hd e he p hp
    obtain ⟨⟨a, ha⟩, b, hb⟩ := ends d hd e he
    have hkeys := (hwf.membersAt d.typeStr e he).members.1.nodup_keys
    have hfind : e.2.find p.1 = some p.2 := by
      rw [find_eq_members]
      exact OrderedMap.find_of_mem hkeys hp
    by_cases hs : p.1 = d.sourceStr
    · rw [hs, ha] at hfind
      rw [← Option.some.inj hfind]
      trivial
    · by_cases ht : p.1 = d.destStr
      · rw [ht, hb] at hfind
        rw [← Option.some.inj hfind]
        trivial
      · exact hdecl.others d hd e he p hp hs ht

/-- A text and its parse: a record of `used` without a destination. -/
def openEndedText : String :=
  "\x7b\"activity\": \x7b\"a\": \x7b\x7d\x7d, " ++
  "\"used\": \x7b\"u\": \x7b\"prov:activity\": \"a\"\x7d\x7d\x7d"

def openEndedMembers : List (String × Json) := [
  ("activity", .object [("a", .object [])]),
  ("used", .object [("u", .object [("prov:activity", .string "a")])])]

def openEndedParse (text : String) : Option Json :=
  if text = openEndedText then some (.object openEndedMembers) else none

theorem openEnded_wellFormed : (Json.object openEndedMembers).WellFormed := by
  have record : (Json.object [("prov:activity", .string "a")]).WellFormed :=
    .object (List.pairwise_singleton _ _) (by simpa using .scalar trivial)
  have used : (Json.object [("u", .object [("prov:activity", .string "a")])]).WellFormed :=
    .object (List.pairwise_singleton _ _) (by simpa using record)
  have empty : (Json.object []).WellFormed := .object List.Pairwise.nil (by simp)
  have activity : (Json.object [("a", .object [])]).WellFormed :=
    .object (List.pairwise_singleton _ _) (by simpa using empty)
  refine .object ?_ ?_
  · unfold OrderedMap.Sorted
    decide
  · simpa [openEndedMembers] using ⟨activity, used⟩

/-- The validator accepts the record without a destination, the importer does not. -/
theorem openEnded_valid_not_imported :
    DeclaresObjects (.object openEndedMembers) ∧
      DeclaredEndpoints (.object openEndedMembers) ∧
      (Json.object openEndedMembers).WellFormed ∧
      (validateJson openEndedParse throwsOnCycle openEndedText "").1 = .ret .ok ∧
      (importDocumentJson openEndedParse .ideal openEndedText "b" [] 0 none
        ⟨Store.fresh, 0⟩).1.1 = .ret .internalError := by
  refine ⟨by decide, by decide, openEnded_wellFormed, ?_, by decide⟩
  have hp : openEndedParse openEndedText = some (.object openEndedMembers) := if_pos rfl
  rcases validateJson_code throwsOnCycle_sortsAcyclic hp (by decide) (by decide) "" with
    ⟨_, _, h⟩ | ⟨hno, _⟩
  · exact h
  · refine absurd ⟨by decide, not_cyclic_of_no_edge fun a b hab => ?_⟩ hno
    have hnone : documentEdges (.object openEndedMembers) = [] := by decide
    have hmem := mem_documentEdges.mpr hab
    rw [hnone] at hmem
    cases hmem

/-- What the validator accepts is imported, when each relation section is an object and each
record has a destination. -/
theorem validated_document_is_imported {parse : String → Option Json}
    {notADag : List (ℕ × ℕ) → ℕ → Bool} {srv : Server} (hsrv : Reliable srv)
    {jsonString stringOut : String} {members : List (String × Json)}
    (hp : parse jsonString = some (.object members)) (hne : members ≠ [])
    (hwf : (Json.object members).WellFormed) (hobj : DeclaresObjects (.object members))
    (hdecl : DeclaredEndpoints (.object members)) (hdest : HasDestinations (.object members))
    (hval : (validateJson parse notADag jsonString stringOut).1 = .ret .ok)
    {s : Store} (hs : s.Reachable) (calls : ℕ) (bundleName : String) (outId : Option ℕ) :
    (importDocumentJson parse srv jsonString bundleName [] 0 outId ⟨s, calls⟩).1.1 =
      .ret .ok := by
  have hr := relatesDeclared_of_checked hwf hdecl hdest (validateJson_checks hp hne hval)
  obtain ⟨b, w', h⟩ := importDocument_accepts hsrv hp hne hobj.accepts hr hs bundleName calls
  unfold importDocumentJson
  rw [h]

/-- A text and its parse: an activity uses an entity. -/
def usageText : String :=
  "\x7b\"activity\": \x7b\"a\": \x7b\x7d\x7d, \"entity\": \x7b\"e\": \x7b\x7d\x7d, " ++
  "\"used\": \x7b\"u\": \x7b\"prov:activity\": \"a\", \"prov:entity\": \"e\"\x7d\x7d\x7d"

def usageMembers : List (String × Json) := [
  ("activity", .object [("a", .object [])]),
  ("entity", .object [("e", .object [])]),
  ("used", .object [("u", .object [("prov:activity", .string "a"),
    ("prov:entity", .string "e")])])]

def usageParse (text : String) : Option Json :=
  if text = usageText then some (.object usageMembers) else none

theorem usage_wellFormed : (Json.object usageMembers).WellFormed := by
  have record : (Json.object [("prov:activity", .string "a"),
      ("prov:entity", .string "e")]).WellFormed :=
    .object (by unfold OrderedMap.Sorted; decide)
      (by simpa using ⟨.scalar trivial, .scalar trivial⟩)
  have used : (Json.object [("u", .object [("prov:activity", .string "a"),
      ("prov:entity", .string "e")])]).WellFormed :=
    .object (List.pairwise_singleton _ _) (by simpa using record)
  have empty : (Json.object []).WellFormed := .object List.Pairwise.nil (by simp)
  have declares : ∀ n, (Json.object [(n, .object [])]).WellFormed := fun n =>
    .object (List.pairwise_singleton _ _) (by simpa using empty)
  refine .object (by unfold OrderedMap.Sorted; decide) ?_
  simpa [usageMembers] using ⟨declares "a", declares "e", used⟩

theorem validated_document_is_imported_usage :
    (importDocumentJson usageParse .ideal usageText "b" [] 0 (some 0)
      ⟨Store.fresh, 0⟩).1.1 = .ret .ok := by
  have hval : (validateJson usageParse (fun _ _ => false) usageText "").1 = .ret .ok := by decide
  exact validated_document_is_imported Server.ideal_reliable (if_pos rfl) (by decide)
    usage_wellFormed (by decide) (by decide) (by decide) hval Store.Reachable.fresh 0 "b" (some 0)

end ImportAccepts
