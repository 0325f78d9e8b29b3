import ProvCpl.ImportAccepts

/-! # The graph that an import stores

The table maps the declared names to ids of the rows that were inserted for them. Each record
inserts two rows: the relation between the ids of its ends and, under the next id, the
membership of that relation in the bundle. -/
namespace ImportGraph

open CplTypes QualifiedName JsonValue ProvStore ProvServer ServerSpecs ImportDocument
open ImportFrame ValidateDocument ImportAccepts EarlyExit

structure Record where
  entry : ProvRelationData
  source : String
  dest : String

def endpointName (record : Json) (key : String) : String :=
  ((record.find key).bind Json.getString).getD ""

theorem endpointName_of_string {record : Json} {key n : String}
    (h : record.find key = some (.string n)) : endpointName record key = n := by
  rw [endpointName, h]
  rfl

def recordOf (d : ProvRelationData) (e : String × Json) : Record :=
  ⟨d, endpointName e.2 d.sourceStr, endpointName e.2 d.destStr⟩

def recordsOf (document : Json) : List Record :=
  relationSections.flatMap fun d => (records document d).map (recordOf d)

def declared (document : Json) : List (ℤ × String) :=
  objectSections.flatMap fun t => (document.membersAt t.2).map fun e => (t.1, e.1)

theorem declared_names (document : Json) :
    (declared document).map Prod.snd = declaredNames document := by
  simp [declared, declaredNames, List.map_flatMap, Function.comp_def]

/-- The relation and its membership in the bundle, numbered from `n`. -/
def pairAt (tbl : LookupTable) (b n : ℕ) (r : Record) : RelationRow × RelationRow :=
  (⟨n, OrderedMap.find r.source tbl, OrderedMap.find r.dest tbl, some r.entry.type⟩,
    ⟨n + 1, some b, some n, some bundleRelation⟩)

def pairsFrom (tbl : LookupTable) (b : ℕ) : ℕ → List Record → List (RelationRow × RelationRow)
  | _, [] => []
  | n, r :: rs => pairAt tbl b n r :: pairsFrom tbl b (n + 2) rs

def pairRows (pairs : List (RelationRow × RelationRow)) : List RelationRow :=
  pairs.flatMap fun p => [p.1, p.2]

theorem pairsFrom_concat (tbl : LookupTable) (b n : ℕ) (rs : List Record) (r : Record) :
    pairsFrom tbl b n (rs ++ [r]) =
      pairsFrom tbl b n rs ++ [pairAt tbl b (n + 2 * rs.length) r] := by
  induction rs generalizing n with
  | nil => rfl
  | cons q rs ih =>
    have hn : n + 2 + 2 * rs.length = n + 2 * (rs.length + 1) := by omega
    simp only [List.cons_append, pairsFrom, ih, List.length_cons, hn]

structure NamedRow (d : ℤ × String) (r : ObjectRow) : Prop where
  nsPrefix : r.nsPrefix = some (cStr (nameToTokens d.2).1)
  name : r.name = some (cStr (nameToTokens d.2).2)
  type : r.type = some d.1

/-- What the store holds of the graph, over the store before the import. -/
structure Graph (base : Store) (b : ℕ) (decl : List (ℤ × String)) (tbl : LookupTable)
    (recs : List Record) (t : Store) : Prop where
  named : ∀ d ∈ decl, ∃ r ∈ t.objects, OrderedMap.find d.2 tbl = some r.id ∧ NamedRow d r
  only : ∀ n id, OrderedMap.find n tbl = some id →
    n ∈ decl.map Prod.snd ∧ base.nextObject ≤ id
  relations : t.relations = base.relations ++ pairRows (pairsFrom tbl b base.nextRelation recs)
  nextRelation : t.nextRelation = base.nextRelation + 2 * recs.length
  nextObject : base.nextObject ≤ t.nextObject

variable {base t t' : Store} {b : ℕ} {decl : List (ℤ × String)} {tbl : LookupTable}
  {recs : List Record}

theorem Graph.of_same (h : Graph base b decl tbl recs t) (ho : t'.objects = t.objects)
    (hr : t'.relations = t.relations) (hn : t'.nextRelation = t.nextRelation)
    (hm : t'.nextObject = t.nextObject) : Graph base b decl tbl recs t' where
  named := by rw [ho]; exact h.named
  only := h.only
  relations := hr.trans h.relations
  nextRelation := hn.trans h.nextRelation
  nextObject := by rw [hm]; exact h.nextObject

theorem Graph.insertObjectProperty (h : Graph base b decl tbl recs t) {r : PropertyRow}
    (ht : t.insertObjectProperty r = some t') : Graph base b decl tbl recs t' := by
  obtain ⟨-, rfl⟩ := insertObjectProperty_eq ht
  exact h.of_same rfl rfl rfl rfl

theorem Graph.insertRelationProperty (h : Graph base b decl tbl recs t) {r : PropertyRow}
    (ht : t.insertRelationProperty r = some t') : Graph base b decl tbl recs t' := by
  obtain ⟨-, rfl⟩ := insertRelationProperty_eq ht
  exact h.of_same rfl rfl rfl rfl

theorem Graph.insertPrefix (h : Graph base b decl tbl recs t) {r : PrefixRow}
    (ht : t.insertPrefix r = some t') : Graph base b decl tbl recs t' := by
  obtain ⟨-, rfl⟩ := insertPrefix_eq ht
  exact h.of_same rfl rfl rfl rfl

theorem Graph.insertObject (h : Graph base b decl tbl recs t) (p n : String) (ty : ℤ)
    (now : ℕ) : Graph base b decl tbl recs (t.insertObject p n ty now) where
  named := fun d hd => by
    obtain ⟨r, hr, hrest⟩ := h.named d hd
    exact ⟨r, List.mem_append_left _ hr, hrest⟩
  only := h.only
  relations := h.relations
  nextRelation := h.nextRelation
  nextObject := Nat.le_succ_of_le h.nextObject

theorem Graph.emplace (h : Graph base b decl tbl [] t) {d : ℤ × String}
    (hd : d.2 ∉ decl.map Prod.snd) {r : ObjectRow} (hr : r ∈ t.objects) (hrow : NamedRow d r)
    (hid : base.nextObject ≤ r.id) :
    Graph base b (decl ++ [d]) (OrderedMap.emplace d.2 r.id tbl) [] t where
  named := by
    have hnone : OrderedMap.find d.2 tbl = none := by
      cases hf : OrderedMap.find d.2 tbl with
      | none => rfl
      | some id => exact absurd (h.only _ _ hf).1 hd
    intro x hx
    rw [OrderedMap.find_emplace]
    rcases List.mem_append.mp hx with hx | hx
    · obtain ⟨q, hq, hf, hn⟩ := h.named x hx
      have hne : x.2 ≠ d.2 := fun he => hd (he ▸ List.mem_map_of_mem hx)
      exact ⟨q, hq, by rwa [if_neg hne], hn⟩
    · rw [List.mem_singleton.mp hx]
      exact ⟨r, hr, by simp [hnone], hrow⟩
  only := by
    intro n id hf
    rw [OrderedMap.find_emplace] at hf
    rw [List.map_append, List.mem_append]
    split at hf
    · next hn =>
      cases ho : OrderedMap.find d.2 tbl with
      | some i => exact absurd (h.only _ _ ho).1 hd
      | none =>
        rw [ho, Option.getD_none, Option.some.injEq] at hf
        exact ⟨Or.inr (by simp [hn]), hf ▸ hid⟩
    · exact ⟨Or.inl (h.only _ _ hf).1, (h.only _ _ hf).2⟩
  relations := h.relations
  nextRelation := h.nextRelation
  nextObject := h.nextObject

theorem Graph.addPair (h : Graph base b decl tbl recs t) {r : Record} {f o : ℕ}
    (hf : OrderedMap.find r.source tbl = some f) (ho : OrderedMap.find r.dest tbl = some o) :
    Graph base b decl tbl (recs ++ [r])
      ((t.insertRelation f o r.entry.type).insertRelation b t.nextRelation bundleRelation) where
  named := h.named
  only := h.only
  relations := by
    simp only [Store.insertRelation, h.relations, h.nextRelation, pairsFrom_concat, pairRows,
      List.flatMap_append, List.flatMap_singleton, pairAt, hf, ho, List.append_assoc,
      List.singleton_append]
  nextRelation := by
    simp only [Store.insertRelation, h.nextRelation, List.length_append, List.length_singleton]
    omega
  nextObject := h.nextObject

/-- From `P`, a returned value and the store reached satisfy `Q`. -/
def Ensures {α : Type} (P : Store → Prop) (m : Api α) (Q : α → Store → Prop) : Prop :=
  Triple (fun w => P w.store) m (fun a w => Q a w.store) fun _ _ => True

section Steps

variable {P : Store → Prop} {α : Type} {srv : Server}

theorem ensures_pure {a : α} {Q : α → Store → Prop} (h : ∀ t, P t → Q a t) :
    Ensures P (pure a) Q :=
  triple_pure fun w hw => h w.store hw

theorem ensures_leave {e : Stop} {Q : α → Store → Prop} : Ensures P (leave e) Q :=
  triple_leave fun _ _ => trivial

theorem ensures_bind {β : Type} {m : Api α} {f : α → Api β} {Q : α → Store → Prop}
    {R : β → Store → Prop} (hm : Ensures P m Q) (hf : ∀ a, Ensures (Q a) (f a) R) :
    Ensures P (m >>= f) R :=
  triple_bind hm hf

theorem ensures_forEach {γ : Type} {f : γ → Api Unit} {I : List γ → Store → Prop} {xs : List γ}
    (step : ∀ done x, Ensures (I done) (f x) fun _ => I (done ++ [x])) :
    Ensures (I []) (forEach f xs) fun _ => I xs :=
  triple_forEach (I := fun done (w : World) => I done w.store) fun done x _ => step done x

theorem ensures_ite {c : Prop} [Decidable c] {m n : Api α} {Q : α → Store → Prop}
    (ht : c → Ensures P m Q) (hf : ¬ c → Ensures P n Q) : Ensures P (if c then m else n) Q :=
  triple_ite ht hf

theorem ensures_assume {c : Prop} {m : Api α} {Q : α → Store → Prop} (h : c → Ensures P m Q) :
    Ensures (fun t => c ∧ P t) m Q :=
  fun w hw => h hw.1 w hw.2

theorem ensures_gotoError {m : Api α} {Q : α → Store → Prop} (h : Ensures P m Q) :
    Ensures P (gotoError m) Q :=
  triple_mapExit h fun _ _ _ => trivial

theorem Ensures.of_run {m : Api α} {Q : α → Store → Prop} (h : Ensures P m Q) {w w' : World}
    {a : α} (hw : P w.store) (hrun : m w = (.ok a, w')) : Q a w'.store := by
  have h := h w hw
  rw [hrun] at h
  exact h

theorem ensures_conseq {m : Api α} {P' : Store → Prop} {Q Q' : α → Store → Prop}
    (h : Ensures P' m Q') (hP : ∀ t, P t → P' t) (hQ : ∀ a t, Q' a t → Q a t) :
    Ensures P m Q :=
  triple_conseq h (fun w hw => hP w.store hw) (fun a w hw => hQ a w.store hw) fun _ _ _ => trivial

theorem ensures_frame {m : Api α} {c : Prop} {Q : α → Store → Prop} (h : Ensures P m Q) :
    Ensures (fun t => P t ∧ c) m fun a t => Q a t ∧ c :=
  triple_conseq (triple_frame h) (fun _ hw => hw) (fun _ _ hw => hw) fun _ _ _ => trivial

theorem ensures_of_keeps_value {m : Api α} {R : α → Prop} (h : Keeps P m R) :
    Ensures P m fun a t => P t ∧ R a :=
  triple_conseq h (fun _ hw => hw) (fun _ _ hw => hw) fun _ _ _ => trivial

theorem ensures_of_keeps {m : Api α} {R : α → Prop} (h : Keeps P m R) :
    Ensures P m fun _ => P :=
  ensures_conseq (ensures_of_keeps_value h) (fun _ ht => ht) fun _ _ ht => ht.1

theorem ensures_requireId {c : Call World (ReturnCode × Option ℕ)} {Q : ℕ → Store → Prop}
    (h : ∀ w, P w.store → (c w).1.1.IsOk → ∀ id, (c w).1.2 = some id → Q id (c w).2.store) :
    Ensures P (requireId c) Q := by
  refine triple_bind (Q := fun out w => out.1.IsOk → ∀ id, out.2 = some id → Q id w.store)
    (triple_call h) fun out => triple_ite (fun hok => ?_) fun _ => triple_leave fun _ _ => trivial
  split
  · next id hid => exact triple_pure fun w hw => hw hok id hid
  · exact triple_leave fun _ _ => trivial

theorem ensures_requireOk {c : Call World ReturnCode} {Q : Store → Prop}
    (h : ∀ w, P w.store → (c w).1.IsOk → Q (c w).2.store) :
    Ensures P (requireOk c) fun _ => Q := by
  refine triple_bind (Q := fun r w => r.IsOk → Q w.store) (triple_call h) fun r =>
    triple_ite (fun hok => ?_) fun _ => triple_leave fun _ _ => trivial
  exact triple_pure fun w hw => hw hok

theorem ensures_importEndpoint_value (externObjF : Bool) (record : Json) (key : String)
    (type : ℤ) :
    Ensures P (importEndpoint srv tbl externObjF record key type) fun id t => P t ∧
      ∃ n, record.find key = some (.string n) ∧ (OrderedMap.find n tbl = some id ∨
        OrderedMap.find n tbl = none ∧ externObjF = true ∧ ∃ calls,
          (srv.lookupObject (some (cStr (nameToTokens n).1)) (some (cStr (nameToTokens n).2))
            type ⟨t, calls⟩).1.2 = some id) := by
  unfold importEndpoint
  cases hv : record.find key with
  | none => exact ensures_leave
  | some v =>
    refine ensures_bind (Q := fun n t => v.getString = some n ∧ P t) ?_ fun n =>
      ensures_assume fun hn => ?_
    · cases hs : v.getString with
      | none => exact ensures_leave
      | some n => exact ensures_pure fun t ht => ⟨rfl, ht⟩
    · obtain rfl := getString_eq_some hn
      cases hf : OrderedMap.find n tbl with
      | some id => exact ensures_pure fun t ht => ⟨ht, n, rfl, Or.inl hf⟩
      | none =>
        refine ensures_ite (fun hflag => ensures_requireId fun w hw _ id hid => ?_)
          fun _ => ensures_leave
        rw [lookupObject_store]
        exact ⟨hw, n, rfl, Or.inr ⟨hf, hflag, w.calls, hid⟩⟩

theorem ensures_importEndpoint {record : Json} {key : String} {type : ℤ} :
    Ensures P (importEndpoint srv tbl false record key type) fun id t =>
      P t ∧ OrderedMap.find (endpointName record key) tbl = some id := by
  refine ensures_conseq (ensures_importEndpoint_value false record key type) (fun _ h => h) ?_
  rintro id t ⟨ht, n, hn, hid | ⟨-, hflag, -⟩⟩
  · rw [endpointName_of_string hn]
    exact ⟨ht, hid⟩
  · cases hflag

section Reliable

variable (hsrv : Reliable srv)

include hsrv

theorem ensures_createObject {p n : String} {type : ℤ} (ht : EnsureOType type)
    {Q : ℕ → Store → Prop}
    (h : ∀ t now, P t → Q t.nextObject (t.insertObject p n type now)) :
    Ensures P (requireId (srv.createObject (some p) (some n) type)) Q := by
  refine ensures_requireId fun w hw _ id hid => ?_
  rw [createObject_reliable hsrv p n ht] at hid ⊢
  cases hid
  exact h w.store _ hw

theorem ensures_addRelation {f o : ℕ} {type : ℤ} {Q : ℕ → Store → Prop}
    (h : ∀ t, P t → Q t.nextRelation (t.insertRelation f o type)) :
    Ensures P (requireId (srv.addRelation f o type)) Q := by
  refine ensures_requireId fun w hw hok id hid => ?_
  have hargs := addRelation_isOk hok
  rw [addRelation_reliable hsrv hargs.1 hargs.2.1 hargs.2.2] at hid ⊢
  cases hid
  exact h w.store hw

theorem ensures_addMembership {f o : ℕ} {type : ℤ} {Q : Store → Prop}
    (h : ∀ t, P t → Q (t.insertRelation f o type)) :
    Ensures P (requireOk (codeOnly (srv.addRelation f o type))) fun _ => Q := by
  refine ensures_requireOk fun w hw hok => ?_
  have hargs := addRelation_isOk hok
  rw [codeOnly, addRelation_reliable hsrv hargs.1 hargs.2.1 hargs.2.2]
  exact h w.store hw

end Reliable

end Steps

section Importer

variable {srv : Server} {document : Json} (hsrv : Reliable srv)

include hsrv

theorem ensures_importObject {type : ℤ} (ht : EnsureOType type) {e : String × Json}
    (hnew : e.1 ∉ decl.map Prod.snd) :
    Ensures (Graph base b decl tbl []) (importObject srv type tbl e) fun tbl' =>
      Graph base b (decl ++ [(type, e.1)]) tbl' [] := by
  let Stored (id : ℕ) (t : Store) : Prop := Graph base b decl tbl [] t ∧
    ∃ r ∈ t.objects, r.id = id ∧ base.nextObject ≤ id ∧ NamedRow (type, e.1) r
  refine ensures_bind (Q := Stored) (ensures_createObject hsrv ht fun t now h =>
    ⟨h.insertObject _ _ type now, _, List.mem_append_right _ (List.mem_singleton_self _), rfl,
      h.nextObject, ⟨rfl, rfl, rfl⟩⟩) fun id => ?_
  have hw : WriterKeeps (Stored id) (objectWriter srv) id := by
    refine objectWriter_keeps fun t t' r _ _ _ ht' hstored => ?_
    refine ⟨hstored.1.insertObjectProperty ht', ?_⟩
    rw [(insertObjectProperty_eq ht').2]
    exact hstored.2
  refine ensures_bind (ensures_of_keeps (keeps_importProperties hw e.2)) fun _ => ?_
  refine ensures_pure fun t hstored => ?_
  obtain ⟨hg, r, hr, rfl, hid, hrow⟩ := hstored
  exact hg.emplace hnew hr hrow hid

theorem ensures_importObjectsJson {t : ℤ × String} (ht : t ∈ objectSections)
    (hnew : (decl.map Prod.snd ++ (document.membersAt t.2).map Prod.fst).Nodup) :
    Ensures (Graph base b decl tbl []) (importObjectsJson srv t.1 t.2 tbl document) fun tbl' =>
      Graph base b (decl ++ (document.membersAt t.2).map fun e => (t.1, e.1)) tbl' [] := by
  have hty : ∀ t ∈ objectSections, EnsureOType t.1 := by decide
  have h : Ensures (Graph base b (decl ++ ([] : List (String × Json)).map fun e => (t.1, e.1))
      tbl []) (fold (importObject srv t.1) tbl (document.membersAt t.2)) fun tbl' =>
        Graph base b (decl ++ (document.membersAt t.2).map fun e => (t.1, e.1)) tbl' [] := by
    refine triple_fold_along (I := fun (done : List (String × Json)) tbl (w : World) =>
      Graph base b (decl ++ done.map fun e => (t.1, e.1)) tbl [] w.store)
      fun done e rest tbl hxs => ?_
    have hfresh : e.1 ∉ (decl ++ done.map fun e => (t.1, e.1)).map Prod.snd := by
      rw [hxs, List.map_append, List.map_cons, ← List.append_assoc] at hnew
      have hdis := (List.nodup_append.mp hnew).2.2
      intro hmem
      refine hdis e.1 ?_ e.1 List.mem_cons_self rfl
      simpa [Function.comp_def] using hmem
    rw [List.map_append, List.map_singleton, ← List.append_assoc]
    exact ensures_importObject hsrv (hty t ht) hfresh
  rw [importObjectsJson_eq]
  exact ensures_ite (fun _ => by simpa using h) fun _ => ensures_leave

theorem ensures_importRelation (d : ProvRelationData) (e : String × Json) :
    Ensures (Graph base b decl tbl recs) (importRelation srv b tbl false d e) fun _ =>
      Graph base b decl tbl (recs ++ [recordOf d e]) := by
  refine ensures_bind ensures_importEndpoint fun f => ?_
  refine ensures_bind ensures_importEndpoint fun o => ?_
  refine ensures_bind (Q := fun id t' => ∃ t, (Graph base b decl tbl recs t ∧
      OrderedMap.find (recordOf d e).source tbl = some f) ∧
      OrderedMap.find (recordOf d e).dest tbl = some o ∧ id = t.nextRelation ∧
      t' = t.insertRelation f o d.type)
    (ensures_addRelation hsrv fun t h => ⟨t, h.1, h.2, rfl, rfl⟩) fun id => ?_
  refine ensures_bind (Q := fun _ => Graph base b decl tbl (recs ++ [recordOf d e]))
    (ensures_addMembership hsrv ?_) fun _ => ?_
  · rintro _ ⟨t, ⟨hg, hf⟩, ho, rfl, rfl⟩
    exact hg.addPair hf ho
  · refine ensures_ite (fun _ => ?_) fun _ => ensures_pure fun t ht => ht
    have hw : WriterKeeps (Graph base b decl tbl (recs ++ [recordOf d e]))
        (relationWriter srv) id :=
      relationWriter_keeps fun t t' r _ _ _ ht hg => hg.insertRelationProperty ht
    exact ensures_of_keeps (keeps_importProperties hw e.2)

theorem ensures_importRelationSection (d : ProvRelationData) :
    Ensures (Graph base b decl tbl recs) (importRelationSection srv b tbl document false d)
      fun _ => Graph base b decl tbl (recs ++ (records document d).map (recordOf d)) := by
  have h : Ensures (Graph base b decl tbl (recs ++ ([] : List (String × Json)).map (recordOf d)))
      (forEach (importRelation srv b tbl false d) (document.membersAt d.typeStr)) fun _ =>
        Graph base b decl tbl (recs ++ (document.membersAt d.typeStr).map (recordOf d)) :=
    ensures_forEach (I := fun done => Graph base b decl tbl (recs ++ done.map (recordOf d)))
      fun done e => by
        rw [List.map_append, List.map_singleton, ← List.append_assoc]
        exact ensures_importRelation hsrv d e
  rw [importRelationSection_eq, records]
  exact ensures_ite (fun _ => by simpa using h) fun _ => ensures_leave

theorem ensures_importRelationsJson :
    Ensures (Graph base b decl tbl []) (importRelationsJson srv b tbl document false)
      fun _ => Graph base b decl tbl (recordsOf document) :=
  ensures_forEach (I := fun done => Graph base b decl tbl
    (done.flatMap fun d => (records document d).map (recordOf d))) fun done d => by
      rw [List.flatMap_append, List.flatMap_singleton]
      exact ensures_importRelationSection hsrv d

theorem ensures_importContents (hnames : (declaredNames document).Nodup) (bundleName : String) :
    Ensures (· = base) (importContents srv document bundleName [] false) fun b t =>
      b = base.nextObject ∧
        ∃ tbl, Graph base b (declared document) tbl (recordsOf document) t := by
  have hfresh : ∀ p n now, Graph base base.nextObject [] [] []
      (base.insertObject p n cplBundle now) := fun p n now =>
    ⟨by simp, by simp, by simp [Store.insertObject, pairRows, pairsFrom],
      by simp [Store.insertObject], by simp [Store.insertObject]⟩
  simp only [declaredNames, objectSections, List.flatMap_cons, List.flatMap_nil,
    List.append_nil, ← List.append_assoc] at hnames
  have hfirst := hnames.of_append_left
  refine ensures_bind (Q := fun id t => id = base.nextObject ∧
      Graph base base.nextObject [] [] [] t)
    (ensures_createObject hsrv (by decide) fun t now ht => ?_) fun id => ?_
  · subst ht
    exact ⟨rfl, hfresh _ _ now⟩
  refine ensures_assume fun hid => ?_
  subst hid
  refine ensures_bind (ensures_of_keeps (keeps_importBundlePrefixesJson
    (fun t t' r _ _ ht hg => hg.insertPrefix ht) document)) fun _ => ?_
  refine ensures_bind (ensures_importObjectsJson hsrv (t := (cplEntity, cplEntityStr))
    (by decide) (by simpa using hfirst.of_append_left)) fun tbl1 => ?_
  refine ensures_bind (ensures_importObjectsJson hsrv (t := (cplAgent, cplAgentStr))
    (by decide) (by simpa [Function.comp_def] using hfirst)) fun tbl2 => ?_
  refine ensures_bind (ensures_importObjectsJson hsrv (t := (cplActivity, cplActivityStr))
    (by decide) (by simpa [Function.comp_def] using hnames)) fun tbl3 => ?_
  refine ensures_bind (Q := fun _ => Graph base base.nextObject (declared document) tbl3 [])
    (ensures_pure fun t ht => by simpa [declared, objectSections] using ht) fun _ => ?_
  exact ensures_bind (ensures_importRelationsJson hsrv) fun _ =>
    ensures_pure fun t ht => ⟨rfl, tbl3, ht⟩

theorem importDocument_graph {parse : String → Option Json} {jsonString : String}
    {members : List (String × Json)} (hp : parse jsonString = some (.object members))
    (hne : members ≠ []) (hnames : (declaredNames (.object members)).Nodup)
    {bundleName : String} {s : Store} {calls b : ℕ} {w : World}
    (h : importDocument parse srv jsonString bundleName [] 0 ⟨s, calls⟩ = (.ok b, w)) :
    b = s.nextObject ∧ ∃ tbl,
      Graph s b (declared (.object members)) tbl (recordsOf (.object members)) w.store := by
  rw [importDocument_object hp hne] at h
  simp only [ne_eq, not_true_eq_false, false_and, decide_false] at h
  exact (ensures_gotoError (ensures_importContents hsrv hnames bundleName)).of_run rfl h

end Importer


end ImportGraph
