import ProvCpl.BundleLinks
import ProvCpl.ImportCalls

/-! # The relations that an import stores for its anchors

An anchor is looked up by its name among all objects that are stored, under any type, and not in
the table of the document. With every object younger than those before it, a lookup that is
answered gives the last object that answers to the name. A lookup that fails is passed over. -/
namespace AnchorLinks

open CplTypes QualifiedName JsonValue ProvStore ProvServer ServerSpecs ImportDocument
open ImportFrame ImportAccepts ImportGraph ImportLog BundleMembers ImportedObjects BundleLinks
open RecordProperties ImportCalls EarlyExit ProgramLog

structure CreatedAnchor where
  anchor : ℕ × String
  id : ℕ
  deriving DecidableEq, Repr

def anchorOf (a : Attempt) : Option CreatedAnchor :=
  match a.write, a.id with
  | .anchor x, some id => some ⟨x, id⟩
  | _, _ => none

def anchorsIn (log : List Attempt) : List CreatedAnchor := log.filterMap anchorOf

def found (keys : List ObjectKey) (anchors : List (ℕ × String)) : List ((ℕ × String) × ℕ) :=
  anchors.filterMap fun a => (lookupKeys keys a.2 (cplNone : ℕ)).map fun id => (a, id)

def anchorLink (p : (ℕ × String) × ℕ) : Link := ⟨p.2, p.1.1, alternateOf⟩

def CreatedFor (t : Store) (p : (ℕ × String) × ℕ) (k : CreatedAnchor) : Prop :=
  k.anchor = p.1 ∧ linkRow k.id (anchorLink p) ∈ t.relations

/-- The anchors whose lookups are answered, with `n` the number of the first call. An anchor
that is found takes two more calls, for its relation and for the membership. -/
def answered (srv : Server) (keys : List ObjectKey) : ℕ → List (ℕ × String) → List (ℕ × String)
  | _, [] => []
  | n, a :: anchors =>
    if (srv.outcome n).failure.isSome then answered srv keys (n + 1) anchors
    else if (lookupKeys keys a.2 (cplNone : ℕ)).isSome then
      a :: answered srv keys (n + 3) anchors
    else a :: answered srv keys (n + 1) anchors

section Answers

variable {srv : Server} {keys : List ObjectKey} {n : ℕ} {a : ℕ × String}
  {anchors : List (ℕ × String)}

theorem answered_failed {e : Failure} (h : (srv.outcome n).failure = some e) :
    answered srv keys n (a :: anchors) = answered srv keys (n + 1) anchors := by
  rw [answered, h, if_pos Option.isSome_some]

theorem answered_found {f : ℕ} (h : (srv.outcome n).failure = none)
    (hfound : lookupKeys keys a.2 (cplNone : ℕ) = some f) :
    answered srv keys n (a :: anchors) = a :: answered srv keys (n + 3) anchors := by
  rw [answered, h, if_neg (by simp), hfound, if_pos Option.isSome_some]

theorem answered_missing (h : (srv.outcome n).failure = none)
    (hnone : lookupKeys keys a.2 (cplNone : ℕ) = none) :
    answered srv keys n (a :: anchors) = a :: answered srv keys (n + 1) anchors := by
  rw [answered, h, if_neg (by simp), hnone, if_neg (by simp)]

end Answers

theorem found_concat (keys : List ObjectKey) (done : List (ℕ × String)) (a : ℕ × String) :
    found keys (done ++ [a]) = found keys done ++
      ((lookupKeys keys a.2 (cplNone : ℕ)).map fun id => (a, id)).toList := by
  unfold found
  rw [List.filterMap_append]
  cases h : lookupKeys keys a.2 (cplNone : ℕ) <;> simp [h]

theorem createdFor_mono {t t' : Store} {ps : List ((ℕ × String) × ℕ)} {ks : List CreatedAnchor}
    (h : ps.Forall₂ (CreatedFor t) ks) (hsub : ∀ r ∈ t.relations, r ∈ t'.relations) :
    ps.Forall₂ (CreatedFor t') ks :=
  h.imp fun _ _ hk => ⟨hk.1, hsub _ hk.2⟩

section Members

variable {srv : Server} {n : ℕ} (decl : List (ℤ × String))

/-- If no object is stored twice, the members created so far have the ids from `n` on. -/
def Counted (srv : Server) (n : ℕ) (decl : List (ℤ × String)) (created : List CreatedObject)
    (t : Store) : Prop :=
  Once srv t → t.nextObject = n + decl.length ∧ created = numbered n decl

theorem counted_logObject (type : ℤ) (tbl : LookupTable) (e : String × Json) :
    LogEnsures (fun t l => Counted srv n decl (objectsIn l) t) (logObject srv type tbl e)
      fun _ t l => Counted srv n (decl ++ [(type, e.1)]) (objectsIn l) t := by
  refine logs_bind (Q := fun _ t l => Counted srv n (decl ++ [(type, e.1)]) (objectsIn l) t)
    (logs_logId ?_) fun id => ?_
  · intro w l hw hok id hid honce
    obtain ⟨hbefore, hnext, hstore⟩ := createObject_once hok honce
    obtain ⟨hcount, hl⟩ := hw hbefore
    obtain rfl : w.store.nextObject = id := Option.some.inj (hnext.symm.trans hid)
    constructor
    · rw [hstore, List.length_append, List.length_singleton, ← Nat.add_assoc, ← hcount]
      rfl
    · rw [numbered_concat, ← hl, ← hcount, objectsIn, List.filterMap_append]
      rfl
  · refine logs_bind (logs_unselected (f := objectOf)
      (I := fun created t => Counted srv n (decl ++ [(type, e.1)]) created t)
      (erases_logProperties _ _ _ _) (fun known => keeps_importProperties
        (objectWriter_keeps fun t t' r _ _ _ he h => ?_) e.2)
      (unselected_logProperties (fun _ _ _ _ => rfl) e.2)) fun _ => logs_pure fun _ _ h => h
    obtain ⟨-, rfl⟩ := insertObjectProperty_eq he
    exact h

theorem counted_logObjectsJson (u : ℤ × String) (tbl : LookupTable) (document : Json) :
    LogEnsures (fun t l => Counted srv n decl (objectsIn l) t)
      (logObjectsJson srv u.1 u.2 tbl document) fun _ t l =>
        Counted srv n (decl ++ (document.membersAt u.2).map fun e => (u.1, e.1))
          (objectsIn l) t := by
  have h : LogEnsures (fun t l => Counted srv n
      (decl ++ ([] : List (String × Json)).map fun e => (u.1, e.1)) (objectsIn l) t)
      (fold (logObject srv u.1) tbl (document.membersAt u.2)) fun _ t l => Counted srv n
        (decl ++ (document.membersAt u.2).map fun e => (u.1, e.1)) (objectsIn l) t :=
    logs_fold (I := fun (done : List (String × Json)) _ t l =>
      Counted srv n (decl ++ done.map fun e => (u.1, e.1)) (objectsIn l) t) fun done e tbl _ => by
        rw [List.map_append, List.map_singleton, ← List.append_assoc]
        exact counted_logObject _ u.1 tbl e
  exact logs_ite (fun _ => by simpa using h) fun _ => logs_leave

theorem counted_logStage (base : Store) (document : Json) (bundleName : String) :
    LogEnsures (fun t l => t = base ∧ l = []) (logStage srv document bundleName)
      fun _ t l => IfOnce srv
        (objectsIn l = numbered (base.nextObject + 1) (declared document)) t := by
  refine logs_bind (Q := fun _ t l => Counted srv (base.nextObject + 1) [] (objectsIn l) t)
    (logs_logId ?_) fun b => ?_
  · rintro w l ⟨hw, rfl⟩ hok id hid honce
    obtain ⟨-, -, hstore⟩ := createObject_once hok honce
    rw [hstore, hw]
    exact ⟨rfl, rfl⟩
  refine logs_bind (logs_unselected (f := objectOf)
    (I := fun created t => Counted srv (base.nextObject + 1) [] created t)
    (erases_logBundlePrefixesJson b document) (fun known => keeps_importBundlePrefixesJson
      (fun t t' r _ _ he h => by
        obtain ⟨-, rfl⟩ := insertPrefix_eq he
        exact h) document)
    (unselected_logBundlePrefixesJson (fun _ _ _ _ => rfl) b document)) fun _ => ?_
  refine logs_bind (counted_logObjectsJson [] (cplEntity, cplEntityStr) [] document)
    fun tbl1 => ?_
  refine logs_bind (counted_logObjectsJson _ (cplAgent, cplAgentStr) tbl1 document)
    fun tbl2 => ?_
  refine logs_bind (counted_logObjectsJson _ (cplActivity, cplActivityStr) tbl2 document)
    fun tbl3 => ?_
  exact logs_pure fun t l h honce => by simpa [declared, objectSections] using (h honce).2

end Members

section Anchors

variable {srv : Server} {base : Store} {rows : List ObjectRow} {b n : ℕ} {keys : List ObjectKey}

/-- These anchors have their relations. -/
structure AnchorsDone (base : Store) (rows : List ObjectRow) (b : ℕ) (keys : List ObjectKey)
    (ps : List (ℕ × String)) (t : Store) (l : List Attempt) : Prop where
  linked : Linked base rows b ((found keys ps).map anchorLink) t
  created : (found keys ps).Forall₂ (CreatedFor t) (anchorsIn l)

def Looping (srv : Server) (base : Store) (rows : List ObjectRow) (b : ℕ) (keys : List ObjectKey)
    (n : ℕ) (done : List (ℕ × String)) (s : World × List Attempt) : Prop :=
  ∃ ps, AnchorsDone base rows b keys ps s.1.store s.2 ∧
    ∀ rest, answered srv keys n (done ++ rest) = ps ++ answered srv keys s.1.calls rest

theorem anchorsDone_found {ps : List (ℕ × String)} {a : ℕ × String} {f calls : ℕ}
    (hfound : lookupKeys keys a.2 (cplNone : ℕ) = some f) :
    Triple (fun s => AnchorsDone base rows b keys ps s.1.store s.2 ∧ s.1.calls = calls)
      (do
        let relationId ← logId (.anchor a) (srv.addRelation f a.1 alternateOf)
        logOk (.membership relationId) (codeOnly (srv.addRelation b relationId bundleRelation)))
      (fun _ s => AnchorsDone base rows b keys (ps ++ [a]) s.1.store s.2 ∧
        s.1.calls = calls + 2) fun _ _ => True := by
  have hconcat : found keys (ps ++ [a]) = found keys ps ++ [(a, f)] := by
    rw [found_concat, hfound]
    rfl
  refine triple_bind (Q := fun id (s : World × List Attempt) =>
    (Pending base rows b ((found keys ps).map anchorLink) (anchorLink (a, f)) id s.1.store ∧
      (found keys (ps ++ [a])).Forall₂ (CreatedFor s.1.store) (anchorsIn s.2)) ∧
      s.1.calls = calls + 1) (triple_logId ?_) fun id => triple_logOk ?_
  · rintro w l ⟨hdone, hw⟩ hok id hid
    have hpending := hdone.linked.addRelation hok hid
    refine ⟨⟨hpending, ?_⟩, by rw [addRelation_calls hok, hw]⟩
    rw [hconcat, anchorsIn, List.filterMap_append, ← anchorsIn]
    refine List.rel_append (createdFor_mono hdone.created fun r hr => ?_) (.cons ⟨rfl, ?_⟩ .nil)
    · exact addRelation_keeps (I := fun t => r ∈ t.relations)
        (fun t _ _ _ ht => List.mem_append_left _ ht) hr
    · exact hpending.row
  · rintro w l ⟨⟨hpending, hcreated⟩, hw⟩ hok
    have hlinked := hpending.addMembership hok
    refine ⟨⟨?_, ?_⟩, by rw [codeOnly, addRelation_calls hok, hw]⟩
    · rw [hconcat, List.map_append]
      exact hlinked
    · rw [anchorsIn, filterMap_ignored (fun _ _ _ => rfl), ← anchorsIn]
      exact createdFor_mono hcreated fun r hr => addRelation_keeps (I := fun t => r ∈ t.relations)
        (fun t _ _ _ ht => List.mem_append_left _ ht) hr

variable (hattached : srv.attached = true)
  (hrows : InOrder rows)
  (hkeys : rows.map keyOf = keys)

include hattached hrows hkeys

/-- An anchor is joined to the last object that answers to its name, if its lookup is answered. -/
theorem looping_logAnchor (done : List (ℕ × String)) (a : ℕ × String) :
    Triple (Looping srv base rows b keys n done) (logAnchor srv b a)
      (fun _ => Looping srv base rows b keys n (done ++ [a])) fun _ _ => True := by
  rintro ⟨w, l⟩ ⟨ps, hdone, hrest⟩
  let looked := srv.lookupObject (some (cStr (nameToTokens a.2).1))
    (some (cStr (nameToTokens a.2).2)) (cplNone : ℕ) w
  have hstore : looked.2.store = w.store := lookupObject_store _ _ _
  have hcalls : looked.2.calls = w.calls + 1 := lookupObject_calls hattached _ _ _
  have hnext : ∀ rest, answered srv keys n (done ++ [a] ++ rest) =
      ps ++ answered srv keys w.calls (a :: rest) := fun rest => by
    rw [List.append_assoc]
    exact hrest (a :: rest)
  have hkeyed : (srv.outcome w.calls).failure = none →
      looked.1.2 = lookupKeys keys a.2 (cplNone : ℕ) ∧
        (looked.1.1.IsOk ↔ (lookupKeys keys a.2 (cplNone : ℕ)).isSome) :=
    lookupObject_keys a.2 _ hattached (hdone.linked.objects ▸ hkeys) (hdone.linked.objects ▸ hrows)
  have hlooked : AnchorsDone base rows b keys ps looked.2.store l := hstore ▸ hdone
  refine triple_bind (P := (· = (w, l))) (Q := fun out s => out = looked.1 ∧ s = (looked.2, l))
    ?_ (fun out => triple_ite (fun hok => ?_) fun hnot => ?_) (w, l) rfl
  · rintro _ rfl
    exact ⟨rfl, rfl⟩
  · rintro s ⟨rfl, rfl⟩
    obtain ⟨hanswered, f, hf⟩ := lookupObject_found hok
    have hfound : lookupKeys keys a.2 (cplNone : ℕ) = some f := (hkeyed hanswered).1 ▸ hf
    rw [show looked.1.2 = some f from hf]
    refine triple_conseq (anchorsDone_found hfound) (fun _ h => h) ?_ (fun _ _ h => h)
      (looked.2, l) ⟨hlooked, rfl⟩
    rintro _ s ⟨hs, hs'⟩
    refine ⟨ps ++ [a], hs, fun rest => ?_⟩
    rw [hnext, answered_found hanswered hfound, hs', hcalls, List.append_assoc]
    rfl
  · rintro s ⟨rfl, rfl⟩
    cases hfailed : (srv.outcome w.calls).failure with
    | some e =>
      refine ⟨ps, hlooked, fun rest => ?_⟩
      rw [hnext, answered_failed hfailed, hcalls]
    | none =>
      have hnone : lookupKeys keys a.2 (cplNone : ℕ) = none :=
        Option.not_isSome_iff_eq_none.mp fun hsome => hnot ((hkeyed hfailed).2.mpr hsome)
      have hfound : found keys (ps ++ [a]) = found keys ps := by
        rw [found_concat, hnone]
        exact List.append_nil _
      refine ⟨ps ++ [a], ⟨hfound ▸ hlooked.linked, hfound ▸ hlooked.created⟩, fun rest => ?_⟩
      rw [hnext, answered_missing hfailed hnone, hcalls, List.append_assoc]
      rfl

theorem anchorsDone_loop (anchors : List (ℕ × String)) :
    Triple (fun s => AnchorsDone base rows b keys [] s.1.store s.2 ∧ s.1.calls = n)
      (forEach (logAnchor srv b) anchors)
      (fun _ s => AnchorsDone base rows b keys (answered srv keys n anchors) s.1.store s.2)
      fun _ _ => True := by
  have hloop : Triple (Looping srv base rows b keys n []) (forEach (logAnchor srv b) anchors)
      (fun _ => Looping srv base rows b keys n anchors) fun _ _ => True :=
    triple_forEach fun done a _ => looping_logAnchor hattached hrows hkeys done a
  refine triple_conseq hloop ?_ ?_ fun _ _ h => h
  · rintro s ⟨hdone, rfl⟩
    exact ⟨[], hdone, fun rest => rfl⟩
  · rintro _ s ⟨ps, hdone, hrest⟩
    have hall := hrest []
    rw [List.append_nil, answered, List.append_nil] at hall
    exact hall ▸ hdone

end Anchors

abbrev keysOf (s : Store) (bundleName : String) (document : Json) : List ObjectKey :=
  keysAfter s bundleName (declared document)

abbrev membersOf (s : Store) (document : Json) : List CreatedObject :=
  numbered (s.nextObject + 1) (declared document)

/-- The anchors whose lookups are answered in an import that begins with the call `calls`. -/
def answeredAnchors (srv : Server) (s : Store) (calls : ℕ) (bundleName : String)
    (document : Json) (anchors : List (ℕ × String)) : List (ℕ × String) :=
  answered srv (keysOf s bundleName document) (calls + stageCalls document) anchors

def linksOf (s : Store) (bundleName : String) (document : Json) (anchors : List (ℕ × String))
    (externObjF : Bool) : List Link :=
  (found (keysOf s bundleName document) anchors).map anchorLink ++
    (documentRecords document).flatMap
      (recordLink (keysOf s bundleName document) (membersOf s document) externObjF)

structure Anchored (s : Store) (bundleName : String) (document : Json)
    (anchors : List (ℕ × String)) (externObjF : Bool) (b : ℕ) (t : Store) (l : List Attempt) :
    Prop where
  bundle : b = s.nextObject
  objects : objectsIn l = membersOf s document
  created : (found (keysOf s bundleName document) anchors).Forall₂ (CreatedFor t) (anchorsIn l)
  keys : t.objects.map keyOf = keysOf s bundleName document
  linked : Linked s t.objects b (linksOf s bundleName document anchors externObjF) t

theorem relationClosed_objects (rows : List ObjectRow) (b : ℕ) :
    RelationClosed (fun t => t.objects = rows) b 0 where
  next := fun _ _ => Nat.zero_le _
  relation := fun _ _ _ _ _ _ _ _ h => h
  relationProperty := fun _ _ _ _ _ _ he h => by
    obtain ⟨-, rfl⟩ := insertRelationProperty_eq he
    exact h

section Run

variable {srv : Server}

theorem unselected_anchors {κ : Type} {f : Attempt → Option κ}
    (ha : ∀ a, Ignores f (.anchor a)) (hm : ∀ r, Ignores f (.membership r)) (b : ℕ)
    (anchors : List (ℕ × String)) : Unselected f (forEach (logAnchor srv b) anchors) :=
  unselected_forEach (fun a => unselected_logAnchor ha hm b a) anchors

def logRest (srv : Server) (b : ℕ) (tbl : LookupTable) (document : Json)
    (anchors : List (ℕ × String)) (externObjF : Bool) : Logged ℕ := do
  forEach (logAnchor srv b) anchors
  logRelationsJson srv b tbl document externObjF
  pure b

theorem objects_logRest (b : ℕ) (tbl : LookupTable) (document : Json)
    (anchors : List (ℕ × String)) (externObjF : Bool) (rows : List ObjectRow) :
    LogEnsures (fun t _ => t.objects = rows) (logRest srv b tbl document anchors externObjF)
      fun _ t _ => t.objects = rows := by
  have hI := relationClosed_objects rows b
  refine logs_bind (logs_of_keeps (erases_forEach (erases_logAnchor b) anchors)
    (maintains_forEach fun a _ => keeps_connectAnchor hI a)) fun _ => ?_
  refine logs_bind (logs_of_keeps (erases_logRelationsJson b tbl document externObjF)
    (keeps_importRelationsJson hI tbl document externObjF)) fun _ => ?_
  exact logs_pure fun _ _ h => h

/-- The records of the document leave the log of the anchors as it was. -/
theorem createdFor_logRelationsJson (b : ℕ) (tbl : LookupTable) (document : Json)
    (externObjF : Bool) (ps : List ((ℕ × String) × ℕ)) :
    LogEnsures (fun t l => ps.Forall₂ (CreatedFor t) (anchorsIn l))
      (logRelationsJson srv b tbl document externObjF)
      fun _ t l => ps.Forall₂ (CreatedFor t) (anchorsIn l) :=
  logs_unselected (f := anchorOf) (I := fun known t => ps.Forall₂ (CreatedFor t) known)
    (erases_logRelationsJson b tbl document externObjF)
    (fun known => keeps_importRelationsJson (importClosed_of_mono
      (I := fun t => ps.Forall₂ (CreatedFor t) known)
      fun _ _ _ hsub h => createdFor_mono h hsub).relations tbl document externObjF)
    (unselected_logRelationsJson (fun _ _ _ _ _ => rfl) (fun _ _ _ _ => rfl)
      (fun _ _ _ _ _ => rfl) b tbl document externObjF)

section Rest

variable {s t₀ : Store} {document : Json} {bundleName : String} {tbl : LookupTable}
  (htabled : Tabled srv s bundleName (declared document) tbl t₀)

include htabled

theorem linked_of_tabled : Linked s t₀.objects s.nextObject [] t₀ :=
  ⟨⟨htabled.reachable, rfl, htabled.nextRelation.ge, fun r hr => htabled.relations ▸ hr,
    fun r hr => Or.inl (htabled.relations ▸ hr)⟩, by simp⟩

/-- The loop over the anchors leaves the log of the objects as it was. -/
theorem anchorsDone_tabled (hattached : srv.attached = true) (hrows : InOrder t₀.objects)
    (anchors : List (ℕ × String)) (n : ℕ) :
    Triple (fun st => st.1.store = t₀ ∧ st.1.calls = n ∧ objectsIn st.2 = membersOf s document ∧
        anchorsIn st.2 = [])
      (forEach (logAnchor srv s.nextObject) anchors)
      (fun _ st => AnchorsDone s t₀.objects s.nextObject (keysOf s bundleName document)
          (answered srv (keysOf s bundleName document) n anchors) st.1.store st.2 ∧
        objectsIn st.2 = membersOf s document) fun _ _ => True := by
  have hkeys : t₀.objects.map keyOf = keysOf s bundleName document := htabled.keys (Or.inr hrows)
  refine triple_conseq (triple_conj (anchorsDone_loop hattached hrows hkeys anchors)
    (unselected_anchors (f := objectOf) (fun _ _ _ _ => rfl) (fun _ _ _ _ => rfl) s.nextObject
      anchors (membersOf s document))) ?_ (fun _ _ h => h) fun _ _ _ => trivial
  rintro ⟨w, l⟩ ⟨hw, hcalls, hobjects, hanchors⟩
  have hlinked : Linked s t₀.objects s.nextObject [] w.store := by
    rw [show w.store = t₀ from hw]
    exact linked_of_tabled htabled
  have hcreated : ([] : List ((ℕ × String) × ℕ)).Forall₂ (CreatedFor w.store) (anchorsIn l) :=
    hanchors ▸ .nil
  exact ⟨⟨⟨hlinked, hcreated⟩, hcalls⟩, hobjects⟩

/-- The records are joined after the anchors `ps`. -/
theorem linked_logRelationsJson (hrows : InOrder t₀.objects) (ps : List (ℕ × String))
    (externObjF : Bool) :
    LogEnsures (fun t l => AnchorsDone s t₀.objects s.nextObject (keysOf s bundleName document)
        ps t l ∧ objectsIn l = membersOf s document)
      (logRelationsJson srv s.nextObject tbl document externObjF)
      fun _ t l => Linked s t₀.objects s.nextObject
          (linksOf s bundleName document ps externObjF) t ∧
        (found (keysOf s bundleName document) ps).Forall₂ (CreatedFor t) (anchorsIn l) ∧
        objectsIn l = membersOf s document := by
  have honce : Once srv t₀ := Or.inr hrows
  have hlinks : LogEnsures (fun t _ => Linked s t₀.objects s.nextObject
        ((found (keysOf s bundleName document) ps).map anchorLink) t)
      (logRelationsJson srv s.nextObject tbl document externObjF)
      fun _ t _ => Linked s t₀.objects s.nextObject
        (linksOf s bundleName document ps externObjF) t :=
    logs_of_erases (erases_logRelationsJson s.nextObject tbl document externObjF)
      (ensures_importRelationsJson_links hrows (htabled.keys honce) (htabled.table honce)
        document)
  have hmembers : Unselected objectOf (logRelationsJson srv s.nextObject tbl document externObjF) :=
    unselected_logRelationsJson (fun _ _ _ _ _ => rfl) (fun _ _ _ _ => rfl)
      (fun _ _ _ _ _ => rfl) s.nextObject tbl document externObjF
  exact logs_weaken (fun t l h => ⟨h.1.linked, h.1.created, h.2⟩) (logs_conj hlinks
    (logs_conj (createdFor_logRelationsJson _ tbl document externObjF _) (hmembers _)))

/-- If each object is younger than those before it, the second part joins the anchors that are
answered and the records. -/
theorem anchored_logRest (hattached : srv.attached = true) (hrows : InOrder t₀.objects)
    (anchors : List (ℕ × String)) (externObjF : Bool) (n : ℕ) :
    Triple (fun st => st.1.store = t₀ ∧ st.1.calls = n ∧ objectsIn st.2 = membersOf s document ∧
        anchorsIn st.2 = [])
      (logRest srv s.nextObject tbl document anchors externObjF)
      (fun b st => Anchored s bundleName document
        (answered srv (keysOf s bundleName document) n anchors) externObjF b st.1.store st.2)
      fun _ _ => True := by
  have hkeys : t₀.objects.map keyOf = keysOf s bundleName document := htabled.keys (Or.inr hrows)
  refine triple_bind (anchorsDone_tabled htabled hattached hrows anchors n) fun _ =>
    logs_bind (linked_logRelationsJson htabled hrows _ externObjF) fun _ => logs_pure ?_
  rintro t l ⟨hlinked, hcreated, hmembers⟩
  have hobjects : t.objects = t₀.objects := hlinked.objects
  exact ⟨rfl, hmembers, hcreated, hobjects ▸ hkeys, hobjects ▸ hlinked⟩

end Rest

theorem anchored_logContents {w₀ : World} (hreach : w₀.store.Reachable) (document : Json)
    (bundleName : String) (anchors : List (ℕ × String)) (externObjF : Bool) :
    Triple (· = (w₀, [])) (logContents srv document bundleName anchors externObjF)
      (fun b st => InOrder st.1.store.objects →
        Anchored w₀.store bundleName document
          (answeredAnchors srv w₀.store w₀.calls bundleName document anchors) externObjF b
          st.1.store st.2)
      fun _ _ => True := by
  have herases : Erases (logStage srv document bundleName)
      (objectStage srv document bundleName) := erases_logStage document bundleName
  have hstage := triple_conj
    (triple_of_erases herases (tabled_objectStage hreach document bundleName))
    (triple_conj (triple_of_erases herases (costs_objectStage document bundleName w₀.calls))
      (triple_conj (counted_logStage w₀.store document bundleName)
        (unselected_logStage (f := anchorOf) (fun _ _ _ => rfl) (fun _ _ _ _ => rfl)
          (fun _ _ _ _ _ => rfl) (fun _ _ _ _ _ => rfl) srv document bundleName [])))
  rw [logContents_stage]
  refine triple_bind (triple_conseq hstage ?_ (fun _ _ h => h) fun _ _ _ => trivial)
    fun out => ?_
  · rintro _ rfl
    exact ⟨rfl, ⟨hreach, rfl⟩, ⟨rfl, rfl⟩, rfl⟩
  · obtain ⟨b, tbl⟩ := out
    rintro ⟨w, l⟩ ⟨⟨hbundle, htabled⟩, ⟨⟨-, hcalls⟩, hattached⟩, hobjects, hanchors⟩
    by_cases hrows : InOrder w.store.objects
    · have honce : Once srv w.store := Or.inr hrows
      obtain rfl : b = w₀.store.nextObject := hbundle honce
      exact (triple_conseq (anchored_logRest htabled hattached hrows anchors externObjF
        (w₀.calls + stageCalls document)) (fun _ h => h) (fun _ _ h => fun _ => h)
        fun _ _ h => h) (w, l) ⟨rfl, hcalls, hobjects honce, hanchors⟩
    · refine triple_conseq (objects_logRest b tbl document anchors externObjF w.store.objects)
        (fun _ h => h) (fun _ st hst hsorted => ?_) (fun _ _ h => h) (w, l) rfl
      exact absurd (hst ▸ hsorted) hrows

theorem anchored_of_ok {parse : String → Option Json} {s : Store} (hs : s.Reachable) {calls : ℕ}
    {jsonString bundleName : String} {anchors : List (ℕ × String)} {flags : ℤ} {document : Json}
    {v b : ℕ} {w' : World} (hp : parse jsonString = some document)
    (hrows : InOrder w'.store.objects)
    (h : importDocumentJson parse srv jsonString bundleName anchors flags (some v) ⟨s, calls⟩ =
      ((.ret .ok, some b), w')) :
    Anchored s bundleName document (answeredAnchors srv s calls bundleName document anchors)
      (decide (flags ≠ 0 ∧ cplJExternObj ≠ 0)) b w'.store
      (attempts parse srv jsonString bundleName anchors flags ⟨s, calls⟩) := by
  have hreach : (World.mk s calls).store.Reachable := hs
  obtain ⟨b', hlog, hb⟩ := logged_of_ok hp
    (anchored_logContents hreach document bundleName anchors _) rfl
    (congrArg (fun out => out.1.1) h)
  rw [h] at hlog hb
  obtain rfl : b = b' := Option.some.inj hb
  exact hlog hrows

end Run

end AnchorLinks
