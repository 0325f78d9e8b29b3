import ProvCpl.AnchorLinks

/-! # Which objects the anchors attach to

An anchor is meant for the object of the document that it names. The lookup in the store gives
that object if it is the last that answers to the name. It may give another object of the
document, whose name has the same tokens, or an object that was stored before. -/
namespace Anchors

open CplTypes QualifiedName JsonValue ProvStore ProvServer ServerSpecs ImportDocument
open ImportFrame ImportAccepts ImportGraph ImportLog BundleMembers ImportedObjects BundleLinks
open RecordProperties AnchorLinks ValidateDocument EarlyExit

/-- A lookup does not tell the names apart. -/
def SameTokens (m n : String) : Prop :=
  cStr (nameToTokens m).1 = cStr (nameToTokens n).1 ∧
    cStr (nameToTokens m).2 = cStr (nameToTokens n).2

instance (m n : String) : Decidable (SameTokens m n) := inferInstanceAs (Decidable (_ ∧ _))

/-- Of the declared names that a lookup does not tell from this one, it is the last. -/
def LastNamed (document : Json) (n : String) : Prop :=
  ((declaredNames document).filter fun m => SameTokens m n).getLast? = some n

instance (document : Json) (n : String) : Decidable (LastNamed document n) :=
  inferInstanceAs (Decidable (_ = _))

/-- The link of the anchor is there without it: by a record of the document, or stored before
under the ids to come. -/
def Supplied (s : Store) (bundleName : String) (document : Json) (externObjF : Bool)
    (a : ℕ × String) : Prop :=
  ∃ k ∈ membersOf s document, k.name = a.2 ∧
    (InBundle s s.nextObject ⟨k.id, a.1, alternateOf⟩ ∨
      ⟨k.id, a.1, alternateOf⟩ ∈ (documentRecords document).flatMap
        (recordLink (keysOf s bundleName document) (membersOf s document) externObjF))

def newKeys (s : Store) (bundleName : String) (document : Json) : List ObjectKey :=
  bundleKey s.nextObject bundleName :: (membersOf s document).map memberKey

/-- If a stored object answers to the name, so does an object of the import. -/
def Covered (s : Store) (bundleName : String) (document : Json) (n : String) : Prop :=
  (∃ r ∈ s.objects, (keyOf r).Answers n (cplNone : ℕ)) →
    ∃ k ∈ newKeys s bundleName document, k.Answers n (cplNone : ℕ)

section Keys

theorem keysOf_eq (s : Store) (bundleName : String) (document : Json) :
    keysOf s bundleName document = s.objects.map keyOf ++ newKeys s bundleName document := rfl

theorem lookupKeys_append (ks ls : List ObjectKey) (n : String) (type : ℤ) :
    lookupKeys (ks ++ ls) n type = (lookupKeys ls n type).or (lookupKeys ks n type) := by
  rw [lookupKeys, List.filter_append, List.getLast?_append, Option.map_or]
  rfl

theorem lookupKeys_mem {ks : List ObjectKey} {n : String} {type : ℤ} {id : ℕ}
    (h : lookupKeys ks n type = some id) : ∃ k ∈ ks, k.Answers n type ∧ k.id = id := by
  obtain ⟨k, hk, rfl⟩ := Option.map_eq_some_iff.mp h
  obtain ⟨hmem, hanswers⟩ := List.mem_filter.mp (List.mem_of_getLast? hk)
  exact ⟨k, hmem, of_decide_eq_true hanswers, rfl⟩

theorem lookupKeys_isSome_iff {ks : List ObjectKey} {n : String} {type : ℤ} :
    (lookupKeys ks n type).isSome ↔ ∃ k ∈ ks, k.Answers n type := by
  unfold lookupKeys
  rw [Option.isSome_map, List.getLast?_isSome, ne_eq, List.filter_eq_nil_iff]
  simp

theorem newKeys_ids {s : Store} {bundleName : String} {document : Json} {k : ObjectKey}
    (hk : k ∈ newKeys s bundleName document) : s.nextObject ≤ k.id := by
  rcases List.mem_cons.mp hk with rfl | hk
  · exact Nat.le_refl _
  · obtain ⟨c, hc, rfl⟩ := List.mem_map.mp hk
    exact (Nat.le_succ _).trans (numbered_ids hc)

theorem lookup_new_iff {s : Store} (hs : s.Valid) (bundleName : String) (document : Json)
    (n : String) :
    (∀ id, lookupKeys (keysOf s bundleName document) n (cplNone : ℕ) = some id →
      s.nextObject ≤ id) ↔ Covered s bundleName document n := by
  rw [keysOf_eq, lookupKeys_append]
  unfold Covered
  rw [← lookupKeys_isSome_iff]
  cases hnew : lookupKeys (newKeys s bundleName document) n (cplNone : ℕ) with
  | some i =>
    refine iff_of_true ?_ fun _ => rfl
    rintro id ⟨⟩
    obtain ⟨k, hk, -, rfl⟩ := lookupKeys_mem hnew
    exact newKeys_ids hk
  | none =>
    rw [Option.none_or]
    constructor
    · rintro h ⟨r, hr, hanswers⟩
      obtain ⟨id, hid⟩ := Option.isSome_iff_exists.mp
        (lookupKeys_isSome_iff.mpr ⟨_, List.mem_map_of_mem (f := keyOf) hr, hanswers⟩)
      obtain ⟨k, hk, -, rfl⟩ := lookupKeys_mem hid
      obtain ⟨q, hq, rfl⟩ := List.mem_map.mp hk
      have hlt := hs.object_bound q hq
      have hle := h _ hid
      exact absurd hle (Nat.not_le.mpr hlt)
    · intro h id hid
      obtain ⟨k, hk, hanswers, -⟩ := lookupKeys_mem hid
      obtain ⟨q, hq, rfl⟩ := List.mem_map.mp hk
      cases h ⟨q, hq, hanswers⟩

theorem memberKey_answers {k : CreatedObject} {n : String} :
    (memberKey k).Answers n (cplNone : ℕ) ↔ SameTokens k.name n := by
  simp [ObjectKey.Answers, memberKey, SameTokens, cplNone]

theorem lookup_member_iff {s : Store} (hs : s.Valid) (bundleName : String) {document : Json}
    {k : CreatedObject} (hk : k ∈ membersOf s document) (n : String) :
    lookupKeys (keysOf s bundleName document) n (cplNone : ℕ) = some k.id ↔
      ((membersOf s document).filter fun c => SameTokens c.name n).getLast? = some k := by
  let older := s.objects.map keyOf ++ [bundleKey s.nextObject bundleName]
  let last := ((membersOf s document).filter fun c => SameTokens c.name n).getLast?
  have hkeys : keysOf s bundleName document =
      older ++ (membersOf s document).map memberKey := by simp [keysAfter, older]
  have hmembers : lookupKeys ((membersOf s document).map memberKey) n (cplNone : ℕ) =
      last.map (·.id) := by
    unfold lookupKeys
    rw [List.filter_map, List.getLast?_map, Option.map_map]
    simp only [Function.comp_def, memberKey_answers]
    rfl
  rw [hkeys, lookupKeys_append, hmembers]
  change _ ↔ last = some k
  cases hlast : last with
  | some c =>
    have hc : c ∈ membersOf s document := (List.mem_filter.mp (List.mem_of_getLast? hlast)).1
    rw [Option.map_some, Option.some_or, Option.some.injEq, Option.some.injEq]
    exact ⟨fun hid => numbered_inj hc hk hid, fun hck => congrArg _ hck⟩
  | none =>
    refine iff_of_false (fun h => ?_) (by simp)
    rw [Option.map_none, Option.none_or] at h
    obtain ⟨q, hq, -, hid⟩ := lookupKeys_mem h
    have hle : q.id ≤ s.nextObject := by
      rcases List.mem_append.mp hq with hq | hq
      · obtain ⟨r, hr, rfl⟩ := List.mem_map.mp hq
        exact (hs.object_bound r hr).le
      · rw [List.mem_singleton.mp hq]
        exact Nat.le_refl _
    have hge := numbered_ids hk
    omega

end Keys

theorem membersOf_names (s : Store) (document : Json) :
    (membersOf s document).map (·.name) = declaredNames document := by
  have h := congrArg (List.map Prod.snd)
    (numbered_origins (s.nextObject + 1) (declared document))
  rw [List.map_map, declared_names] at h
  exact h

/-- A declared name that is the last of its tokens belongs to the last member that answers. -/
theorem lastNamed_iff {s : Store} {document : Json} {n : String} :
    LastNamed document n ↔ ∃ k, k.name = n ∧
      ((membersOf s document).filter fun c => SameTokens c.name n).getLast? = some k := by
  have hlast : ((declaredNames document).filter fun m => SameTokens m n).getLast? =
      ((membersOf s document).filter fun c => SameTokens c.name n).getLast?.map (·.name) := by
    rw [← membersOf_names s, List.filter_map, List.getLast?_map, Function.comp_def]
  unfold LastNamed
  rw [hlast, Option.map_eq_some_iff]
  constructor
  · rintro ⟨k, hk, hname⟩
    exact ⟨k, hname, hk⟩
  · rintro ⟨k, hname, hk⟩
    exact ⟨k, hk, hname⟩

/-- Each anchor that names a member has an object created for that member attached to it, and
the relations created for anchors come from objects of the call. -/
structure AttachesAnchors (s : Store) (document : Json) (anchors : List (ℕ × String)) (b : ℕ)
    (t : Store) (l : List Attempt) : Prop where
  attached : ∀ a ∈ anchors, a.2 ∈ declaredNames document →
    ∃ k ∈ objectsIn l, k.name = a.2 ∧ InBundle t b ⟨k.id, a.1, alternateOf⟩
  own : ∀ k ∈ anchorsIn l, ∃ r ∈ t.relations, r.id = k.id ∧
    ∃ f, r.fromId = some f ∧ IsNew s t f

/-- What the lookups of the anchors must give: an anchor that names a member is meant for the
last of its tokens, and some anchor of these tokens and the same object is answered. -/
structure ResolvesAnchors (srv : Server) (s : Store) (calls : ℕ) (bundleName : String)
    (document : Json) (anchors : List (ℕ × String)) (externObjF : Bool) : Prop where
  declared : ∀ a ∈ anchors, a.2 ∈ declaredNames document →
    (LastNamed document a.2 ∧ ∃ c ∈ answeredAnchors srv s calls bundleName document anchors,
      c.1 = a.1 ∧ SameTokens c.2 a.2) ∨ Supplied s bundleName document externObjF a
  covered : ∀ a ∈ answeredAnchors srv s calls bundleName document anchors,
    Covered s bundleName document a.2

section Stored

variable {s t : Store} {bundleName : String} {document : Json} {anchors : List (ℕ × String)}
  {externObjF : Bool} {b : ℕ} {l : List Attempt}

theorem mem_found {keys : List ObjectKey} {p : (ℕ × String) × ℕ} :
    p ∈ found keys anchors ↔
      p.1 ∈ anchors ∧ lookupKeys keys p.1.2 (cplNone : ℕ) = some p.2 := by
  simp only [found, List.mem_filterMap, Option.map_eq_some_iff]
  constructor
  · rintro ⟨a, ha, id, hid, rfl⟩
    exact ⟨ha, hid⟩
  · rintro ⟨ha, hid⟩
    exact ⟨p.1, ha, p.2, hid, rfl⟩

theorem linksOf_types : ∀ link ∈ linksOf s bundleName document anchors externObjF,
    link.type ≠ bundleRelation := by
  intro link hlink
  rcases List.mem_append.mp hlink with hlink | hlink
  · obtain ⟨p, -, rfl⟩ := List.mem_map.mp hlink
    exact show alternateOf ≠ bundleRelation by decide
  · obtain ⟨r, hr, hlink⟩ := List.mem_flatMap.mp hlink
    obtain ⟨d, hd, hr⟩ := List.mem_flatMap.mp hr
    obtain ⟨e, -, rfl⟩ := List.mem_map.mp hr
    unfold recordLink at hlink
    split at hlink
    · rw [List.mem_singleton.mp hlink]
      exact (relationSections_ensureRType d hd).2
    · cases hlink

theorem sameTokens_filter {k n : String} (h : SameTokens k n) (created : List CreatedObject) :
    (created.filter fun c => SameTokens c.name n) =
      created.filter fun c => SameTokens c.name k := by
  apply List.filter_congr
  intro c _
  have hiff : SameTokens c.name n ↔ SameTokens c.name k := by
    unfold SameTokens
    rw [h.1, h.2]
  exact decide_eq_decide.mpr hiff

theorem attached_iff (hs : s.Reachable)
    (h : Anchored s bundleName document anchors externObjF b t l) (a : ℕ × String) :
    (∃ k ∈ objectsIn l, k.name = a.2 ∧ InBundle t b ⟨k.id, a.1, alternateOf⟩) ↔
      (LastNamed document a.2 ∧ ∃ c ∈ anchors, c.1 = a.1 ∧ SameTokens c.2 a.2) ∨
        Supplied s bundleName document externObjF a := by
  have hlink : ∀ k : CreatedObject, InBundle t b ⟨k.id, a.1, alternateOf⟩ ↔
      InBundle s s.nextObject ⟨k.id, a.1, alternateOf⟩ ∨
        ⟨k.id, a.1, alternateOf⟩ ∈ linksOf s bundleName document anchors externObjF := by
    intro k
    rw [h.linked.inBundle_iff hs.valid linksOf_types (show alternateOf ≠ bundleRelation by decide),
      h.bundle]
  rw [h.objects]
  constructor
  · rintro ⟨k, hk, hname, hin⟩
    rcases (hlink k).mp hin with hold | hnew
    · exact Or.inr ⟨k, hk, hname, Or.inl hold⟩
    · rcases List.mem_append.mp hnew with hanchor | hrecord
      · left
        obtain ⟨⟨c, id⟩, hp, heq⟩ := List.mem_map.mp hanchor
        obtain ⟨hc, hfound⟩ := mem_found.mp hp
        have hto : c.1 = a.1 := congrArg Link.toId heq
        obtain rfl : id = k.id := congrArg Link.fromId heq
        have hlast := (lookup_member_iff hs.valid bundleName hk c.2).mp hfound
        have hkc : SameTokens k.name c.2 := of_decide_eq_true
          (List.mem_filter.mp (List.mem_of_getLast? hlast)).2
        rw [sameTokens_filter hkc, hname] at hlast
        rw [hname] at hkc
        exact ⟨lastNamed_iff.mpr ⟨k, hname, hlast⟩, c, hc, hto, hkc.1.symm, hkc.2.symm⟩
      · exact Or.inr ⟨k, hk, hname, Or.inr hrecord⟩
  · rintro (⟨hlast, c, hc, hto, htokens⟩ | ⟨k, hk, hname, hsupplied⟩)
    · obtain ⟨k, hname, hlast⟩ := (lastNamed_iff (s := s)).mp hlast
      have hk := (List.mem_filter.mp (List.mem_of_getLast? hlast)).1
      rw [sameTokens_filter htokens] at hlast
      have hfound := (lookup_member_iff hs.valid bundleName hk c.2).mpr hlast
      refine ⟨k, hk, hname, (hlink k).mpr (Or.inr (List.mem_append_left _ ?_))⟩
      rw [← hto]
      exact List.mem_map_of_mem (f := anchorLink)
        (mem_found (p := (c, k.id)).mpr ⟨hc, hfound⟩)
    · refine ⟨k, hk, hname, (hlink k).mpr ?_⟩
      exact hsupplied.imp id fun hmem => List.mem_append_right _ hmem

theorem forall_mem_iff {α β : Type} {R : α → β → Prop} {P : α → Prop} {Q : β → Prop}
    {xs : List α} {ys : List β} (h : xs.Forall₂ R ys) (hiff : ∀ x y, R x y → (P x ↔ Q y)) :
    (∀ x ∈ xs, P x) ↔ ∀ y ∈ ys, Q y := by
  induction h with
  | nil => simp
  | cons hr _ ih => rw [List.forall_mem_cons, List.forall_mem_cons, hiff _ _ hr, ih]

theorem source_iff (ht : t.Valid) {p : (ℕ × String) × ℕ} {k : CreatedAnchor}
    (hk : CreatedFor t p k) (hstored : p.2 ∈ t.objects.map (·.id)) :
    s.nextObject ≤ p.2 ↔
      ∃ r ∈ t.relations, r.id = k.id ∧ ∃ f, r.fromId = some f ∧ IsNew s t f := by
  constructor
  · exact fun hle => ⟨_, hk.2, rfl, _, rfl, hle, hstored⟩
  · rintro ⟨r, hr, hid, f, hf, hnew, -⟩
    obtain rfl : r = linkRow k.id (anchorLink p) :=
      List.inj_on_of_nodup_map ht.relation_ids hr hk.2 hid
    cases hf
    exact hnew

theorem own_iff (hs : s.Reachable)
    (h : Anchored s bundleName document anchors externObjF b t l) :
    (∀ k ∈ anchorsIn l, ∃ r ∈ t.relations, r.id = k.id ∧ ∃ f, r.fromId = some f ∧ IsNew s t f) ↔
      ∀ a ∈ anchors, Covered s bundleName document a.2 := by
  have hstored : ∀ p ∈ found (keysOf s bundleName document) anchors,
      p.2 ∈ t.objects.map (·.id) := by
    intro p hp
    obtain ⟨k, hk, -, hid⟩ := lookupKeys_mem (mem_found.mp hp).2
    rw [← h.keys] at hk
    obtain ⟨q, hq, rfl⟩ := List.mem_map.mp hk
    exact List.mem_map.mpr ⟨q, hq, hid⟩
  have hcreated := (List.forall₂_and_left _ _).mpr ⟨hstored, h.created⟩
  rw [← forall_mem_iff hcreated fun p k hpk =>
    source_iff h.linked.reachable.valid hpk.2 hpk.1]
  constructor
  · intro hnew a ha
    apply (lookup_new_iff hs.valid bundleName document a.2).mp
    exact fun id hid => hnew _ (mem_found (p := (a, id)).mpr ⟨ha, hid⟩)
  · intro hcovered p hp
    obtain ⟨ha, hid⟩ := mem_found.mp hp
    exact (lookup_new_iff hs.valid bundleName document _).mpr (hcovered _ ha) _ hid

end Stored

/-- An entity was stored before, and two of the document have the same tokens. -/
abbrev aliasStore : Store := .oneEntity "x" 1

def aliasText : String := "\x7b\"entity\": \x7b\":e\": \x7b\x7d, \"e\": \x7b\x7d\x7d\x7d"

def aliasDocument : Json := .object [("entity", .object [(":e", .object []), ("e", .object [])])]

def aliasParse (text : String) : Option Json :=
  if text = aliasText then some aliasDocument else none

/-- The lookup of the anchor fails. -/
def failingServer : Server :=
  { Server.ideal with
    outcome := fun n =>
      if n = 5 then ⟨0, some ⟨.statementError, not_isOk_statementError⟩⟩ else .success }

def anchoredRun (srv : Server) (n : String) : (Stop × Option ℕ) × World :=
  importDocumentJson aliasParse srv aliasText "b" [(1, n)] 0 (some 0) ⟨aliasStore, 2⟩

def Returns (srv : Server) (n : String) : Prop :=
  (anchoredRun srv n).1 = (.ret .ok, some 2) ∧ InOrder (anchoredRun srv n).2.store.objects

theorem returns_ideal : ∀ n ∈ ["e", ":e", "x"], Returns .ideal n := by
  unfold Returns
  decide +kernel

theorem returns_failing : Returns failingServer "e" := by
  unfold Returns
  decide +kernel

theorem anchored_anchoredRun {srv : Server} {n : String} (h : Returns srv n) :
    Anchored aliasStore "b" aliasDocument
      (answeredAnchors srv aliasStore 2 "b" aliasDocument [(1, n)]) false 2
      (anchoredRun srv n).2.store
      (attempts aliasParse srv aliasText "b" [(1, n)] 0 ⟨aliasStore, 2⟩) :=
  anchored_of_ok (Store.oneEntity_reachable "x" 1) (if_pos rfl) h.2
    (show anchoredRun srv n = ((.ret .ok, some 2), (anchoredRun srv n).2) by rw [← h.1])

/-- The import returns OK but the anchor is not attached as it should be. -/
def Misattached (srv : Server) (n : String) : Prop :=
  Returns srv n ∧ ¬ AttachesAnchors aliasStore aliasDocument [(1, n)] 2
    (anchoredRun srv n).2.store
    (attempts aliasParse srv aliasText "b" [(1, n)] 0 ⟨aliasStore, 2⟩)

theorem not_supplied (a : ℕ × String) : ¬ Supplied aliasStore "b" aliasDocument false a := by
  rintro ⟨k, -, -, hold | hrecord⟩
  · obtain ⟨r, hr, -⟩ := hold
    cases hr
  · cases hrecord

/-- Of the names with no prefix the last is found, a stored entity is found like any other, and
an anchor whose lookup fails is passed over. -/
theorem anchors_misattached :
    Misattached .ideal ":e" ∧ Misattached .ideal "x" ∧ Misattached failingServer "e" := by
  refine ⟨⟨returns_ideal ":e" (by decide), fun h => ?_⟩,
    ⟨returns_ideal "x" (by decide), fun h => ?_⟩, ⟨returns_failing, fun h => ?_⟩⟩
  · have hdone := anchored_anchoredRun (returns_ideal ":e" (by decide))
    rcases (attached_iff (Store.oneEntity_reachable "x" 1) hdone (1, ":e")).mp
      (h.attached _ (List.mem_singleton_self _) (by decide)) with ⟨hlast, -⟩ | hsupplied
    · exact absurd hlast (by decide)
    · exact not_supplied _ hsupplied
  · have hdone := anchored_anchoredRun (returns_ideal "x" (by decide))
    have hcovered := (own_iff (Store.oneEntity_reachable "x" 1) hdone).mp h.own (1, "x") (by decide)
    exact absurd hcovered (by unfold Covered; decide)
  · have hdone := anchored_anchoredRun returns_failing
    rcases (attached_iff (Store.oneEntity_reachable "x" 1) hdone (1, "e")).mp
      (h.attached _ (List.mem_singleton_self _) (by decide)) with ⟨-, c, hc, -⟩ | hsupplied
    · exact absurd hc (by
        rw [show answeredAnchors failingServer aliasStore 2 "b" aliasDocument [(1, "e")] = [] by
          decide]
        exact List.not_mem_nil)
    · exact not_supplied _ hsupplied

/-- Whatever the database does, an import that returns OK with the objects stored in order
attaches the anchors as it should exactly when their lookups are answered and give the right
objects. -/
theorem attaches_iff {parse : String → Option Json} {srv : Server} {s : Store} (hs : s.Reachable)
    {calls : ℕ} {jsonString bundleName : String} {anchors : List (ℕ × String)} {flags : ℤ}
    {document : Json} {v b : ℕ} {w' : World} (hp : parse jsonString = some document)
    (horder : InOrder w'.store.objects)
    (h : importDocumentJson parse srv jsonString bundleName anchors flags (some v) ⟨s, calls⟩ =
      ((.ret .ok, some b), w')) :
    AttachesAnchors s document anchors b w'.store
        (attempts parse srv jsonString bundleName anchors flags ⟨s, calls⟩) ↔
      ResolvesAnchors srv s calls bundleName document anchors
        (decide (flags ≠ 0 ∧ cplJExternObj ≠ 0)) := by
  have hdone := anchored_of_ok hs hp horder h
  constructor
  · intro hattaches
    constructor
    · exact fun a ha hn => (attached_iff hs hdone a).mp (hattaches.attached a ha hn)
    · exact (own_iff hs hdone).mp hattaches.own
  · intro hresolves
    constructor
    · exact fun a ha hn => (attached_iff hs hdone a).mpr (hresolves.declared a ha hn)
    · exact (own_iff hs hdone).mpr hresolves.covered

/-- The name that is found last is the one of its tokens to which anchors are attached. -/
theorem attaches_iff_declared : AttachesAnchors aliasStore aliasDocument [(1, "e")] 2
    (anchoredRun .ideal "e").2.store
    (attempts aliasParse .ideal aliasText "b" [(1, "e")] 0 ⟨aliasStore, 2⟩) := by
  have hreturns := returns_ideal "e" (by decide)
  refine (attaches_iff (Store.oneEntity_reachable "x" 1) (if_pos rfl) hreturns.2
    (show anchoredRun .ideal "e" = ((.ret .ok, some 2), (anchoredRun .ideal "e").2) by
      rw [← hreturns.1])).mpr ⟨?_, ?_⟩
  · intro a ha _
    rw [List.mem_singleton.mp ha]
    exact Or.inl ⟨by decide, (1, "e"), by decide, rfl, rfl, rfl⟩
  · intro a ha
    rw [show a = (1, "e") from List.mem_singleton.mp ha]
    unfold Covered
    decide

end Anchors
