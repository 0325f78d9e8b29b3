import ProvCpl.SharedDatabase

/-! # Clients in any order of turns

The statements of any number of clients come in any order. A client that uses ids only to pass
on those that it was handed gets the answers that it would get alone and leaves the rows that it
would leave alone, under the ids that it was handed; no row belongs to two clients. -/
namespace ConcurrentClients

open CplTypes JsonValue ProvStore ProvServer ServerSpecs ImportDocument StoreHistory ApiEffects
open ClientPrograms SharedDatabase TakingTurns EarlyExit EventTrace
open Function (update)

variable {ι α : Type}

def ComesFrom (q : Request) : Effect → Prop
  | .createObject _ _ _ _ => ∃ p n type, q = .createObject p n type
  | .addRelation f o type => q = .addRelation f o type
  | _ => True

theorem effectOf_some {now : ℕ} {q : Request} {e : Effect} (h : effectOf now q = some e) :
    Licensed e ∧ ComesFrom q e := by
  cases q with
  | createObject p n type =>
    cases p with
    | none => cases h
    | some p =>
      cases n with
      | none => cases h
      | some n =>
        rw [effectOf, Option.ite_none_right_eq_some] at h
        obtain ⟨ht, he⟩ := h
        cases he
        exact ⟨ht, _, _, _, rfl⟩
  | lookupObject p n type => cases h
  | addRelation f o type =>
    rw [effectOf, Option.ite_none_left_eq_some] at h
    obtain ⟨hargs, he⟩ := h
    cases he
    simp only [not_or, not_not] at hargs
    exact ⟨hargs, rfl⟩
  | addProperty owner id p k v =>
    cases p with
    | none => cases h
    | some p =>
      cases k with
      | none => cases h
      | some k =>
        rw [effectOf, Option.ite_none_left_eq_some, Option.map_eq_some_iff] at h
        obtain ⟨h0, t, -, rfl⟩ := h
        cases owner with
        | object => exact ⟨h0, trivial⟩
        | relation => exact ⟨h0, trivial⟩
  | addPrefix id p i =>
    cases p with
    | none => cases h
    | some p =>
      cases i with
      | none => cases h
      | some i =>
        rw [effectOf, Option.ite_none_left_eq_some] at h
        obtain ⟨h0, he⟩ := h
        cases he
        exact ⟨h0, trivial⟩

section OneClient

variable {s₀ t₀ s t : Store} {h : Handed} {q : Request} {e e' : Effect}

theorem sameAnswer_reply (hp : Part s₀ t₀ s t h) {now : ℕ} (hq : effectOf now q = some e)
    (he : SameEffect (h.objectNames s₀) (h.relationNames s₀) e e') {O R : ℕ → ℕ → Prop}
    (hO : ∀ i j, (h.after t e').objectNames s₀ i j → O i j)
    (hR : ∀ i j, (h.after t e').relationNames s₀ i j → R i j) :
    SameAnswer O R q (replyTo t₀ e) (replyTo t e') := by
  have hsort := (effectOf_some hq).2
  cases he with
  | createObject p n type now now' =>
    obtain ⟨p, n, type, rfl⟩ := hsort
    exact ⟨rfl, .some (hO _ _ (hp.nextObject ▸ stands_new _ _ _))⟩
  | addRelation type hf ho =>
    obtain rfl := hsort
    exact ⟨rfl, .some (hR _ _ (hp.nextRelation ▸ stands_new _ _ _))⟩
  | addObjectProperty p k v type hij =>
    rw [replyTo, replyTo, if_pos (hp.stored_object hij), if_pos (hp.storedObjects _ hij.mem).2]
    exact ⟨rfl, .none⟩
  | addRelationProperty p k v type hij =>
    rw [replyTo, replyTo, if_pos (hp.stored_relation hij), if_pos (hp.storedRelations _ hij.mem).2]
    exact ⟨rfl, .none⟩
  | addPrefix p i hij =>
    rw [replyTo, replyTo, if_pos (hp.stored_object hij), if_pos (hp.storedObjects _ hij.mem).2]
    exact ⟨rfl, .none⟩

end OneClient

/-- Every client is where it would be alone, up to its ids; so is its part of the database, and
nothing else was added to it. -/
structure AsAlone (V : (ℕ → ℕ → Prop) → (ℕ → ℕ → Prop) → α → α → Prop) (start : ι → Store)
    (s : Store) (alone : ι → Program α × World) (c : Shared ι Request Answer Stop α World)
    (handed : ι → Handed) : Prop where
  control : ∀ i, let O := (handed i).objectNames (start i)
    let R := (handed i).relationNames (start i)
    Related (SameRequest O R) (SameAnswer O R) (V O R) (alone i).1 (c.programs i)
  parts : ∀ i, Part (start i) (alone i).2.store s c.state.store (handed i)
  apart : Apart s c.state.store (fun i => (handed i).objects) fun i => (handed i).relations

/-- The clients go on alike whatever further ids they are handed. -/
structure Invariant (V : (ℕ → ℕ → Prop) → (ℕ → ℕ → Prop) → α → α → Prop) (start : ι → Store)
    (s : Store) (alone : ι → Program α × World) (c : Shared ι Request Answer Stop α World)
    (handed : ι → Handed) : Prop where
  control : ∀ i O R, (∀ j k, (handed i).objectNames (start i) j k → O j k) →
    (∀ j k, (handed i).relationNames (start i) j k → R j k) →
    Related (SameRequest O R) (SameAnswer O R) (V O R) (alone i).1 (c.programs i)
  parts : ∀ i, Part (start i) (alone i).2.store s c.state.store (handed i)
  apart : Apart s c.state.store (fun i => (handed i).objects) fun i => (handed i).relations
  reachable : c.state.store.Reachable

section Steps

variable {V : (ℕ → ℕ → Prop) → (ℕ → ℕ → Prop) → α → α → Prop} {start : ι → Store} {s : Store}
  {alone : ι → Program α × World} {c : Shared ι Request Answer Stop α World}
  {handed : ι → Handed}

theorem Invariant.asAlone (h : Invariant V start s alone c handed) :
    AsAlone V start s alone c handed :=
  ⟨fun i => h.control i _ _ (fun _ _ hij => hij) fun _ _ hij => hij, h.parts, h.apart⟩

theorem names_ne_zero {s₀ t₀ s t : Store} {h : Handed} (hs₀ : s₀.Valid) (hs : s.Valid)
    (hp : Part s₀ t₀ s t h) :
    (∀ i j, h.objectNames s₀ i j → i ≠ 0 ∧ j ≠ 0) ∧
      ∀ i j, h.relationNames s₀ i j → i ≠ 0 ∧ j ≠ 0 := by
  have hnext := hs.next_object
  have hnext' := hs.next_relation
  have hfirst := hs₀.next_object
  have hfirst' := hs₀.next_relation
  constructor
  · intro i j hij
    have hle := hij.le
    have hle' := (hp.storedObjects j hij.mem).1
    omega
  · intro i j hij
    have hle := hij.le
    have hle' := (hp.storedRelations j hij.mem).1
    omega

variable [DecidableEq ι]

theorem update_objects (i : ι) (h : Handed) :
    (fun j => (update handed i h j).objects) =
      update (fun j => (handed j).objects) i h.objects := by
  funext j
  by_cases hj : j = i
  · subst hj
    simp
  · simp [hj]

theorem update_relations (i : ι) (h : Handed) :
    (fun j => (update handed i h j).relations) =
      update (fun j => (handed j).relations) i h.relations := by
  funext j
  by_cases hj : j = i
  · subst hj
    simp
  · simp [hj]

theorem apart_step {t : Store} (ht : t.Valid)
    (h : Apart s t (fun j => (handed j).objects) fun j => (handed j).relations)
    (ho : ∀ j, ∀ x ∈ (handed j).objects, x ∈ t.objects.map (·.id))
    (hr : ∀ j, ∀ x ∈ (handed j).relations, x ∈ t.relations.map (·.id)) {i : ι} {e e' : Effect}
    (he : SameEffect ((handed i).objectNames (start i)) ((handed i).relationNames (start i)) e e') :
    Apart s (applyEffect t e') (fun j => (update handed i ((handed i).after t e') j).objects)
      fun j => (update handed i ((handed i).after t e') j).relations := by
  rw [update_objects, update_relations]
  have hsame : ∀ own : ι → List ℕ, update own i (own i) = own :=
    fun own => Function.update_eq_self i own
  have hannotate : Annotates (handed i) e' → (handed i).after t e' = handed i →
      Apart s (applyEffect t e')
        (update (fun j => (handed j).objects) i ((handed i).after t e').objects)
        (update (fun j => (handed j).relations) i ((handed i).after t e').relations) := by
    intro ha hafter
    rw [hafter, hsame, hsame]
    exact h.annotate (i := i) ha
  cases he with
  | createObject p n type now now' =>
    rw [show ((handed i).after t (.createObject p n type now')).relations = (handed i).relations
      from rfl, hsame]
    exact h.createObject i (fun j hx => id_ne_nextObject ht (ho j _ hx) rfl) p n type now'
  | addRelation type hf hd =>
    rw [show ((handed i).after t (.addRelation _ _ type)).objects = (handed i).objects from rfl,
      hsame]
    exact h.addRelation i (fun j hx => id_ne_nextRelation ht (hr j _ hx) rfl) _ _ type
  | addObjectProperty p k v type hij => exact hannotate hij.mem rfl
  | addRelationProperty p k v type hij => exact hannotate hij.mem rfl
  | addPrefix p iri hij => exact hannotate hij.mem rfl

variable {srv srv' : Server}

theorem Invariant.refused (h : Invariant V start s alone c handed) {i : ι} {q q' : Request}
    {k k' : Answer → Program α} (hd : (alone i).1 = .ask q k) (hd' : c.programs i = .ask q' k')
    {w₀ w : World} (hw₀ : w₀.store = (alone i).2.store) (hw : w.store = c.state.store) (x : Answer)
    (hx : x.2 = none) :
    Invariant V start s (update alone i (k x, w₀)) ⟨update c.programs i (k' x), w⟩ handed where
  control := by
    intro j O R hO hR
    by_cases hj : j = i
    · subst hj
      have hrel := h.control j O R hO hR
      rw [hd, hd'] at hrel
      simp only [Function.update_self]
      cases hrel with
      | ask _ hk => exact hk x x ⟨rfl, hx ▸ .none⟩
    · simp only [Function.update_of_ne hj]
      exact h.control j O R hO hR
  parts := by
    intro j
    by_cases hj : j = i
    · subst hj
      rw [Function.update_self, hw₀, hw]
      exact h.parts j
    · rw [Function.update_of_ne hj, hw]
      exact h.parts j
  apart := hw ▸ h.apart
  reachable := hw ▸ h.reachable

theorem Invariant.executed (hstart : ∀ i, (start i).Valid)
    (h : Invariant V start s alone c handed) {i : ι} {q q' : Request} {k k' : Answer → Program α}
    (hd : (alone i).1 = .ask q k) (hd' : c.programs i = .ask q' k') {now now' : ℕ} {e e' : Effect}
    (hq : effectOf now q = some e) (hq' : effectOf now' q' = some e')
    (he : SameEffect ((handed i).objectNames (start i)) ((handed i).relationNames (start i)) e e')
    {w₀ w : World} (hw₀ : w₀.store = applyEffect (alone i).2.store e)
    (hw : w.store = applyEffect c.state.store e') :
    Invariant V start s (update alone i (k (replyTo (alone i).2.store e), w₀))
      ⟨update c.programs i (k' (replyTo c.state.store e')), w⟩
      (update handed i ((handed i).after c.state.store e')) where
  control := by
    intro j O R hO hR
    by_cases hj : j = i
    · subst hj
      rw [Function.update_self] at hO hR
      have hgrow : ∀ a b, (handed j).objectNames (start j) a b → O a b := by
        intro a b hab
        apply hO
        cases e' with
        | createObject p n type now => exact hab.mono _
        | _ => exact hab
      have hgrow' : ∀ a b, (handed j).relationNames (start j) a b → R a b := by
        intro a b hab
        apply hR
        cases e' with
        | addRelation f o type => exact hab.mono _
        | _ => exact hab
      have hrel := h.control j O R hgrow hgrow'
      rw [hd, hd'] at hrel
      simp only [Function.update_self]
      cases hrel with
      | ask _ hk => exact hk _ _ (sameAnswer_reply (h.parts j) hq he hO hR)
    · rw [Function.update_of_ne hj] at hO hR
      simp only [Function.update_of_ne hj]
      exact h.control j O R hO hR
  parts := by
    intro j
    have ht := h.reachable.valid
    by_cases hj : j = i
    · subst hj
      rw [Function.update_self, Function.update_self, hw₀, hw]
      exact (h.parts j).step (hstart j) ht h.apart.nextObject h.apart.nextRelation he
    · rw [Function.update_of_ne hj, Function.update_of_ne hj, hw]
      refine (h.parts j).others ht ?_
      cases he with
      | createObject p n type now now' => exact trivial
      | addRelation type hf ho => exact trivial
      | addObjectProperty p k v type hij => exact h.apart.objectIds i j (Ne.symm hj) _ hij.mem
      | addRelationProperty p k v type hij => exact h.apart.relationIds i j (Ne.symm hj) _ hij.mem
      | addPrefix p iri hij => exact h.apart.objectIds i j (Ne.symm hj) _ hij.mem
  apart := by
    rw [hw]
    exact apart_step h.reachable.valid h.apart (fun j x hx => ((h.parts j).storedObjects x hx).2)
      (fun j x hx => ((h.parts j).storedRelations x hx).2) he
  reachable := hw ▸ applyEffect_reachable h.reachable (effectOf_some hq').1

theorem Invariant.step (hsrv : Reliable srv) (hsrv' : Reliable srv') (hs : s.Valid)
    (hstart : ∀ i, (start i).Valid) (h : Invariant V start s alone c handed) (i : ι) :
    ∃ handed', Invariant V start s (update alone i (turn (answer srv') (alone i)))
      (takeTurn (answer srv) c i) handed' := by
  have hended : turn (answer srv') (alone i) = alone i →
      turn (answer srv) (c.programs i, c.state) = (c.programs i, c.state) →
      ∃ handed', Invariant V start s (update alone i (turn (answer srv') (alone i)))
        (takeTurn (answer srv) c i) handed' := by
    intro hl hr
    rw [hl, Function.update_eq_self, takeTurn_of_turn hr]
    exact ⟨handed, h⟩
  rcases (h.asAlone.control i).cases with ⟨a, a', hd, hd', -⟩ | ⟨e, hd, hd'⟩ |
      ⟨q, q', k, k', hd, hd', hq, -⟩
  · exact hended (turn_of_done hd) (turn_of_done hd')
  · exact hended (turn_of_exit hd) (turn_of_exit hd')
  · obtain ⟨hx, hw⟩ := (adds_of_same hsrv' hq (alone i).2).1
    obtain ⟨hx', hw'⟩ := (adds_of_same hsrv hq c.state).2
    obtain ⟨hO, hR⟩ := names_ne_zero (hstart i) hs (h.parts i)
    have heffect := effectOf_same hq hO hR (srv'.clock (alone i).2.calls) (srv.clock c.state.calls)
    rw [takeTurn, turn_of_ask hd, turn_of_ask hd', hx, hx']
    revert hw hw'
    generalize hq₀ : effectOf (srv'.clock (alone i).2.calls) q = e at heffect
    generalize hq₁ : effectOf (srv.clock c.state.calls) q' = e' at heffect
    intro hw hw'
    cases heffect with
    | none => exact ⟨handed, h.refused hd hd' hw hw' _ rfl⟩
    | some he => exact ⟨_, h.executed hstart hd hd' hq₀ hq₁ he hw hw'⟩

theorem exists_invariant (hsrv : Reliable srv) (hsrv' : Reliable srv') {programs : ι → Program α}
    (hclosed : ∀ i, Closed V (programs i)) (hs : s.Reachable) (calls : ℕ) {first : ι → World}
    (hfirst : ∀ i, (first i).store.Reachable) (schedule : List ι) :
    ∃ handed, Invariant V (fun i => (first i).store) s
      (fun i => turns (answer srv') (schedule.count i) (programs i, first i))
      (runTrace (takeTurn (answer srv)) ⟨programs, ⟨s, calls⟩⟩ schedule) handed := by
  have hnone : ∃ handed, Invariant V (fun i => (first i).store) s
      (fun i => (programs i, first i)) ⟨programs, ⟨s, calls⟩⟩ handed := by
    refine ⟨fun _ => ⟨[], []⟩, fun i O R _ _ => hclosed i O R, fun i => part_start _ s, ?_, hs⟩
    refine ⟨?_, ?_, Grows.refl s, Nat.le_refl _, Nat.le_refl _, ?_, ?_, ?_, ?_, ?_⟩
    · exact fun i j _ x hx => absurd hx List.not_mem_nil
    · exact fun i j _ x hx => absurd hx List.not_mem_nil
    all_goals exact fun r hr => Or.inl hr
  exact runTrace_alone
    (I := fun alone c => ∃ handed, Invariant V (fun i => (first i).store) s alone c handed)
    (fun alone c i ⟨handed, h⟩ => h.step hsrv hsrv' hs.valid (fun i => (hfirst i).valid) i)
    hnone schedule

end Steps

/-- In every order of turns each client of closed programs is where it would be after as many
turns alone. -/
theorem clients_as_alone [DecidableEq ι] {srv srv' : Server} (hsrv : Reliable srv)
    (hsrv' : Reliable srv') {V : (ℕ → ℕ → Prop) → (ℕ → ℕ → Prop) → α → α → Prop}
    {programs : ι → Program α} (hclosed : ∀ i, Closed V (programs i)) {s : Store}
    (hs : s.Reachable) (calls : ℕ) (start : ι → World) (hstart : ∀ i, (start i).store.Reachable)
    (schedule : List ι) : ∃ handed, AsAlone V (fun i => (start i).store) s
      (fun i => turns (answer srv') (schedule.count i) (programs i, start i))
      (runTrace (takeTurn (answer srv)) ⟨programs, ⟨s, calls⟩⟩ schedule) handed := by
  obtain ⟨handed, h⟩ := exists_invariant hsrv hsrv' hclosed hs calls hstart schedule
  exact ⟨handed, h.asAlone⟩

def usageProgram : Program ℕ :=
  importProgram ImportAccepts.usageParse ImportAccepts.usageText "b" [] 0

theorem clients_as_alone_usage : ∃ handed,
    AsAlone (fun O _ => O) (fun _ => .fresh) .fresh
      (fun i => turns (answer .ideal) ([true, false, true].count i)
        (usageProgram, (⟨.fresh, 0⟩ : World)))
      (runTrace (takeTurn (answer .ideal)) ⟨fun _ => usageProgram, ⟨.fresh, 0⟩⟩
        [true, false, true]) handed :=
  clients_as_alone Server.ideal_reliable Server.ideal_reliable
    (fun _ => closed_importProgram ImportAccepts.usageParse ImportAccepts.usageText "b") .fresh 0
    (fun _ => ⟨.fresh, 0⟩) (fun _ => .fresh) [true, false, true]

end ConcurrentClients
