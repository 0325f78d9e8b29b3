import ProvCpl.ConcurrentClients

/-! # Imports in any order of turns

Imports into one database whose statements come in any order each return what they would return
alone. What the database tells about the ids of one of them is what it would tell if there were
no others, up to the numbers. -/
namespace InterleavedImports

open CplTypes JsonValue ProvStore ProvServer ServerSpecs ImportDocument InsertOnce StoreHistory
open ClientPrograms SharedDatabase ConcurrentClients TakingTurns EarlyExit EventTrace

variable {ι α : Type}

/-- The rows that queries about the ids of a client find. -/
structure AnsweredAlike (O R : ℕ → ℕ → Prop) (t₀ t : Store) : Prop where
  infos : ∀ i j, O i j → List.Forall₂ (ObjectAlike O) (t₀.objects.filter fun r => r.id = i)
    (t.objects.filter fun r => r.id = j)
  ancestors : ∀ i j, O i j →
    List.Forall₂ (RelationAlike O R) (t₀.relationsFrom i) (t.relationsFrom j)
  members : ∀ i j, O i j →
    List.Forall₂ (RelationAlike O R) (t₀.bundleRelations i) (t.bundleRelations j)
  objectProperties : ∀ i j, O i j → ∀ p k type, List.Forall₂ (PropertyAlike O)
    (propertiesOf t₀.objectProperties i p k type) (propertiesOf t.objectProperties j p k type)
  relationProperties : ∀ i j, R i j → ∀ p k type, List.Forall₂ (PropertyAlike R)
    (propertiesOf t₀.relationProperties i p k type) (propertiesOf t.relationProperties j p k type)
  prefixes : ∀ i j, O i j → List.Forall₂ (PrefixAlike O)
    (t₀.prefixes.filter fun r => r.id = i) (t.prefixes.filter fun r => r.id = j)

section Queries

variable {V : (ℕ → ℕ → Prop) → (ℕ → ℕ → Prop) → α → α → Prop} {start : ι → Store} {s : Store}
  {alone : ι → Program α × World} {c : Shared ι Request Answer Stop α World}
  {handed : ι → Handed}

theorem rel_some {N : ℕ → ℕ → Prop} {i : Option ℕ} {y : ℕ} (h : Option.Rel N i (some y)) :
    ∃ x, i = some x ∧ N x y := by
  cases h with
  | some hx => exact ⟨_, rfl, hx⟩

/-- A relation that starts at an id of the client was added by the client. -/
theorem own_source (h : AsAlone V start s alone c handed) (hs : s.NoDangling) {i : ι} {x : ℕ}
    (hx : x ∈ (handed i).objects) {r : RelationRow} (hr : r ∈ c.state.store.relations)
    (hfrom : r.fromId = some x) : r.id ∈ (handed i).relations := by
  rcases h.apart.relations r hr with hr₀ | ⟨j, hj⟩
  · have hlt := (hs r hr₀).1 x hfrom
    exact absurd ((h.parts i).storedObjects x hx).1 (Nat.not_le.mpr hlt)
  · obtain ⟨r₀, -, hrel⟩ := (h.parts j).relations.exists_of_mem hr hj
    obtain ⟨y, -, hy⟩ := rel_some (hfrom ▸ hrel.source)
    by_cases hij : i = j
    · exact hij ▸ hj
    · exact absurd hy.mem (h.apart.objectIds i j hij x hx)

theorem relationsFrom_alike (h : AsAlone V start s alone c handed) (hs : s.NoDangling)
    (hstart : ∀ i, (start i).NoDangling) (i : ι) {x y : ℕ}
    (hxy : (handed i).objectNames (start i) x y) {p q : RelationRow → Prop} [DecidablePred p]
    [DecidablePred q] (hp : ∀ r, p r → r.fromId = some x) (hq : ∀ r, q r → r.fromId = some y)
    (hpq : ∀ r r' : RelationRow, r'.type = r.type → (r.fromId = some x ↔ r'.fromId = some y) →
      (p r ↔ q r')) :
    List.Forall₂ (RelationAlike ((handed i).objectNames (start i))
        ((handed i).relationNames (start i)))
      ((alone i).2.store.relations.filter fun r => p r)
      (c.state.store.relations.filter fun r => q r) := by
  refine (h.parts i).relations.filter (fun r hr hpr => ?_) (fun r hr hqr => ?_) fun r r' hr => ?_
  · have hlt := (hstart i r hr).1 x (hp r hpr)
    exact absurd hxy.le (Nat.not_le.mpr hlt)
  · exact own_source h hs hxy.mem hr (hq r hqr)
  · refine hpq r r' hr.type ?_
    have hsource := hr.source
    generalize r.fromId = f, r'.fromId = f' at hsource
    cases hsource with
    | none => simp
    | some hf =>
      rw [Option.some.injEq, Option.some.injEq]
      exact hf.inj hxy (h.parts i).objectIds

theorem portion_byId {β : Type} {Same : β → β → Prop} {first : ℕ} {ids : List ℕ} {id : β → ℕ}
    {base rows₀ rows : List β} (hp : Portion Same ids id base rows₀ rows) (hn : ids.Nodup)
    (hbase : ∀ r ∈ base, id r < first) (hsame : ∀ r r', Same r r' → Stands first ids (id r) (id r'))
    {x y : ℕ} (hxy : Stands first ids x y) {p : β → ℕ → Prop} [∀ i, DecidablePred (p · i)]
    (hid : ∀ r i, p r i → id r = i)
    (hpq : ∀ r r', Same r r' → (id r = x ↔ id r' = y) → (p r x ↔ p r' y)) :
    List.Forall₂ Same (rows₀.filter fun r => p r x) (rows.filter fun r => p r y) := by
  refine hp.filter (fun r hr hpr => ?_) (fun r _ hqr => hid r y hqr ▸ hxy.mem) fun r r' hr => ?_
  · have hlt := hbase r hr
    have hle := hxy.le
    have heq := hid r x hpr
    omega
  · exact hpq r r' hr ((hsame r r' hr).inj hxy hn)

theorem propertiesOf_alike {first : ℕ} {ids : List ℕ} {base rows₀ rows : List PropertyRow}
    (hp : Portion (PropertyAlike (Stands first ids)) ids (·.id) base rows₀ rows) (hn : ids.Nodup)
    (hbase : ∀ r ∈ base, r.id < first) {x y : ℕ} (hxy : Stands first ids x y)
    (p k : Option String) (type : ℤ) :
    List.Forall₂ (PropertyAlike (Stands first ids)) (propertiesOf rows₀ x p k type)
      (propertiesOf rows y p k type) := by
  have hshort : List.Forall₂ (PropertyAlike (Stands first ids))
      (rows₀.filter fun r => r.id = x ∧ r.type = type)
      (rows.filter fun r => r.id = y ∧ r.type = type) :=
    portion_byId (p := fun r i => r.id = i ∧ r.type = type) hp hn hbase (fun _ _ hr => hr.id) hxy
      (fun _ _ h => h.1) fun r r' hr hid => by rw [hr.row]; exact and_congr_left fun _ => hid
  cases p with
  | none => exact hshort
  | some p =>
    cases k with
    | none => exact hshort
    | some k =>
      refine portion_byId (p := fun r i => r.id = i ∧ r.nsPrefix = p ∧ r.name = k ∧ r.type = type)
        hp hn hbase (fun _ _ hr => hr.id) hxy (fun _ _ h => h.1) fun r r' hr hid => ?_
      rw [hr.row]
      exact and_congr_left fun _ => hid

theorem answered_alike (h : AsAlone V start s alone c handed) (hs : s.NoDangling)
    (hstart : ∀ i, (start i).NoDangling) (hvalid : ∀ i, (start i).Valid) (i : ι) :
    AnsweredAlike ((handed i).objectNames (start i)) ((handed i).relationNames (start i))
      (alone i).2.store c.state.store where
  infos := fun x y hxy => portion_byId (p := fun r j => r.id = j) (h.parts i).objects
    (h.parts i).objectIds (hvalid i).object_bound (fun _ _ hr => hr.id) hxy (fun _ _ hr => hr)
    fun _ _ _ hid => hid
  ancestors := fun x y hxy => relationsFrom_alike h hs hstart i hxy (fun _ hr => hr)
    (fun _ hr => hr) fun _ _ _ hfrom => hfrom
  members := by
    intro x y hxy
    have hmembers := relationsFrom_alike h hs hstart i hxy
      (p := fun r => r.fromId = some x ∧ r.type = some bundleRelation)
      (q := fun r => r.fromId = some y ∧ r.type = some bundleRelation) (fun _ hr => hr.1)
      (fun _ hr => hr.1) fun r r' htype hfrom => by rw [htype]; exact and_congr_left fun _ => hfrom
    have htypes : ∀ m ∈ (alone i).2.store.memberships x, m.type = some bundleRelation :=
      fun m hm => (of_decide_eq_true (List.mem_filter.mp hm).2).2
    refine List.rel_flatMap ((List.forall₂_and_left _ _).mpr ⟨htypes, hmembers⟩) ?_
    rintro m m' ⟨htype, hm⟩
    have hdest := hm.dest
    rw [if_pos htype] at hdest
    dsimp only
    generalize m.toId = o, m'.toId = o' at hdest ⊢
    cases hdest with
    | none => simp
    | @some a b hab =>
      simp only [Option.some.injEq]
      exact portion_byId (p := fun r j => j = r.id) (h.parts i).relations (h.parts i).relationIds
        (hvalid i).relation_bound (fun _ _ hr => hr.id) hab (fun _ _ hr => hr.symm)
        fun _ _ _ hid => eq_comm.trans (hid.trans eq_comm)
  objectProperties := fun x y hxy p k type => propertiesOf_alike (h.parts i).objectProperties
    (h.parts i).objectIds (fun q hq => ImportSimulation.stored_object_lt (hvalid i)
      ((hvalid i).objectProperty_owner q hq)) hxy p k type
  relationProperties := fun x y hxy p k type => propertiesOf_alike (h.parts i).relationProperties
    (h.parts i).relationIds (fun q hq => ImportSimulation.stored_relation_lt (hvalid i)
      ((hvalid i).relationProperty_owner q hq)) hxy p k type
  prefixes := fun x y hxy => portion_byId (p := fun r j => r.id = j) (h.parts i).prefixes
    (h.parts i).objectIds (fun q hq => ImportSimulation.stored_object_lt (hvalid i)
      ((hvalid i).prefix_owner q hq)) (fun _ _ hr => hr.id) hxy (fun _ _ hr => hr)
    fun _ _ _ hid => hid

end Queries

structure Job where
  jsonString : String
  bundleName : String

def Job.program (parse : String → Option Json) (j : Job) : Program ℕ :=
  importProgram parse j.jsonString j.bundleName [] 0

def Job.alone (parse : String → Option Json) (srv : Server) (j : Job) :
    World → (Stop × Option ℕ) × World :=
  importDocumentJson parse srv j.jsonString j.bundleName [] 0 (some 0)

def Returned (O : ℕ → ℕ → Prop) : Program ℕ → Stop × Option ℕ → Prop
  | .done b', out => out.1 = .ret .ok ∧ ∃ b, out.2 = some b ∧ O b b'
  | .exit e, out => out.1 = e ∧ e ≠ .ret .ok
  | .ask _ _, _ => False

structure Interleaved (parse : String → Option Json) (srv' : Server) (jobs : ι → Job)
    (start : ι → World) (s : Store) (finished : ι → Prop)
    (c : Shared ι Request Answer Stop ℕ World) (handed : ι → Handed) : Prop where
  apart : Apart s c.state.store (fun i => (handed i).objects) fun i => (handed i).relations
  returned : ∀ i, finished i → Returned ((handed i).objectNames (start i).store) (c.programs i)
    ((jobs i).alone parse srv' (start i)).1
  parts : ∀ i, finished i → Part (start i).store ((jobs i).alone parse srv' (start i)).2.store s
    c.state.store (handed i)
  answers : ∀ i, finished i → AnsweredAlike ((handed i).objectNames (start i).store)
    ((handed i).relationNames (start i).store) ((jobs i).alone parse srv' (start i)).2.store
    c.state.store

theorem job_alone {parse : String → Option Json} {srv : Server} (j : Job) (w : World)
    {O : ℕ → ℕ → Prop} {Q : Request → Request → Prop} {A : Request → Answer → Answer → Prop}
    {d : Program ℕ} (h : Related Q A O (ended ((j.program parse).run (answer srv) w).1) d) :
    Returned O d (j.alone parse srv w).1 ∧
      ((j.program parse).run (answer srv) w).2 = (j.alone parse srv w).2 := by
  revert h
  rw [Job.program, run_importProgram, Job.alone, importDocumentJson]
  rcases hrun : importDocument parse srv j.jsonString j.bundleName [] 0 w with ⟨r, w'⟩
  cases r with
  | ok b =>
    intro h
    cases h with
    | done hb => exact ⟨⟨rfl, b, rfl, hb⟩, rfl⟩
  | error e =>
    intro h
    cases h with
    | exit => exact ⟨⟨rfl, importDocument_exit (congrArg Prod.fst hrun)⟩, rfl⟩

/-- Imports without anchors and external objects, in any order of turns: each returns, once it
has had its turns, what it returns alone, and adds the same rows under ids of its own. -/
theorem imports_as_alone [DecidableEq ι] (parse : String → Option Json) {srv srv' : Server}
    (hsrv : Reliable srv) (hsrv' : Reliable srv') (jobs : ι → Job) {s : Store}
    (hs : s.Reachable) (hd : s.NoDangling) (calls : ℕ) {start : ι → World}
    (hstart : ∀ i, (start i).store.Reachable) (hdstart : ∀ i, (start i).store.NoDangling) :
    ∃ n : ι → ℕ, ∀ schedule : List ι, ∃ handed,
      Interleaved parse srv' jobs start s (fun i => n i ≤ schedule.count i)
        (runTrace (takeTurn (answer srv)) ⟨fun i => (jobs i).program parse, ⟨s, calls⟩⟩ schedule)
        handed := by
  have henough : ∀ i, ∃ n, ∀ m, n ≤ m →
      turns (answer srv') m ((jobs i).program parse, start i) =
        (ended (((jobs i).program parse).run (answer srv') (start i)).1,
          (((jobs i).program parse).run (answer srv') (start i)).2) :=
    fun i => exists_turns ((jobs i).program parse) (start i)
  choose n hn using henough
  refine ⟨n, fun schedule => ?_⟩
  have hclosed : ∀ i, Closed (fun O _ => O) ((jobs i).program parse) :=
    fun i => closed_importProgram parse (jobs i).jsonString (jobs i).bundleName
  obtain ⟨handed, hinvariant⟩ := exists_invariant hsrv hsrv' hclosed hs calls hstart schedule
  have h := hinvariant.asAlone
  have hanswers := answered_alike h hd hdstart fun i => (hstart i).valid
  have halone : ∀ i, n i ≤ schedule.count i → Returned ((handed i).objectNames (start i).store)
        ((runTrace (takeTurn (answer srv)) ⟨fun i => (jobs i).program parse, ⟨s, calls⟩⟩
          schedule).programs i) ((jobs i).alone parse srv' (start i)).1 ∧
      (turns (answer srv') (schedule.count i) ((jobs i).program parse, start i)).2 =
        ((jobs i).alone parse srv' (start i)).2 := by
    intro i hi
    have hcontrol := h.control i
    dsimp only at hcontrol
    rw [hn i _ hi] at hcontrol ⊢
    exact job_alone (jobs i) (start i) hcontrol
  refine ⟨handed, h.apart, fun i hi => (halone i hi).1, fun i hi => ?_, fun i hi => ?_⟩
  · exact (halone i hi).2 ▸ h.parts i
  · exact (halone i hi).2 ▸ hanswers i

def usageJobs (first : Bool) : Job := ⟨ImportAccepts.usageText, if first then "a" else "b"⟩

theorem imports_as_alone_usage : ∃ n : Bool → ℕ, ∀ schedule : List Bool, ∃ handed,
    Interleaved ImportAccepts.usageParse .ideal usageJobs (fun _ => ⟨.fresh, 0⟩) .fresh
      (fun i => n i ≤ schedule.count i) (runTrace (takeTurn (answer .ideal))
        ⟨fun i => (usageJobs i).program ImportAccepts.usageParse, ⟨.fresh, 0⟩⟩ schedule) handed :=
  imports_as_alone ImportAccepts.usageParse Server.ideal_reliable Server.ideal_reliable usageJobs
    .fresh Store.noDangling_fresh 0 (fun _ => .fresh) fun _ => Store.noDangling_fresh

example : [true, false].map (fun i => match (runTrace (takeTurn (answer .ideal))
      ⟨fun i => (usageJobs i).program ImportAccepts.usageParse, ⟨.fresh, 0⟩⟩
      ((List.range 7).flatMap fun _ => [true, false])).programs i with
    | .done b => some b
    | _ => none) = [some 1, some 2] := by decide +kernel

end InterleavedImports
