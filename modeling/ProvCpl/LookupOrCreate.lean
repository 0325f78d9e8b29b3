import ProvCpl.EventTrace
import ProvCpl.ServerSpecs
import Mathlib.Logic.Function.Basic

/-! # Look up an object or create it

Clients of one host share a named semaphore opened with value 1. A call waits on it, looks the
object up, creates it when it is not found, and posts; every path leads to the one post. The
steps of the clients interleave with each other and with the calls of other clients. -/
namespace LookupOrCreate

open CplTypes ProvStore ProvServer ServerSpecs EventTrace EarlyExit
open Function (update)

abbrev Report := ReturnCode × Option ℕ

inductive Phase where
  | idle
  | admitted
  | missed
  | leaving (out : Report)
  deriving DecidableEq, Repr

structure Request where
  nsPrefix : String
  name : String
  type : ℤ

/-- The lookup ends the call unless nothing was found. -/
def afterLookup (out : Report) : Phase := if out.1 ≠ .notFound then .leaving out else .missed

def afterCreate (out : Report) : Phase :=
  .leaving (if out.1.IsOk then .objectCreated else out.1, out.2)

def Request.lookup (q : Request) (srv : Server) : Call World Report :=
  srv.lookupObject (some q.nsPrefix) (some q.name) q.type

def Request.create (q : Request) (srv : Server) : Call World Report :=
  srv.createObject (some q.nsPrefix) (some q.name) q.type

/-- The semaphore, the number of posts to it, and the server's side. -/
structure Shared where
  sem : ℕ
  posts : ℕ
  world : World

def Shared.post (s : Shared) : Shared := { s with sem := s.sem + 1, posts := s.posts + 1 }

/-- One call on its own, from a semaphore that lets it pass. -/
def cplLookupOrCreateObject (srv : Server) (q : Request) : Call Shared Report := fun s =>
  if srv.attached then
    let found := q.lookup srv s.world
    if found.1.1 ≠ .notFound then (found.1, Shared.post ⟨s.sem - 1, s.posts, found.2⟩)
    else
      let made := q.create srv found.2
      ((if made.1.1.IsOk then .objectCreated else made.1.1, made.1.2),
        Shared.post ⟨s.sem - 1, s.posts, made.2⟩)
  else ((.notInitialized, none), s)

/-- On every path the call posts once and gives the permit back. -/
theorem cplLookupOrCreateObject_posts {srv : Server} (ha : srv.attached = true) (q : Request)
    {s : Shared} (hs : 0 < s.sem) : (cplLookupOrCreateObject srv q s).2.sem = s.sem ∧
      (cplLookupOrCreateObject srv q s).2.posts = s.posts + 1 := by
  unfold cplLookupOrCreateObject Shared.post
  rw [if_pos ha]
  dsimp only
  split
  · exact ⟨Nat.sub_add_cancel hs, rfl⟩
  · exact ⟨Nat.sub_add_cancel hs, rfl⟩

variable {T : Type*}

structure State (T : Type*) where
  shared : Shared
  clients : T → Phase
  completed : List Report

def initial (w : World) : State T := ⟨⟨1, 0, w⟩, fun _ => .idle, []⟩

inductive Event (T : Type*) where
  | wait (t : T)
  | lookup (t : T)
  | create (t : T)
  | post (t : T)
  | other (w : World)

def Request.named (q : Request) (w : World) : List ObjectRow :=
  w.store.objectsNamed q.nsPrefix q.name q.type

/-- Other calls may do anything but create or remove such an object. -/
def Enabled (srv : Server) (q : Request) (s : State T) : Event T → Prop
  | .wait t => srv.attached = true ∧ s.clients t = .idle ∧ 0 < s.shared.sem
  | .lookup t => s.clients t = .admitted
  | .create t => s.clients t = .missed
  | .post t => ∃ out, s.clients t = .leaving out
  | .other w => q.named w = q.named s.shared.world

variable [DecidableEq T]

def next (srv : Server) (q : Request) (s : State T) : Event T → State T
  | .wait t => { s with
      shared := { s.shared with sem := s.shared.sem - 1 }
      clients := update s.clients t .admitted }
  | .lookup t =>
    let found := q.lookup srv s.shared.world
    { s with
      shared := { s.shared with world := found.2 }
      clients := update s.clients t (afterLookup found.1) }
  | .create t =>
    let made := q.create srv s.shared.world
    { s with
      shared := { s.shared with world := made.2 }
      clients := update s.clients t (afterCreate made.1) }
  | .post t =>
    match s.clients t with
    | .leaving out => ⟨s.shared.post, update s.clients t .idle, s.completed ++ [out]⟩
    | _ => s
  | .other w => { s with shared := { s.shared with world := w } }

variable {srv : Server} {q : Request} {s : State T} {t : T}

theorem solo_run (ha : srv.attached = true) (hs : 0 < s.shared.sem) (ht : s.clients t = .idle) :
    ∃ events, EachStep (next srv q) (Enabled srv q) s events ∧
      (runTrace (next srv q) s events).shared = (cplLookupOrCreateObject srv q s.shared).2 ∧
      (runTrace (next srv q) s events).completed =
        s.completed ++ [(cplLookupOrCreateObject srv q s.shared).1] := by
  by_cases hf : (q.lookup srv s.shared.world).1.1 = .notFound
  · refine ⟨[.wait t, .lookup t, .create t, .post t], ?_, ?_, ?_⟩
    · simp [EachStep, Enabled, next, afterLookup, afterCreate, ha, hs, ht, hf]
    · simp [next, afterCreate, cplLookupOrCreateObject, Shared.post, ha, hf]
    · simp [next, afterCreate, cplLookupOrCreateObject, ha, hf]
  · refine ⟨[.wait t, .lookup t, .post t], ?_, ?_, ?_⟩
    · simp [EachStep, Enabled, next, afterLookup, ha, hs, ht, hf]
    · simp [next, afterLookup, cplLookupOrCreateObject, Shared.post, ha, hf]
    · simp [next, afterLookup, cplLookupOrCreateObject, ha, hf]

structure Alone (s : State T) (t : T) : Prop where
  permit : s.shared.sem = 0
  inside : s.clients t ≠ .idle
  others : ∀ u, u ≠ t → s.clients u = .idle

/-- The semaphore is 1 when nobody is inside and 0 when one client is. -/
structure Exclusive (s : State T) : Prop where
  posts : s.shared.posts = s.completed.length
  permit : (s.shared.sem = 1 ∧ ∀ t, s.clients t = .idle) ∨ ∃ t, Alone s t

omit [DecidableEq T] in
theorem initial_exclusive (w : World) : Exclusive (initial w : State T) :=
  ⟨rfl, Or.inl ⟨rfl, fun _ => rfl⟩⟩

theorem Exclusive.alone (h : Exclusive s) (ht : s.clients t ≠ .idle) : Alone s t := by
  rcases h.permit with ⟨-, hi⟩ | ⟨u, hu⟩
  · exact absurd (hi t) ht
  · by_cases htu : t = u
    · exact htu ▸ hu
    · exact absurd (hu.others t htu) ht

omit [DecidableEq T] in
theorem Alone.only (h : Alone s t) {u : T} (hu : s.clients u ≠ .idle) : u = t := by
  by_contra hne
  exact hu (h.others u hne)

/-- A step inside the guarded region moves one client only. -/
theorem Alone.moves (h : Alone s t) {p : Phase} (hp : p ≠ .idle) (w : World) :
    Alone { s with
      shared := { s.shared with world := w }
      clients := update s.clients t p } t where
  permit := h.permit
  inside := by simpa using hp
  others := fun u hu => by simpa [hu] using h.others u hu

theorem afterLookup_ne_idle (out : Report) : afterLookup out ≠ .idle := by
  unfold afterLookup
  split <;> simp

theorem afterCreate_ne_idle (out : Report) : afterCreate out ≠ .idle := by
  simp [afterCreate]

theorem step_preserves_exclusive (h : Exclusive s) {e : Event T} (he : Enabled srv q s e) :
    Exclusive (next srv q s e) := by
  cases e with
  | wait t =>
    obtain ⟨-, ht, hpos⟩ := he
    refine ⟨h.posts, Or.inr ⟨t, ?_⟩⟩
    rcases h.permit with ⟨hsem, hi⟩ | ⟨u, hu⟩
    · refine ⟨by simp [next, hsem], by simp [next], fun u hu => by simp [next, hu, hi]⟩
    · rw [hu.permit] at hpos
      exact absurd hpos (by omega)
  | lookup t =>
    have ha := h.alone (t := t) (by rw [show s.clients t = .admitted from he]; simp)
    exact ⟨h.posts, Or.inr ⟨t, ha.moves (afterLookup_ne_idle _) _⟩⟩
  | create t =>
    have ha := h.alone (t := t) (by rw [show s.clients t = .missed from he]; simp)
    exact ⟨h.posts, Or.inr ⟨t, ha.moves (afterCreate_ne_idle _) _⟩⟩
  | post t =>
    obtain ⟨out, ht⟩ := he
    have ha := h.alone (t := t) (by rw [ht]; simp)
    refine ⟨by simp [next, ht, Shared.post, h.posts], Or.inl ⟨?_, fun u => ?_⟩⟩
    · simp [next, ht, Shared.post, ha.permit]
    · by_cases hu : u = t
      · simp [next, ht, hu]
      · simpa [next, ht, hu] using ha.others u hu
  | other w =>
    refine ⟨h.posts, h.permit.imp id ?_⟩
    rintro ⟨t, ht⟩
    exact ⟨t, ht.permit, ht.inside, ht.others⟩

/-- Nobody has found the object, one client is about to report its creation, or all know it. -/
inductive Stage (q : Request) (s : State T) : Prop where
  | absent (none_named : q.named s.shared.world = []) (nobody : s.completed = [])
      (phases : ∀ t out, s.clients t ≠ .leaving out)
  | created (r : ObjectRow) (named : q.named s.shared.world = [r]) (nobody : s.completed = [])
      (t : T) (creator : s.clients t = .leaving (.objectCreated, some r.id))
  | known (r : ObjectRow) (named : q.named s.shared.world = [r])
      (phases : ∀ t, s.clients t ≠ .missed ∧ ∀ out, s.clients t = .leaving out →
        out = (.ok, some r.id))
      (reports : ∀ out ∈ s.completed, out.2 = some r.id)
      (once : s.completed.countP (·.1 = .objectCreated) = 1)

omit [DecidableEq T] in
theorem initial_stage {w : World} (h : q.named w = []) : Stage q (initial w : State T) :=
  .absent h rfl fun _ _ => by simp [initial]

theorem named_insertObject (q : Request) (w : World) (now n : ℕ) :
    q.named ⟨w.store.insertObject q.nsPrefix q.name q.type now, n⟩ = q.named w ++
      [⟨w.store.nextObject, some q.nsPrefix, some q.name, some q.type, now⟩] := by
  simp [Request.named, Store.objectsNamed, Store.insertObject]

section Reliable

variable (hsrv : Reliable srv)

include hsrv

theorem lookup_absent {w : World} (h : q.named w = []) :
    q.lookup srv w = ((.notFound, none), ⟨w.store, w.calls + 1⟩) := by
  have hnil : srv.scan w.calls (w.store.objectsNamed q.nsPrefix q.name q.type) = [] := by
    rw [show w.store.objectsNamed q.nsPrefix q.name q.type = [] from h]
    exact List.perm_nil.mp (srv.scan_perm _ [])
  simp [Request.lookup, lookupObject_reliable hsrv, hnil, latest]

theorem lookup_present {w : World} {r : ObjectRow} (h : q.named w = [r]) :
    q.lookup srv w = ((.ok, some r.id), ⟨w.store, w.calls + 1⟩) := by
  have hone : srv.scan w.calls (w.store.objectsNamed q.nsPrefix q.name q.type) = [r] := by
    rw [show w.store.objectsNamed q.nsPrefix q.name q.type = [r] from h]
    exact List.perm_singleton.mp (srv.scan_perm _ [r])
  simp [Request.lookup, lookupObject_reliable hsrv, hone, latest]

omit hsrv in
theorem Stage.wait (hx : Exclusive s) (h : Stage q s) (he : Enabled srv q s (.wait t)) :
    Stage q (next srv q s (.wait t)) := by
  obtain ⟨-, ht, hpos⟩ := he
  cases h with
  | absent hn hc hp =>
    refine .absent hn hc fun u out => ?_
    by_cases hu : u = t
    · simp [next, hu]
    · simpa [next, hu] using hp u out
  | created r hn hc u hu =>
    have ha := hx.alone (t := u) (by simp [hu])
    rw [ha.permit] at hpos
    exact absurd hpos (by omega)
  | known r hn hp hr ho =>
    refine .known r hn (fun u => ?_) hr ho
    by_cases hu : u = t
    · simp [next, hu]
    · simpa [next, hu] using hp u

theorem Stage.lookup (hx : Exclusive s) (h : Stage q s) (he : Enabled srv q s (.lookup t)) :
    Stage q (next srv q s (.lookup t)) := by
  have ht : s.clients t = .admitted := he
  cases h with
  | absent hn hc hp =>
    refine .absent ?_ hc fun u out => ?_
    · simp only [next, lookup_absent hsrv hn]
      exact hn
    · by_cases hu : u = t
      · simp [next, hu, lookup_absent hsrv hn, afterLookup]
      · simpa [next, hu] using hp u out
  | created r hn hc u hu =>
    have ha := hx.alone (t := u) (by simp [hu])
    rw [← ha.only (u := t) (by simp [ht]), ht] at hu
    cases hu
  | known r hn hp hr ho =>
    refine .known r ?_ (fun u => ?_) hr ho
    · simp only [next, lookup_present hsrv hn]
      exact hn
    · by_cases hu : u = t
      · simp [next, hu, lookup_present hsrv hn, afterLookup]
      · simpa [next, hu] using hp u

theorem Stage.create (hq : EnsureOType q.type) (hx : Exclusive s) (h : Stage q s)
    (he : Enabled srv q s (.create t)) : Stage q (next srv q s (.create t)) := by
  have ht : s.clients t = .missed := he
  cases h with
  | absent hn hc hp =>
    have hcreate := createObject_reliable hsrv q.nsPrefix q.name hq s.shared.world
    refine .created ⟨s.shared.world.store.nextObject, some q.nsPrefix, some q.name,
      some q.type, srv.clock s.shared.world.calls⟩ ?_ hc t ?_
    · simp only [next, Request.create, hcreate, named_insertObject, hn, List.nil_append]
    · simp [next, Request.create, hcreate, afterCreate]
  | created r hn hc u hu =>
    have ha := hx.alone (t := u) (by simp [hu])
    rw [← ha.only (u := t) (by simp [ht]), ht] at hu
    cases hu
  | known r hn hp hr ho => exact absurd ht (hp t).1

omit hsrv in
theorem Stage.post (hx : Exclusive s) (h : Stage q s) (he : Enabled srv q s (.post t)) :
    Stage q (next srv q s (.post t)) := by
  obtain ⟨out, ht⟩ := he
  cases h with
  | absent hn hc hp => exact absurd ht (hp t out)
  | created r hn hc u hu =>
    have ha := hx.alone (t := u) (by simp [hu])
    obtain rfl := ha.only (u := t) (by simp [ht])
    obtain rfl := Phase.leaving.inj (ht.symm.trans hu)
    refine .known r ?_ (fun v => ?_) ?_ ?_
    · simpa [next, ht, Shared.post] using hn
    · by_cases hv : v = t
      · simp [next, ht, hv]
      · simp [next, ht, hv, ha.others v hv]
    · simp [next, ht, hc]
    · simp [next, ht, hc]
  | known r hn hp hr ho =>
    obtain rfl := (hp t).2 out ht
    refine .known r ?_ (fun v => ?_) ?_ ?_
    · simpa [next, ht, Shared.post] using hn
    · by_cases hv : v = t
      · simp [next, ht, hv]
      · simpa [next, ht, hv] using hp v
    · simp only [next, ht, List.mem_append, List.mem_singleton]
      rintro o (h | rfl)
      · exact hr o h
      · rfl
    · simpa [next, ht] using ho

omit hsrv in
theorem Stage.other (h : Stage q s) {w : World} (he : Enabled srv q s (.other w)) :
    Stage q (next srv q s (.other w)) := by
  have hw : q.named w = q.named s.shared.world := he
  cases h with
  | absent hn hc hp => exact .absent (hw.trans hn) hc hp
  | created r hn hc u hu => exact .created r (hw.trans hn) hc u hu
  | known r hn hp hr ho => exact .known r (hw.trans hn) hp hr ho

theorem step_preserves_stage (hq : EnsureOType q.type) (hx : Exclusive s) (h : Stage q s)
    {e : Event T} (he : Enabled srv q s e) : Stage q (next srv q s e) := by
  cases e with
  | wait t => exact h.wait hx he
  | lookup t => exact h.lookup hsrv hx he
  | create t => exact h.create hsrv hq hx he
  | post t => exact h.post hx he
  | other w => exact h.other he

end Reliable

/-- Each completed call has posted once, and the permit is back when no call is in progress. -/
structure PermitReturned (s : State T) : Prop where
  posted_once : s.shared.posts = s.completed.length
  at_rest : (∀ t, s.clients t = .idle) → s.shared.sem = 1

/-- One object, one call that reports its creation, one id. -/
structure CreatedOnce (q : Request) (s : State T) : Prop where
  one_object : (q.named s.shared.world).length ≤ 1
  one_creator : s.completed ≠ [] → s.completed.countP (·.1 = .objectCreated) = 1
  same_id : ∃ id, ∀ out ∈ s.completed, out.2 = some id

omit [DecidableEq T] in
theorem Exclusive.permitReturned (h : Exclusive s) : PermitReturned s where
  posted_once := h.posts
  at_rest := fun hi => by
    rcases h.permit with ⟨hs, -⟩ | ⟨t, ht⟩
    · exact hs
    · exact absurd (hi t) ht.inside

omit [DecidableEq T] in
theorem Stage.createdOnce (h : Stage q s) : CreatedOnce q s := by
  cases h with
  | absent hn hc hp => exact ⟨by simp [hn], fun h => absurd hc h, ⟨0, by simp [hc]⟩⟩
  | created r hn hc t ht => exact ⟨by simp [hn], fun h => absurd hc h, ⟨0, by simp [hc]⟩⟩
  | known r hn hp hr ho => exact ⟨by simp [hn], fun _ => ho, ⟨r.id, hr⟩⟩

theorem lookupOrCreate_atomic (srv : Server) (q : Request) (hq : EnsureOType q.type)
    (w : World) (habsent : q.named w = []) (events : List (Event T))
    (hrun : EachStep (next srv q) (Enabled srv q) (initial w) events) :
    Throughout (next srv q) PermitReturned (initial w) events ∧
      (Reliable srv → Throughout (next srv q) (CreatedOnce q) (initial w) events) := by
  refine ⟨?_, fun hsrv => ?_⟩
  · have step : ∀ (s : State T) e, Exclusive s → Enabled srv q s e → Exclusive (next srv q s e) :=
      fun s e hx he => step_preserves_exclusive hx he
    exact (throughout_of_step step (initial_exclusive w) hrun).imp fun s h => h.permitReturned
  · have step : ∀ (s : State T) e, Exclusive s ∧ Stage q s → Enabled srv q s e →
        Exclusive (next srv q s e) ∧ Stage q (next srv q s e) := fun s e h he =>
      ⟨step_preserves_exclusive h.1 he, step_preserves_stage hsrv hq h.1 h.2 he⟩
    exact (throughout_of_step step ⟨initial_exclusive w, initial_stage habsent⟩ hrun).imp
      fun s h => h.2.createdOnce

def alice : Request := ⟨"ex", "alice", cplAgent⟩

def twoCalls : List (Event Bool) :=
  [.wait true, .lookup true, .create true, .post true, .wait false, .lookup false, .post false]

theorem lookupOrCreate_atomic_two :
    let final := runTrace (next .ideal alice) (initial ⟨.fresh, 0⟩) twoCalls
    final.completed = [(.objectCreated, some 1), (.ok, some 1)] ∧
      PermitReturned final ∧ CreatedOnce alice final := by
  have hrun : EachStep (next .ideal alice) (Enabled .ideal alice) (initial ⟨.fresh, 0⟩)
      twoCalls := by
    refine ⟨⟨rfl, rfl, Nat.one_pos⟩, rfl, rfl, ⟨_, rfl⟩, ⟨rfl, rfl, Nat.one_pos⟩, rfl, ⟨_, rfl⟩,
      trivial⟩
  have h := lookupOrCreate_atomic .ideal alice (by decide) ⟨.fresh, 0⟩ rfl twoCalls hrun
  exact ⟨rfl, h.1.last, (h.2 Server.ideal_reliable).last⟩

end LookupOrCreate
