import ProvCpl.ApiEffects
import ProvCpl.ExportFrame

/-! # Bundles that other calls leave alone

Whatever an import does, and wherever it fails, its memberships start at its own bundle and its
properties belong to objects and relations of its own. So it does not show in the export of a
bundle that was there, and neither do other calls that put nothing into the bundle. -/
namespace ImportIsolation

open CplTypes JsonValue ProvStore ProvServer ServerSpecs ImportDocument ImportFrame StoreHistory
open ExportDocument ExportFrame ApiEffects EarlyExit

structure Settled (s : Store) (b : ℕ) : Prop where
  bundle : b < s.nextObject
  members : ∀ m ∈ s.memberships b, ∀ i, m.toId = some i → i < s.nextRelation
  ends : ∀ r ∈ s.bundleRelations b, ∀ i, r.fromId = some i ∨ r.toId = some i → i < s.nextObject

structure Untouched (s : Store) (bundles : List ℕ) (t : Store) : Prop where
  objects : ∃ l, t.objects = s.objects ++ l ∧ ∀ r ∈ l, s.nextObject ≤ r.id
  relations : ∃ l, t.relations = s.relations ++ l ∧ ∀ r ∈ l, s.nextRelation ≤ r.id ∧
    ∀ b ∈ bundles, ¬ (r.fromId = some b ∧ r.type = some bundleRelation)
  objectProperties : ∃ l, t.objectProperties = s.objectProperties ++ l ∧
    ∀ r ∈ l, ∀ b ∈ bundles, r.id ∉ (s.bundleObjects b).map (·.id)
  relationProperties : ∃ l, t.relationProperties = s.relationProperties ++ l ∧
    ∀ r ∈ l, ∀ b ∈ bundles, r.id ∉ (s.bundleRelations b).map (·.id)
  nextObject : s.nextObject ≤ t.nextObject
  nextRelation : s.nextRelation ≤ t.nextRelation

/-- An effect that puts nothing into these bundles; prefixes are not exported. -/
def Spares (s : Store) (bundles : List ℕ) : Effect → Prop
  | .addRelation f _ type => ∀ b ∈ bundles, ¬ (f = b ∧ type = bundleRelation)
  | .addObjectProperty r => ∀ b ∈ bundles, r.id ∉ (s.bundleObjects b).map (·.id)
  | .addRelationProperty r => ∀ b ∈ bundles, r.id ∉ (s.bundleRelations b).map (·.id)
  | _ => True

section Frame

variable {s t : Store} {bundles : List ℕ} {b : ℕ}

theorem Untouched.refl (s : Store) (bundles : List ℕ) : Untouched s bundles s where
  objects := ⟨[], by simp⟩
  relations := ⟨[], by simp⟩
  objectProperties := ⟨[], by simp⟩
  relationProperties := ⟨[], by simp⟩
  nextObject := Nat.le_refl _
  nextRelation := Nat.le_refl _

theorem Untouched.step (h : Untouched s bundles t) {e : Effect} (he : Spares s bundles e) :
    Untouched s bundles (applyEffect t e) := by
  cases e with
  | createObject p n type now =>
    exact { h with
      objects := append_row h.objects h.nextObject
      nextObject := Nat.le_succ_of_le h.nextObject }
  | addRelation f o type =>
    exact { h with
      relations := append_row h.relations ⟨h.nextRelation, fun b hb hr =>
        he b hb ⟨Option.some.inj hr.1, Option.some.inj hr.2⟩⟩
      nextRelation := Nat.le_succ_of_le h.nextRelation }
  | addObjectProperty r =>
    simp only [applyEffect]
    cases hins : t.insertObjectProperty r with
    | none => exact h
    | some u =>
      obtain ⟨-, rfl⟩ := insertObjectProperty_eq hins
      exact { h with objectProperties := append_once h.objectProperties he }
  | addRelationProperty r =>
    simp only [applyEffect]
    cases hins : t.insertRelationProperty r with
    | none => exact h
    | some u =>
      obtain ⟨-, rfl⟩ := insertRelationProperty_eq hins
      exact { h with relationProperties := append_once h.relationProperties he }
  | addPrefix r =>
    simp only [applyEffect]
    cases hins : t.insertPrefix r with
    | none => exact h
    | some u =>
      obtain ⟨-, rfl⟩ := insertPrefix_eq hins
      exact { h with }

theorem untouched_of_leads (h : Leads (Spares s bundles) s t) : Untouched s bundles t :=
  h.keeps (fun _ _ ht he => ht.step he) (Untouched.refl s bundles)

theorem filter_appended {α : Type} {rows rows' : List α} {New : α → Prop} {P : α → Prop}
    [DecidablePred P] (h : ∃ l, rows' = rows ++ l ∧ ∀ r ∈ l, New r) (hP : ∀ r, New r → ¬ P r) :
    (rows'.filter fun r => P r) = rows.filter fun r => P r := by
  obtain ⟨l, rfl, hl⟩ := h
  have hnone : (l.filter fun r => P r) = [] := by
    rw [List.filter_eq_nil_iff]
    exact fun r hr hp => hP r (hl r hr) (of_decide_eq_true hp)
  rw [List.filter_append, hnone, List.append_nil]

theorem Untouched.agreeOn (h : Untouched s bundles t) (hb : b ∈ bundles) (hs : Settled s b) :
    AgreeOn s t b := by
  have hmember : t.memberships b = s.memberships b :=
    filter_appended h.relations fun r hr => hr.2 b hb
  have hrelations : t.bundleRelations b = s.bundleRelations b := by
    rw [Store.bundleRelations, hmember, Store.bundleRelations]
    refine List.flatMap_congr fun m hm => filter_appended h.relations fun r hr hto => ?_
    exact absurd (hs.members m hm r.id hto) (Nat.not_lt.mpr hr.1)
  refine ⟨hrelations, ?_, fun r hr i hi => ?_, fun c hc type => ?_, fun r hr type => ?_⟩
  · rw [Store.bundleObjects, hrelations, Store.bundleObjects]
    refine congrArg List.dedup (List.flatMap_congr fun r hr => ?_)
    refine filter_appended h.objects fun c hc hend => ?_
    exact absurd (hs.ends r hr c.id hend) (Nat.not_lt.mpr hc)
  · refine filter_appended h.objects fun c hc he => ?_
    exact absurd (hs.ends r hr i hi) (Nat.not_lt.mpr (he ▸ hc))
  · refine filter_appended h.objectProperties fun q hq he => hq b hb ?_
    exact he.1 ▸ List.mem_map_of_mem hc
  · refine filter_appended h.relationProperties fun q hq he => hq b hb ?_
    exact he.1 ▸ List.mem_map_of_mem hr

end Frame

section Calls

variable {s t u : Store} {bundles : List ℕ}

/-- Properties of new ids spare what was there. -/
theorem spares_newObject (hs : s.Valid) {r : PropertyRow} (h : s.nextObject ≤ r.id) :
    Spares s bundles (.addObjectProperty r) := by
  intro b _ hmem
  obtain ⟨c, hc, hid⟩ := List.mem_map.mp hmem
  obtain ⟨q, -, hc⟩ := List.mem_flatMap.mp (List.mem_dedup.mp hc)
  exact absurd (hs.object_bound c (List.mem_filter.mp hc).1) (Nat.not_lt.mpr (hid ▸ h))

theorem spares_newRelation (hs : s.Valid) {r : PropertyRow} (h : s.nextRelation ≤ r.id) :
    Spares s bundles (.addRelationProperty r) := by
  intro b _ hmem
  obtain ⟨q, hq, hid⟩ := List.mem_map.mp hmem
  obtain ⟨m, -, hq⟩ := List.mem_flatMap.mp hq
  exact absurd (hs.relation_bound q (List.mem_filter.mp hq).1) (Nat.not_lt.mpr (hid ▸ h))

theorem leads_next {E : Effect → Prop} (h : Leads E u t) :
    u.nextObject ≤ t.nextObject ∧ u.nextRelation ≤ t.nextRelation := by
  have hall : Leads (Spares u []) u t := h.mono fun e _ => by cases e <;> simp [Spares]
  have hunt := untouched_of_leads hall
  exact ⟨hunt.nextObject, hunt.nextRelation⟩

/-- What an import that starts later writes for its own bundle and members spares the bundles
that were there. -/
theorem objectClosed_leads (hs : s.Valid) (hu : Untouched s bundles u) :
    ObjectClosed (Leads (Spares s bundles) u) u.nextObject where
  next := fun _ h => (leads_next h).1
  object := fun _ p n t now _ h => h.step (e := .createObject p n t now) trivial
  objectProperty := fun _ _ _ hr _ _ he h =>
    h.objectProperty (spares_newObject hs (Nat.le_trans hu.nextObject hr)) he
  prefixRow := fun _ _ r _ _ he h => h.prefixRow (r := r) trivial he

theorem relationClosed_leads (hs : s.Valid) (hset : ∀ b ∈ bundles, Settled s b)
    (hu : Untouched s bundles u) {own : ℕ} (hown : u.nextObject ≤ own) :
    RelationClosed (Leads (Spares s bundles) u) own u.nextRelation where
  next := fun _ h => (leads_next h).2
  relation := fun _ f o t _ _ _ hof h => h.step (e := .addRelation f o t) fun b hb hm => by
    have hmember := hof hm.2
    have hold := (hset b hb).bundle
    have hnext := hu.nextObject
    omega
  relationProperty := fun _ _ _ hr _ _ he h =>
    h.relationProperty (spares_newRelation hs (Nat.le_trans hu.nextRelation hr)) he

/-- Imports and creations spare the bundles; another addition has to. -/
def CallSpares (s : Store) (bundles : List ℕ) : ApiCall → Prop
  | .add a => ∀ e, a.Makes e → Spares s bundles e
  | _ => True

theorem call_leads (hs : s.Valid) (hset : ∀ b ∈ bundles, Settled s b)
    (hu : Untouched s bundles u) {call : ApiCall} (h : CallSpares s bundles call) (c : Client)
    (n : ℕ) : Leads (Spares s bundles) u (call.run c ⟨u, n⟩).store := by
  cases call with
  | add a => exact (addition_leads c.server a ⟨u, n⟩).mono h
  | ask q =>
    rw [ApiCall.run, question_store]
    exact Leads.refl u
  | lookupOrCreateObject p m type =>
    exact lookupOrCreate_leads (fun _ _ _ _ _ => trivial) c p m type ⟨u, n⟩
  | importDocumentJson text name anchors flags outId =>
    rw [ApiCall.run, importDocumentJson_store]
    exact (keeps_importDocument_own (objectClosed_leads hs hu)
      (fun _ hown => relationClosed_leads hs hset hu hown) c.parse text name anchors flags).store
      (Leads.refl u)

theorem runCalls_spares (hs : s.Valid) (hset : ∀ b ∈ bundles, Settled s b)
    {calls : List (Client × ℕ × ApiCall)} (h : ∀ x ∈ calls, CallSpares s bundles x.2.2)
    (hu : Leads (Spares s bundles) s u) : Leads (Spares s bundles) s (runCalls u calls) := by
  induction calls generalizing u with
  | nil => exact hu
  | cons x calls ih =>
    obtain ⟨c, n, call⟩ := x
    refine ih (fun y hy => h y (List.mem_cons_of_mem _ hy)) (hu.trans ?_)
    exact call_leads hs hset (untouched_of_leads hu) (h (c, n, call) List.mem_cons_self) c n

end Calls

/-- Bundles are exported as before after any imports, whether these succeed or fail, and after
any other calls that put nothing into them. -/
theorem runCalls_keep_exports {s : Store} (hs : s.Reachable) {bundles : List ℕ}
    (hset : ∀ b ∈ bundles, Settled s b) {calls : List (Client × ℕ × ApiCall)}
    (h : ∀ x ∈ calls, CallSpares s bundles x.2.2) (dump : Json → String) (srv : Server) (n : ℕ) :
    (exportBundleJson dump srv bundles ⟨runCalls s calls, n⟩).1 =
      (exportBundleJson dump srv bundles ⟨s, n⟩).1 := by
  have hunt := untouched_of_leads (runCalls_spares hs.valid hset h (Leads.refl s))
  exact exportBundleJson_agree dump srv (fun b hb => hunt.agreeOn hb (hset b hb)) n

def derivedBundle : Store :=
  ((((Store.fresh.insertObject "" "e1" cplEntity 0).insertObject "" "e2" cplEntity 1).insertRelation
    1 2 wasDerivedFrom).insertObject "b" "" cplBundle 2).insertRelation 3 1 bundleRelation

theorem derivedBundle_reachable : derivedBundle.Reachable :=
  .addRelation 3 1 bundleRelation (by decide) (by decide) (by decide)
    (.createObject "b" "" cplBundle 2 (by decide)
      (.addRelation 1 2 wasDerivedFrom (by decide) (by decide) (by decide)
        (.createObject "" "e2" cplEntity 1 (by decide)
          (.createObject "" "e1" cplEntity 0 (by decide) .fresh))))

theorem derivedBundle_settled : Settled derivedBundle 3 where
  bundle := by decide
  members := by
    have hnext : derivedBundle.nextRelation = 3 := by decide
    have hm : derivedBundle.memberships 3 = [⟨2, some 3, some 1, some bundleRelation⟩] := by decide
    rw [hnext, hm]
    simp
  ends := by
    have hnext : derivedBundle.nextObject = 4 := by decide
    have hr : derivedBundle.bundleRelations 3 = [⟨1, some 1, some 2, some wasDerivedFrom⟩] := by
      decide
    rw [hnext, hr]
    simp only [List.mem_singleton, forall_eq, Option.some.injEq]
    omega

/-- Every document is read as one entity named like an end of the bundle's relation. -/
def sameNameClient : Client where
  parse := fun _ => some (.object [("entity", .object [("e1", .object [("k", .string "v")])])])
  dump := fun _ => "\x7b\"entity\":\x7b\"e1\":null,\"e2\":null\x7d,\"wasDerivedFrom\":\x7b\"1\":" ++
    "\x7b\"prov:generatedEntity\":\"e1\",\"prov:usedEntity\":\"e2\"\x7d\x7d\x7d"
  server := .ideal
  withKey := ⟨0, false⟩

theorem runCalls_keep_exports_sameName :
    (exportBundleJson sameNameClient.dump .ideal [3] ⟨runCalls derivedBundle
      [(sameNameClient, 5, .importDocumentJson "" "b" [(1, "e1")] 0 none)], 9⟩).1 =
    (exportBundleJson sameNameClient.dump .ideal [3] ⟨derivedBundle, 9⟩).1 :=
  runCalls_keep_exports derivedBundle_reachable
    (fun b hb => List.mem_singleton.mp hb ▸ derivedBundle_settled) (by simp [CallSpares])
    sameNameClient.dump .ideal 9

end ImportIsolation
