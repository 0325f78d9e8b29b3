import ProvCpl.EventTrace
import ProvCpl.ImportDocument
import ProvCpl.InsertOnce
import ProvCpl.ServerSpecs

/-! # Property writes and the gets that follow them

A write runs one insertion and reports success when the statement was executed, whether or not
the rule of the table let the row in. So the first value of a key stays, and a later write of
another value is dropped with the code of a success. -/
namespace PropertyWrites

open CplTypes QualifiedName ProvStore ProvServer ServerSpecs EarlyExit EventTrace InsertOnce
open ImportDocument (PropertyWriter objectWriter relationWriter)

inductive Owner where
  | object
  | relation
  deriving DecidableEq, Repr

inductive Value where
  | string (text : String)
  | boolean (b : Bool)
  deriving DecidableEq, Repr

structure Write where
  owner : Owner
  id : ℕ
  nsPrefix : String
  key : String
  value : Value
  deriving DecidableEq, Repr

def Owner.rows : Owner → Store → List PropertyRow
  | .object, s => s.objectProperties
  | .relation, s => s.relationProperties

def Owner.ids : Owner → Store → List ℕ
  | .object, s => s.objects.map (·.id)
  | .relation, s => s.relations.map (·.id)

def ownerWriter (srv : Server) : Owner → PropertyWriter
  | .object => objectWriter srv
  | .relation => relationWriter srv

def Value.text : Value → String
  | .string s => s
  | .boolean b => FloatText.boolText b

def Value.type : Value → ℤ
  | .string _ => stringProperty
  | .boolean _ => booleanProperty

def Write.row (q : Write) : PropertyRow := ⟨q.id, q.nsPrefix, q.key, q.value.text, q.value.type⟩

def Write.perform (srv : Server) (q : Write) : Call World ReturnCode :=
  match q.owner, q.value with
  | .object, .string v =>
    srv.addObjectStringProperty q.id (some q.nsPrefix) (some q.key) (some v)
  | .object, .boolean b => srv.addObjectBooleanProperty q.id (some q.nsPrefix) (some q.key) b
  | .relation, .string v =>
    srv.addRelationStringProperty q.id (some q.nsPrefix) (some q.key) (some v)
  | .relation, .boolean b => srv.addRelationBooleanProperty q.id (some q.nsPrefix) (some q.key) b

def Write.get (srv : Server) (q : Write) : Call World (ReturnCode × List PropertyEntry) :=
  match q.owner with
  | .object => srv.getObjectProperties q.id (some q.nsPrefix) (some q.key) q.value.type
  | .relation => srv.getRelationProperties q.id (some q.nsPrefix) (some q.key) q.value.type

/-- The server without failures, for a get that is answered. -/
def answering (srv : Server) : Server := { srv with outcome := fun _ => .success }

/-- A write on an existing object or relation with strings below the column limits. -/
structure Write.Legal (s : Store) (q : Write) : Prop where
  nonzero : q.id ≠ 0
  stored : q.id ∈ q.owner.ids s
  nsPrefix : q.nsPrefix.length < cplPrefixLen
  key : q.key.length < cplKeyLen
  value : q.value.text.length < cplValueLen

instance (s : Store) (q : Write) : Decidable (q.Legal s) :=
  decidable_of_iff (q.id ≠ 0 ∧ q.id ∈ q.owner.ids s ∧ q.nsPrefix.length < cplPrefixLen ∧
      q.key.length < cplKeyLen ∧ q.value.text.length < cplValueLen)
    ⟨fun h => ⟨h.1, h.2.1, h.2.2.1, h.2.2.2.1, h.2.2.2.2⟩, fun h => ⟨h.1, h.2, h.3, h.4, h.5⟩⟩

def Write.after (srv : Server) (w : World) (q : Write) : World := (q.perform srv w).2

/-- A write that returns `CPL_OK` is reported by the get that follows. -/
def Observable (srv : Server) (w : World) (q : Write) : Prop :=
  (q.perform srv w).1 = .ok →
    (q.get (answering srv) (q.after srv w)).1.1 = .ok ∧
      ∃ e ∈ (q.get (answering srv) (q.after srv w)).1.2, e.value = q.value.text

def Stored (srv : Server) (w : World) (q : Write) : Prop :=
  (q.perform srv w).1 = .ok →
    q.owner.rows (q.after srv w).store = q.owner.rows w.store ++ [q.row]

def Acknowledged (srv : Server) (w : World) : Prop := (srv.outcome w.calls).failure = none

/-- Rows with the key of the write, if there are any, include one that is read as its value. -/
def Agrees (s : Store) (q : Write) : Prop :=
  Present SameKey (q.owner.rows s) q.row →
    ∃ r ∈ q.owner.rows s, SameKey r q.row ∧ fetchText cplValueLen r.value = q.value.text

instance (srv : Server) (w : World) (q : Write) : Decidable (Observable srv w q) :=
  inferInstanceAs (Decidable (_ → _ ∧ _))

theorem sameKey_refl (r : PropertyRow) : SameKey r r := ⟨rfl, rfl, rfl, rfl⟩

def Owner.put : Owner → Store → PropertyRow → Store
  | .object, s, r => { s with objectProperties := insertOnce SameKey s.objectProperties r }
  | .relation, s, r => { s with relationProperties := insertOnce SameKey s.relationProperties r }

@[simp] theorem rows_put (o : Owner) (s : Store) (r : PropertyRow) :
    o.rows (o.put s r) = insertOnce SameKey (o.rows s) r := by
  cases o <;> rfl

@[simp] theorem ids_put (o : Owner) (s : Store) (r : PropertyRow) :
    o.ids (o.put s r) = o.ids s := by
  cases o <;> rfl

theorem put_again (o : Owner) (s : Store) (r : PropertyRow) :
    o.put (o.put s r) r = o.put s r := by
  cases o <;> simp only [Owner.put, insertOnce_again (sameKey_refl r)]

def Owner.insert : Owner → Store → PropertyRow → Option Store
  | .object, s, r => s.insertObjectProperty r
  | .relation, s, r => s.insertRelationProperty r

theorem insert_eq {o : Owner} {s : Store} {r : PropertyRow} (h : r.id ∈ o.ids s) :
    o.insert s r = some (o.put s r) := by
  cases o with
  | object => exact if_pos h
  | relation => exact if_pos h

theorem replay_insert {o : Owner} {s : Store} {r : PropertyRow} (h : r.id ∈ o.ids s) (n : ℕ) :
    o.put (replay (fun s => (o.insert s r).map fun t => ((), t)) n s) r = o.put s r ∧
      o.ids (replay (fun s => (o.insert s r).map fun t => ((), t)) n s) = o.ids s := by
  induction n generalizing s with
  | zero => exact ⟨rfl, rfl⟩
  | succ n ih =>
    have hput : r.id ∈ o.ids (o.put s r) := by rwa [ids_put]
    obtain ⟨hrows, hids⟩ := ih hput
    simp only [replay, insert_eq h, Option.map_some, Option.getD_some]
    exact ⟨by rw [hrows, put_again], by rw [hids, ids_put]⟩

theorem perform_eq {srv : Server} (ha : srv.attached = true) (w : World) {q : Write}
    (h0 : q.id ≠ 0) : q.perform srv w =
      codeOnly (srv.execute fun _ s => (q.owner.insert s q.row).map fun t => ((), t)) w := by
  obtain ⟨o, id, p, k, v⟩ := q
  have hid : ¬ id = cplNone := h0
  cases o <;> cases v <;>
    simp only [Write.perform, Server.addObjectStringProperty, Server.addObjectBooleanProperty,
      Server.addRelationStringProperty, Server.addRelationBooleanProperty, Server.addProperty,
      Server.ensureInitialized, ha, if_true, if_neg hid, Server.cplOdbcAddObjectProperty,
      Server.cplOdbcAddRelationProperty, Owner.insert, Write.row, Value.text, Value.type]

section Step

variable {srv : Server} {w : World} {q : Write} (ha : srv.attached = true) (hq : q.Legal w.store)

include ha hq

theorem perform_ok (h : Acknowledged srv w) :
    q.perform srv w = (.ok, ⟨q.owner.put w.store q.row, w.calls + 1⟩) := by
  obtain ⟨hput, hids⟩ := replay_insert (r := q.row) hq.stored (srv.outcome w.calls).lost
  have hstored : q.row.id ∈ q.owner.ids (replay
      (fun s => (q.owner.insert s q.row).map fun t => ((), t)) (srv.outcome w.calls).lost
        w.store) := by
    rw [hids]
    exact hq.stored
  rw [Acknowledged] at h
  rw [perform_eq ha w hq.nonzero]
  simp only [codeOnly, Server.execute, h, insert_eq hstored, Option.map_some, hput]

theorem perform_ok_iff : (q.perform srv w).1 = .ok ↔ Acknowledged srv w := by
  constructor
  · intro hok
    cases hf : (srv.outcome w.calls).failure with
    | none => exact hf
    | some f =>
      rw [perform_eq ha w hq.nonzero] at hok
      simp only [codeOnly, Server.execute, hf] at hok
      exact absurd (hok ▸ isOk_ok) f.failed
  · intro h
    rw [perform_ok ha hq h]

theorem get_eq (w' : World) : (q.get (answering srv) w').1 = listing (some ((srv.scan w'.calls
    (propertiesOf (q.owner.rows w'.store) q.id (some q.nsPrefix) (some q.key) q.value.type)).map
      propertyEntry)) := by
  have hrel : Reliable (answering srv) := ⟨ha, fun _ => rfl⟩
  obtain ⟨o, id, p, k, v⟩ := q
  cases o <;>
    simp only [Write.get, Server.getObjectProperties, Server.getRelationProperties,
      Server.cplOdbcGetObjectProperties, Server.cplOdbcGetRelationProperties,
      list_reliable hrel hq.nonzero] <;> rfl

theorem get_value_iff (w' : World) :
    ((q.get (answering srv) w').1.1 = .ok ∧
      ∃ e ∈ (q.get (answering srv) w').1.2, e.value = q.value.text) ↔
    ∃ r ∈ q.owner.rows w'.store, SameKey r q.row ∧
      fetchText cplValueLen r.value = q.value.text := by
  have hmem : ∀ r, r ∈ srv.scan w'.calls (propertiesOf (q.owner.rows w'.store) q.id
      (some q.nsPrefix) (some q.key) q.value.type) ↔
        r ∈ q.owner.rows w'.store ∧ SameKey r q.row := fun r => by
    rw [(srv.scan_perm _ _).mem_iff, propertiesOf, List.mem_filter, decide_eq_true_eq]
    rfl
  rw [get_eq ha hq]
  generalize srv.scan w'.calls _ = rows at hmem
  constructor
  · rintro ⟨-, e, he, hv⟩
    have he : e ∈ rows.map propertyEntry := by
      cases rows with
      | nil => exact absurd he List.not_mem_nil
      | cons x rows => exact he
    obtain ⟨r, hr, rfl⟩ := List.mem_map.mp he
    exact ⟨r, ((hmem r).mp hr).1, ((hmem r).mp hr).2, hv⟩
  · rintro ⟨r, hr, hkey, hv⟩
    have hr := (hmem r).mpr ⟨hr, hkey⟩
    cases rows with
    | nil => cases hr
    | cons x rows => exact ⟨rfl, propertyEntry r, List.mem_map_of_mem hr, hv⟩

/-- A write is observable when it is not acknowledged or its key holds no other value. -/
theorem observable_iff : Observable srv w q ↔ (Acknowledged srv w → Agrees w.store q) := by
  rw [Observable, perform_ok_iff ha hq]
  refine forall_congr' fun hack => ?_
  rw [get_value_iff ha hq, Write.after, perform_ok ha hq hack, rows_put]
  exact exists_mem_insertOnce (sameKey_refl _) (fetchText_of_short hq.value)

theorem stored_iff : Stored srv w q ↔
    (Acknowledged srv w → ¬ Present SameKey (q.owner.rows w.store) q.row) := by
  rw [Stored, perform_ok_iff ha hq]
  refine forall_congr' fun hack => ?_
  rw [Write.after, perform_ok ha hq hack, rows_put, insertOnce_eq_append]

end Step

theorem ids_after {srv : Server} (ha : srv.attached = true) {w : World} {q : Write}
    (hq : q.Legal w.store) (o : Owner) : o.ids (q.after srv w).store = o.ids w.store := by
  rw [Write.after, perform_eq ha w hq.nonzero]
  refine execute_keeps (I := fun t => o.ids t = o.ids w.store) (fun now t a t' ht he => ?_) rfl
  obtain ⟨u, hu, hu'⟩ := Option.map_eq_some_iff.mp he
  obtain rfl : u = t' := congrArg Prod.snd hu'
  rw [← ht]
  cases hown : q.owner with
  | object =>
    rw [hown] at hu
    obtain ⟨-, rfl⟩ := insertObjectProperty_eq hu
    cases o <;> rfl
  | relation =>
    rw [hown] at hu
    obtain ⟨-, rfl⟩ := insertRelationProperty_eq hu
    cases o <;> rfl

theorem legal_after {srv : Server} (ha : srv.attached = true) {w : World} {q q' : Write}
    (hq : q.Legal w.store) (h : q'.Legal w.store) : q'.Legal (q.after srv w).store :=
  { h with stored := by rw [ids_after ha hq]; exact h.stored }

theorem legal_run {srv : Server} (ha : srv.attached = true) {w : World} {writes : List Write}
    (h : ∀ q ∈ writes, q.Legal w.store) :
    EachStep (fun w q => q.after srv w) (fun w q => q.Legal w.store) w writes := by
  induction writes generalizing w with
  | nil => trivial
  | cons q writes ih =>
    have hq := h q List.mem_cons_self
    exact ⟨hq, ih fun q' hq' => legal_after ha hq (h q' (List.mem_cons_of_mem q hq'))⟩

/-- Every write of a run is reported by the get that follows it, and stored when it returns
`CPL_OK`, exactly when each acknowledged write is the first of its key; it is reported exactly
when its key holds no other value. -/
theorem writes_observable_iff {srv : Server} (ha : srv.attached = true) {w : World}
    {writes : List Write} (h : ∀ q ∈ writes, q.Legal w.store) :
    (EachStep (fun w q => q.after srv w) (fun w q => Observable srv w q ∧ Stored srv w q)
        w writes ↔
      EachStep (fun w q => q.after srv w) (fun w q => Acknowledged srv w →
        ¬ Present SameKey (q.owner.rows w.store) q.row) w writes) ∧
    (EachStep (fun w q => q.after srv w) (Observable srv) w writes ↔
      EachStep (fun w q => q.after srv w) (fun w q => Acknowledged srv w → Agrees w.store q)
        w writes) := by
  have hlegal := legal_run ha h
  refine ⟨hlegal.congr fun w q hq => ?_, hlegal.congr fun w q hq => observable_iff ha hq⟩
  rw [observable_iff ha hq, stored_iff ha hq]
  exact ⟨fun h => h.2, fun h => ⟨fun hack hp => absurd hp (h hack), h⟩⟩

def entityWorld : World := ⟨Store.oneEntity "e" 0, 0⟩

def twoValues : List Write :=
  [⟨.object, 1, "", "k", .string "a"⟩, ⟨.object, 1, "", "k", .string "b"⟩]

/-- The second value is dropped, and the call returns `CPL_OK`. -/
theorem second_value_not_observable : entityWorld.store.Reachable ∧
    (∀ q ∈ twoValues, q.Legal entityWorld.store) ∧
    ¬ EachStep (fun w q => q.after .ideal w) (Observable .ideal) entityWorld twoValues :=
  ⟨Store.oneEntity_reachable "e" 0, by decide, by decide⟩

theorem writes_observable_iff_first : EachStep (fun w q => q.after .ideal w)
    (fun w q => Observable .ideal w q ∧ Stored .ideal w q) entityWorld
      [⟨.object, 1, "", "k", .string "a"⟩, ⟨.object, 1, "", "k", .boolean true⟩] := by
  refine (writes_observable_iff (rfl : Server.ideal.attached = true) (by decide)).1.mpr ?_
  exact ⟨fun _ => by decide, fun _ => by decide, trivial⟩

end PropertyWrites
