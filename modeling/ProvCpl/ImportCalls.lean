import ProvCpl.ImportGraph

/-! # The backend calls of the first part of an import

A member costs one call for its object and one for each of its properties, a prefix one call.
An import that returns has made them all, whatever their outcomes. -/
namespace ImportCalls

open CplTypes QualifiedName JsonValue ProvStore ProvServer ServerSpecs ImportDocument ImportFrame
open ImportAccepts ImportGraph EarlyExit

def propertyCalls (properties : Json) : ℕ := (properties.items.getD []).length

def objectCalls (e : String × Json) : ℕ := 1 + propertyCalls e.2

def stageCalls (document : Json) : ℕ :=
  1 + ((document.membersAt "prefix").length +
    (objectSections.map fun u => ((document.membersAt u.2).map objectCalls).sum).sum)

def At (n : ℕ) (w : World) : Prop := w.store.Reachable ∧ w.calls = n

def Costs {α : Type} (m : Api α) (k : ℕ) (R : α → Prop) : Prop :=
  ∀ n, Triple (At n) m (fun a w => At (n + k) w ∧ R a) fun _ _ => True

section Rules

variable {α β γ : Type} {R : α → Prop}

theorem costs_pure {a : α} (h : R a) : Costs (pure a) 0 R :=
  fun _ => triple_pure fun _ hw => ⟨hw, h⟩

theorem costs_leave {e : Stop} {k : ℕ} : Costs (leave e) k R :=
  fun _ => triple_leave fun _ _ => trivial

theorem costs_bind {m : Api α} {f : α → Api β} {j k : ℕ} {T : β → Prop} (hm : Costs m j R)
    (hf : ∀ a, R a → Costs (f a) k T) : Costs (m >>= f) (j + k) T := by
  refine fun n => triple_bind (hm n) fun a w hw => ?_
  rw [← Nat.add_assoc]
  exact hf a hw.2 (n + j) w hw.1

theorem costs_ite {c : Prop} [Decidable c] {m l : Api α} {k : ℕ} (ht : c → Costs m k R)
    (hf : ¬ c → Costs l k R) : Costs (if c then m else l) k R :=
  fun n => triple_ite (fun h => ht h n) fun h => hf h n

theorem costs_orThrow (o : Option α) : Costs (orThrow o) 0 fun a => o = some a := by
  cases o with
  | none => exact costs_leave
  | some a => exact costs_pure rfl

theorem costs_fold {f : β → γ → Api β} {cost : γ → ℕ}
    (h : ∀ b x, Costs (f b x) (cost x) fun _ => True) (b : β) (xs : List γ) :
    Costs (fold f b xs) (xs.map cost).sum fun _ => True := by
  intro n
  have hloop : Triple (At (n + (([] : List γ).map cost).sum)) (fold f b xs)
      (fun _ => At (n + (xs.map cost).sum)) fun _ _ => True :=
    triple_fold (I := fun done _ => At (n + (done.map cost).sum)) fun done x b _ => by
      rw [List.map_append, List.sum_append, List.map_singleton, List.sum_singleton,
        ← Nat.add_assoc]
      exact triple_conseq (h b x _) (fun _ hw => hw) (fun _ _ hw => hw.1) fun _ _ hw => hw
  exact triple_conseq hloop (fun _ hw => hw) (fun _ _ hw => ⟨hw, trivial⟩) fun _ _ hw => hw

theorem costs_forEach {f : γ → Api Unit} {cost : γ → ℕ}
    (h : ∀ x, Costs (f x) (cost x) fun _ => True) (xs : List γ) :
    Costs (forEach f xs) (xs.map cost).sum fun _ => True :=
  costs_fold (fun _ x => h x) () xs

end Rules

section Stage

variable {srv : Server}

theorem costs_createObject (p n : String) (type : ℤ) :
    Costs (requireId (srv.createObject (some p) (some n) type)) 1
      fun id => id ≠ 0 ∧ srv.attached = true := by
  intro k
  refine triple_bind (Q := fun out w => out.1.IsOk → At (k + 1) w ∧
    srv.attached = true ∧ ∀ id, out.2 = some id → id ≠ 0) (triple_call ?_) fun out => ?_
  · rintro w ⟨hreach, rfl⟩ hok
    refine ⟨⟨createObject_keeps (fun s p n now ht hs => .createObject p n type now ht hs) hreach,
      createObject_calls hok⟩, (createObject_ok hok).1, fun id hid => ?_⟩
    refine createObject_value (I := Store.Reachable) (Q := (· ≠ 0)) (fun s p n now ht hs =>
      ⟨.createObject p n type now ht hs, ?_⟩) hreach id hid
    exact Nat.pos_iff_ne_zero.mp hs.valid.next_object
  · refine triple_ite (fun hok => ?_) fun _ => triple_leave fun _ _ => trivial
    cases hid : out.2 with
    | none => exact triple_leave fun _ _ => trivial
    | some id =>
      refine triple_pure fun w hw => ?_
      obtain ⟨hat, hattached, h0⟩ := hw hok
      exact ⟨hat, h0 id rfl, hattached⟩

theorem costs_addPrefix {b : ℕ} (p i : String) :
    Costs (requireOk (srv.addPrefix b (some p) (some i))) 1 fun _ => True := by
  intro k
  refine triple_bind (Q := fun r w => r.IsOk → At (k + 1) w) (triple_call ?_) fun r =>
    triple_ite (fun hok => triple_pure fun w hw => ⟨hw hok, trivial⟩)
      fun _ => triple_leave fun _ _ => trivial
  rintro w ⟨hreach, rfl⟩ hok
  exact ⟨addPrefix_keeps (fun s s' p i h0 he hs => hs.addPrefix _ h0 he) hreach,
    addPrefix_calls hok⟩

theorem costs_addProperty (hattached : srv.attached = true) {id : ℕ} (h0 : id ≠ 0)
    (p k v : String) (type : ℤ) :
    Costs (callUnchecked (srv.addProperty srv.cplOdbcAddObjectProperty id (some p) (some k)
      (some v) type)) 1 fun _ => True := by
  intro n
  refine triple_bind (Q := fun _ => At (n + 1)) (triple_call ?_) fun _ =>
    triple_pure fun w hw => ⟨hw, trivial⟩
  rintro w ⟨hreach, rfl⟩
  refine ⟨addProperty_keeps (fun p k v _ h0 => cplOdbcAddObjectProperty_keeps
    (fun s s' he hs => hs.addObjectProperty _ h0 he) hreach) hreach, ?_⟩
  exact addProperty_calls (fun _ _ _ _ _ w => execute_calls _) hattached h0 p k v type

theorem costs_importProperties (hattached : srv.attached = true) {id : ℕ} (h0 : id ≠ 0)
    (properties : Json) : Costs (importProperties (objectWriter srv) id properties)
      (propertyCalls properties) fun _ => True := by
  have hcall := costs_addProperty hattached h0
  have hproperty : ∀ e, Costs (importProperty (objectWriter srv) id e) 1 fun _ => True := by
    rintro ⟨key, v⟩
    cases v with
    | string s => exact hcall _ _ _ _
    | integer n => exact hcall _ _ _ _
    | unsigned n => exact hcall _ _ _ _
    | float x => exact hcall _ _ _ _
    | boolean b => exact hcall _ _ _ _
    | null => exact costs_leave
    | array l => exact costs_leave
    | object m => exact costs_leave
  rw [← Nat.zero_add (propertyCalls properties)]
  refine costs_bind (costs_orThrow _) fun items hitems => ?_
  have hloop := costs_forEach hproperty items
  rw [propertyCalls, hitems]
  simpa using hloop

theorem costs_importObject (hattached : srv.attached = true) (type : ℤ) (tbl : LookupTable)
    (e : String × Json) : Costs (importObject srv type tbl e) (objectCalls e) fun _ => True :=
  costs_bind (costs_createObject _ _ _) fun _ hid =>
    costs_bind (k := 0) (costs_importProperties hattached hid.1 e.2) fun _ _ => costs_pure trivial

theorem costs_importObjectsJson (hattached : srv.attached = true) (u : ℤ × String)
    (tbl : LookupTable) (document : Json) : Costs (importObjectsJson srv u.1 u.2 tbl document)
      ((document.membersAt u.2).map objectCalls).sum fun _ => True := by
  rw [importObjectsJson_eq]
  exact costs_ite (fun _ => costs_fold (costs_importObject hattached u.1) tbl _)
    fun _ => costs_leave

theorem costs_importBundlePrefixesJson (b : ℕ) (document : Json) :
    Costs (importBundlePrefixesJson srv b document) (document.membersAt "prefix").length
      fun _ => True := by
  have hprefix : ∀ e, Costs (importBundlePrefix srv b e) 1 fun _ => True := fun e =>
    costs_ite (fun _ => costs_bind (j := 0) (costs_orThrow _) fun iri _ => costs_addPrefix _ _)
      fun _ => costs_leave
  have hloop : Costs (forEach (importBundlePrefix srv b) (document.membersAt "prefix"))
      (document.membersAt "prefix").length fun _ => True := by
    simpa using costs_forEach hprefix (document.membersAt "prefix")
  rw [importBundlePrefixesJson_eq]
  exact costs_ite (fun _ => hloop) fun _ => costs_leave

theorem costs_objectStage (document : Json) (bundleName : String) :
    Costs (objectStage srv document bundleName) (stageCalls document)
      fun _ => srv.attached = true := by
  refine costs_bind (costs_createObject _ _ _) fun b hb => ?_
  refine costs_bind (costs_importBundlePrefixesJson b document) fun _ _ => ?_
  refine costs_bind (costs_importObjectsJson hb.2 (cplEntity, cplEntityStr) [] document)
    fun tbl1 _ => ?_
  refine costs_bind (costs_importObjectsJson hb.2 (cplAgent, cplAgentStr) tbl1 document)
    fun tbl2 _ => ?_
  refine costs_bind (costs_importObjectsJson hb.2 (cplActivity, cplActivityStr) tbl2 document)
    fun tbl3 _ => ?_
  exact costs_pure hb.2

end Stage

end ImportCalls
