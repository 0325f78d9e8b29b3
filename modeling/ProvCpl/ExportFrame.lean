import ProvCpl.ExportShape
import ProvCpl.TwoRuns

/-! # What an export reads

An export of bundles looks at their memberships, the relations and objects these lead to, and
the properties of those. Two stores that agree on that much give the same document, and the
same failures. -/
namespace ExportFrame

open CplTypes JsonValue ProvStore ProvServer ServerSpecs ImportDocument ImportFrame
open ExportDocument ExportShape TwoRuns EarlyExit

structure AgreeOn (s t : Store) (b : ℕ) : Prop where
  relations : t.bundleRelations b = s.bundleRelations b
  objects : t.bundleObjects b = s.bundleObjects b
  ends : ∀ r ∈ s.bundleRelations b, ∀ i, r.fromId = some i ∨ r.toId = some i →
    (t.objects.filter fun c => c.id = i) = s.objects.filter fun c => c.id = i
  objectProperties : ∀ c ∈ s.bundleObjects b, ∀ type,
    propertiesOf t.objectProperties c.id none none type =
      propertiesOf s.objectProperties c.id none none type
  relationProperties : ∀ r ∈ s.bundleRelations b, ∀ type,
    propertiesOf t.relationProperties r.id none none type =
      propertiesOf s.relationProperties r.id none none type

structure Abreast (s t : Store) (w w' : World) : Prop where
  left : w.store = s
  right : w'.store = t
  calls : w'.calls = w.calls

/-- The program ends in one way on both stores, with values that satisfy `R`. -/
def Alike {α : Type} (s t : Store) (m : Api α) (R : α → Prop) : Prop :=
  Twin (Abreast s t) m m (fun a a' w w' => Abreast s t w w' ∧ a' = a ∧ R a) fun e e' _ _ => e' = e

section Rules

variable {α β γ : Type} {s t : Store} {m : Api α} {f : α → Api β} {R : α → Prop} {T : β → Prop}

theorem alike_pure {a : α} (h : R a) : Alike s t (pure a) R :=
  twin_pure fun _ _ hw => ⟨hw, rfl, h⟩

theorem alike_leave (e : Stop) : Alike s t (leave e : Api α) R :=
  twin_leave fun _ _ _ => rfl

theorem alike_orThrow (o : Option α) : Alike s t (orThrow o) fun _ => True := by
  cases o with
  | none => exact alike_leave _
  | some a => exact alike_pure trivial

theorem alike_bind (hm : Alike s t m R) (hf : ∀ a, R a → Alike s t (f a) T) :
    Alike s t (m >>= f) T := by
  apply twin_bind hm
  intro a a' w w' hw
  obtain ⟨hw, rfl, ha⟩ := hw
  exact hf _ ha w w' hw

theorem alike_fold {g : β → γ → Api β} {xs : List γ}
    (step : ∀ b x, x ∈ xs → Alike s t (g b x) fun _ => True) (b : β) :
    Alike s t (fold g b xs) fun _ => True := by
  induction xs generalizing b with
  | nil => exact alike_pure trivial
  | cons x xs ih =>
    refine alike_bind (step b x List.mem_cons_self) fun c _ => ?_
    exact ih (fun b y hy => step b y (List.mem_cons_of_mem x hy)) c

theorem Alike.result (h : Alike s t m R) (calls : ℕ) : (m ⟨t, calls⟩).1 = (m ⟨s, calls⟩).1 := by
  rcases Twin.cases h ⟨s, calls⟩ ⟨t, calls⟩ ⟨rfl, rfl, rfl⟩ with
    ⟨a, a', u, u', hr, hr', -, rfl, -⟩ | ⟨e, e', u, u', hr, hr', rfl⟩
  · rw [hr, hr']
  · rw [hr, hr']

end Rules

theorem entry_ends {r : RelationRow} {e : RelationEntry} (h : RelationRow.entry r = some e) :
    r.fromId = some e.queryObjectId ∧ r.toId = some e.otherObjectId := by
  unfold RelationRow.entry at h
  split at h
  · next f o type hf ho ht =>
    obtain rfl := Option.some.inj h
    exact ⟨hf, ho⟩
  · cases h

theorem alike_relationData {s t : Store} (type : ℤ) :
    Alike s t (relationData type) fun _ => True := by
  unfold relationData
  split
  · exact alike_pure trivial
  · exact alike_leave _

section Exporter

variable {srv : Server} {s t : Store}

theorem alike_query {α : Type} {P : Prop} [Decidable P] {nothing : ReturnCode → ReturnCode × α}
    {a : ReturnCode × α} {read : ℕ → Store → ReturnCode × α} {none' : α}
    {R : ReturnCode × α → Prop} (h : ∀ n, read n t = read n s)
    (hnothing : ∀ r, R (nothing r)) (ha : R a) (hfail : ∀ r, R (r, none'))
    (hread : ∀ n, R (read n s)) :
    Alike s t (call (srv.ensureInitialized nothing fun w =>
      if P then (a, w) else srv.query read none' w)) R := by
  refine twin_call fun w w' hw => ?_
  obtain ⟨s', n⟩ := w
  obtain ⟨t', n'⟩ := w'
  obtain ⟨rfl, rfl, rfl⟩ := hw
  unfold Server.ensureInitialized Server.query
  by_cases hatt : srv.attached = true
  · by_cases hP : P
    · simp only [hatt, hP, if_true]
      exact ⟨⟨rfl, rfl, rfl⟩, trivial, ha⟩
    · cases hf : (srv.outcome n').failure with
      | none =>
        simp only [hatt, hP, if_true, if_false, hf]
        exact ⟨⟨rfl, rfl, rfl⟩, h n', hread n'⟩
      | some x =>
        simp only [hatt, hP, if_true, if_false, hf]
        exact ⟨⟨rfl, rfl, rfl⟩, trivial, hfail _⟩
  · rw [if_neg hatt, if_neg hatt]
    exact ⟨⟨rfl, rfl, rfl⟩, rfl, hnothing _⟩

theorem alike_requireList {α : Type} {c : Call World (ReturnCode × List α)} {R : List α → Prop}
    (h : Alike s t (call c) fun out => R out.2) : Alike s t (requireList c) R := by
  refine alike_bind h fun out hout => ?_
  split
  · exact alike_pure hout
  · exact alike_leave _

theorem alike_rows {ρ β : Type} (id : ℕ) (rows : Store → List ρ) (f : ρ → Option β)
    (h : rows t = rows s) : Alike s t (requireList (srv.list id (srv.query
      (fun n s => listing (readAll f (srv.scan n (rows s)))) []))) fun es =>
        ∀ e ∈ es, ∃ r ∈ rows s, f r = some e := by
  refine alike_requireList (alike_query (fun n => by rw [h]) ?_ ?_ ?_ fun n e he => ?_)
  · simp
  · simp
  · simp
  · cases hr : readAll f (srv.scan n (rows s)) with
    | none =>
      rw [hr] at he
      cases he
    | some es =>
      rw [hr, (listing_some es).2] at he
      obtain ⟨r, hmem, hfr⟩ := mem_of_readAll hr e he
      exact ⟨r, (srv.scan_perm _ _).mem_iff.mp hmem, hfr⟩

theorem alike_properties {id : ℕ} {rows : Store → List PropertyRow}
    (h : ∀ type, propertiesOf (rows t) id none none type = propertiesOf (rows s) id none none type)
    {read : PropertyReader} (hread : ∀ type, read id type = srv.list id (srv.query
      (fun n s => listing (some ((srv.scan n (propertiesOf (rows s) id none none type)).map
        propertyEntry))) [])) :
    Alike s t (exportProperties read id) fun _ => True := by
  have hlist : ∀ type, Alike s t (requireList (read id type)) fun _ => True := by
    intro type
    rw [hread]
    exact alike_requireList (alike_query (fun n => by rw [h]) (fun _ => trivial) trivial
      (fun _ => trivial) fun _ => trivial)
  refine alike_bind (hlist _) fun strings _ => ?_
  refine alike_bind (hlist _) fun numerics _ => ?_
  refine alike_bind (alike_orThrow _) fun numbers _ => ?_
  exact alike_bind (hlist _) fun booleans _ => alike_pure trivial

variable {b : ℕ} (h : AgreeOn s t b)

include h

theorem alike_exportObjectsJson (out : NameTable × Json) :
    Alike s t (exportObjectsJson srv [b] out) fun _ => True := by
  refine alike_bind (alike_rows b (·.bundleObjects b) ObjectRow.info h.objects) fun objs hobjs => ?_
  refine alike_fold (fun out o ho => ?_) out
  obtain ⟨c, hc, hinfo⟩ := hobjs o ho
  have hprops := h.objectProperties c hc
  rw [← info_id hinfo] at hprops
  exact alike_bind (alike_properties hprops fun _ => rfl) fun _ _ => alike_pure trivial

theorem alike_exportEndpoint {r : RelationRow} (hr : r ∈ s.bundleRelations b) {i : ℕ}
    (hi : r.fromId = some i ∨ r.toId = some i) (tbl : NameTable) :
    Alike s t (exportEndpoint srv tbl i) fun _ => True := by
  unfold exportEndpoint
  split
  · exact alike_pure trivial
  · refine alike_bind (R := fun _ => True) ?_ fun info _ => ?_
    · refine alike_query (fun n => ?_) (fun _ => trivial) trivial (fun _ => trivial)
        fun _ => trivial
      rw [h.ends r hr i hi]
    · split
      · split
        · exact alike_pure trivial
        · exact alike_leave _
      · exact alike_leave _

theorem alike_exportRelationsJson (tbl : NameTable) (document : Json) :
    Alike s t (exportRelationsJson srv [b] tbl document) fun _ => True := by
  refine alike_bind (alike_rows b (·.bundleRelations b) RelationRow.entry h.relations)
    fun rels hrels => ?_
  refine alike_fold (fun document e he => ?_) document
  obtain ⟨r, hr, hentry⟩ := hrels e he
  have hprops := h.relationProperties r hr
  have hends := entry_ends hentry
  rw [← entry_id hentry] at hprops
  refine alike_bind (alike_properties hprops fun _ => rfl) fun properties _ => ?_
  refine alike_bind (alike_exportEndpoint h hr (Or.inl hends.1) tbl) fun source _ => ?_
  refine alike_bind (alike_relationData _) fun data _ => ?_
  refine alike_bind (alike_exportEndpoint h hr (Or.inr hends.2) tbl) fun dest _ => ?_
  split
  · exact alike_leave _
  · exact alike_pure trivial

end Exporter

/-- Stores that agree on the bundles are exported alike, whatever the export ends with. -/
theorem exportBundleJson_agree (dump : Json → String) (srv : Server) {s t : Store}
    {bundles : List ℕ} (h : ∀ b ∈ bundles, AgreeOn s t b) (calls : ℕ) :
    (exportBundleJson dump srv bundles ⟨t, calls⟩).1 =
      (exportBundleJson dump srv bundles ⟨s, calls⟩).1 := by
  have halike : Alike s t (exportBundleJson dump srv bundles) fun _ => True := by
    refine alike_bind (R := fun _ => True) ?_ fun out _ => alike_pure trivial
    refine alike_fold (fun out b hb => ?_) _
    refine alike_bind (alike_exportObjectsJson (h b hb) out) fun out _ => ?_
    exact alike_bind (alike_exportRelationsJson (h b hb) out.1 out.2) fun _ _ => alike_pure trivial
  exact halike.result calls

end ExportFrame
