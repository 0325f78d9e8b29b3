import ProvCpl.MergeOrder
import ProvCpl.TwoRuns

/-! # Exports that see the same orders

An export depends on the database through the orders of the rows that its own queries list. A
server that changes its order at some call answers an export before that call like one server
and an export after it like another. -/
namespace ExportAgreement

open CplTypes JsonValue ProvStore ProvServer ServerSpecs ImportDocument ExportDocument
open Reimport TwoRuns
open EarlyExit MergeOrder

section Exporter

variable {S : ℕ → Prop} {srv srv' : Server} (hsrv : Reliable srv) (hsrv' : Reliable srv')
  (hscan : ∀ n, S n → ∀ {α : Type} (l : List α), srv'.scan n l = srv.scan n l)

include hsrv hsrv' hscan

theorem agree_list {α : Type} {id : ℕ} (read : Server → ℕ → Store → ReturnCode × List α)
    (h : ∀ n s, (∀ {β : Type} (l : List β), srv'.scan n l = srv.scan n l) →
      read srv' n s = read srv n s) :
    Agree World.calls S (requireList (srv.list id (srv.query (read srv) [])))
      (requireList (srv'.list id (srv'.query (read srv') []))) := by
  refine agree_bind (agree_call fun w => ?_) fun out => agree_ite (agree_pure _) (agree_leave _)
  by_cases h0 : id = 0
  · left
    simp [Server.list, Server.ensureInitialized, hsrv.attached, hsrv'.attached, h0, cplNone]
  · right
    rw [list_reliable hsrv h0, list_reliable hsrv' h0]
    refine ⟨rfl, fun hS => ?_⟩
    rw [h _ _ (hscan _ hS)]

theorem agree_properties (rows : Store → List PropertyRow) (id : ℕ) (type : ℤ) :
    Agree World.calls S (requireList (srv.list id (srv.query (fun n s => listing (some
      ((srv.scan n (propertiesOf (rows s) id none none type)).map propertyEntry))) [])))
      (requireList (srv'.list id (srv'.query (fun n s => listing (some
        ((srv'.scan n (propertiesOf (rows s) id none none type)).map propertyEntry))) []))) := by
  apply agree_list hsrv hsrv' hscan fun srv n s => listing (some
    ((srv.scan n (propertiesOf (rows s) id none none type)).map propertyEntry))
  intro n s hn
  rw [hn]

omit hsrv hsrv' hscan in
theorem agree_exportProperties {read read' : PropertyReader} {id : ℕ}
    (h : ∀ type, Agree World.calls S (requireList (read id type)) (requireList (read' id type))) :
    Agree World.calls S (exportProperties read id) (exportProperties read' id) := by
  refine agree_bind (h _) fun strings => agree_bind (h _) fun numerics => ?_
  refine agree_bind ?_ fun numbers => agree_bind (h _) fun booleans => agree_pure _
  cases readAll numericalMember numerics with
  | none => exact agree_leave _
  | some numbers => exact agree_pure numbers

theorem agree_exportObjectsJson (b : ℕ) (out : NameTable × Json) :
    Agree World.calls S (exportObjectsJson srv [b] out) (exportObjectsJson srv' [b] out) := by
  refine agree_bind ?_ fun objects => agree_fold (fun out o => ?_) out objects
  · apply agree_list hsrv hsrv' hscan fun srv n s =>
      listing (readAll ObjectRow.info (srv.scan n (s.bundleObjects b)))
    intro n s hn
    rw [hn]
  · refine agree_bind (agree_exportProperties fun type => ?_) fun properties => agree_pure _
    exact agree_properties hsrv hsrv' hscan Store.objectProperties o.id type

theorem agree_exportEndpoint (tbl : NameTable) (id : ℕ) :
    Agree World.calls S (exportEndpoint srv tbl id) (exportEndpoint srv' tbl id) := by
  unfold exportEndpoint
  cases OrderedMap.find id tbl with
  | some name => exact agree_pure _
  | none =>
    refine agree_bind (agree_call fun w => ?_) fun info => agree_ite ?_ (agree_leave _)
    · by_cases h0 : id = 0
      · left
        simp [Server.getObjectInfo, Server.ensureInitialized, hsrv.attached, hsrv'.attached, h0,
          cplNone]
      · right
        simp only [Server.getObjectInfo, Server.ensureInitialized, hsrv.attached, hsrv'.attached,
          if_true, if_neg (show ¬ id = cplNone from h0), Server.cplOdbcGetObjectInfo,
          query_reliable hsrv, query_reliable hsrv', true_and]
        intro hS
        rw [hscan _ hS]
    · cases info.2 with
      | none => exact agree_leave _
      | some i => exact agree_pure _

theorem agree_exportRelationsJson (b : ℕ) (tbl : NameTable) (document : Json) :
    Agree World.calls S (exportRelationsJson srv [b] tbl document)
      (exportRelationsJson srv' [b] tbl document) := by
  refine agree_bind ?_ fun relations => agree_fold (fun document e => ?_) document relations
  · apply agree_list hsrv hsrv' hscan fun srv n s =>
      listing (readAll RelationRow.entry (srv.scan n (s.bundleRelations b)))
    intro n s hn
    rw [hn]
  · refine agree_bind (agree_exportProperties fun type => ?_) fun properties => ?_
    · exact agree_properties hsrv hsrv' hscan Store.relationProperties e.id type
    refine agree_bind (agree_exportEndpoint hsrv hsrv' hscan _ _) fun source => ?_
    have hdata : Agree World.calls S (relationData e.type) (relationData e.type) := by
      unfold relationData
      split
      · exact agree_pure _
      · exact agree_leave _
    refine agree_bind hdata fun d => ?_
    refine agree_bind (agree_exportEndpoint hsrv hsrv' hscan _ _) fun dest => ?_
    exact agree_ite (agree_leave _) (agree_pure _)

theorem agree_export (bundles : List ℕ) (out : NameTable × Json) :
    Agree World.calls S (fold (exportBundle srv) out bundles)
      (fold (exportBundle srv') out bundles) := by
  refine agree_fold (fun out b => ?_) out bundles
  refine agree_bind (agree_exportObjectsJson hsrv hsrv' hscan b out) fun out' => ?_
  exact agree_bind (agree_exportRelationsJson hsrv hsrv' hscan b _ _) fun _ => agree_pure _

end Exporter

/-- A server that switches late enough exports as the first steady one does, and from then on
as the second one. -/
theorem exists_switching (first second : Arrangement) (t : Store) (bundles : List ℕ) :
    ∃ n, exportedDocument (switching first second n) bundles ⟨t, 0⟩ =
        exportedDocument (steadily first) bundles ⟨t, 0⟩ ∧
      exportedDocument (switching first second n) bundles ⟨t, n⟩ =
        exportedDocument (steadily second) bundles ⟨t, n⟩ := by
  obtain ⟨n, hn⟩ : ∃ n, n =
      (fold (exportBundle (steadily first)) ([], .null) bundles ⟨t, 0⟩).2.calls := ⟨_, rfl⟩
  refine ⟨n, ?_, ?_⟩
  · have hagree := agree_export (S := (· < n)) (steadily_reliable first)
      (switching_reliable first second n) (fun m hm _ l => switching_scan_lt hm l)
      bundles ([], .null)
    rw [exportedDocument, exportedDocument, hagree.run (s := ⟨t, 0⟩) fun m _ hm => by omega]
  · have hagree := agree_export (S := (n ≤ ·)) (steadily_reliable second)
      (switching_reliable first second n) (fun m hm _ l => switching_scan_ge hm l)
      bundles ([], .null)
    rw [exportedDocument, exportedDocument, hagree.run (s := ⟨t, n⟩) fun m hm _ => hm]

end ExportAgreement
