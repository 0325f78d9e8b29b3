import Mathlib.Data.List.Nodup
import Mathlib.Logic.Relation

/-! # Numbering the vertices of a graph on the fly

The vertices of a graph are numbered by first occurrence while its edges are collected. The
numbered graph has a cycle exactly when the original one has, a self-loop being a cycle. -/
namespace VertexNumbering

variable {α β : Type*}

def EdgeRel (edges : List (α × α)) (a b : α) : Prop := (a, b) ∈ edges

def Cyclic (R : α → α → Prop) : Prop := ∃ a, Relation.TransGen R a a

theorem not_cyclic_of_no_edge {R : α → α → Prop} (h : ∀ a b, ¬ R a b) : ¬ Cyclic R := by
  rintro ⟨a, ha⟩
  cases ha with
  | single hab => exact h _ _ hab
  | tail _ hab => exact h _ _ hab

/-- The numbered graph: vertices in order of first occurrence, edges between positions. -/
structure Numbering (α : Type*) where
  vertices : List α
  edges : List (ℕ × ℕ)

section Numbering

variable [DecidableEq α]

/-- The position of a vertex, which is appended when it is new. -/
def vertexIndex (vertices : List α) (a : α) : List α × ℕ :=
  if a ∈ vertices then (vertices, vertices.idxOf a) else (vertices ++ [a], vertices.length)

def Numbering.addEdge (g : Numbering α) (a b : α) : Numbering α :=
  let source := vertexIndex g.vertices a
  let dest := vertexIndex source.1 b
  ⟨dest.1, g.edges ++ [(source.2, dest.2)]⟩

/-- The numbering represents this list of edges. -/
structure Numbering.Represents (g : Numbering α) (edges : List (α × α)) : Prop where
  endpoints : ∀ e ∈ edges, e.1 ∈ g.vertices ∧ e.2 ∈ g.vertices
  numbered : g.edges = edges.map fun e => (g.vertices.idxOf e.1, g.vertices.idxOf e.2)

theorem vertexIndex_spec (vertices : List α) (a : α) :
    (∃ l, (vertexIndex vertices a).1 = vertices ++ l) ∧ a ∈ (vertexIndex vertices a).1 ∧
      (vertexIndex vertices a).2 = (vertexIndex vertices a).1.idxOf a := by
  unfold vertexIndex
  split
  · exact ⟨⟨[], by simp⟩, ‹_›, rfl⟩
  · next h => exact ⟨⟨[a], rfl⟩, by simp, by simp [List.idxOf_append_of_notMem h]⟩

theorem represents_nil : Numbering.Represents (⟨[], []⟩ : Numbering α) [] :=
  ⟨by simp, rfl⟩

theorem Numbering.Represents.addEdge {g : Numbering α} {edges : List (α × α)}
    (h : g.Represents edges) (a b : α) :
    (g.addEdge a b).Represents (edges ++ [(a, b)]) := by
  obtain ⟨⟨l, hl⟩, ha, hia⟩ := vertexIndex_spec g.vertices a
  obtain ⟨⟨k, hk⟩, hb, hib⟩ := vertexIndex_spec (vertexIndex g.vertices a).1 b
  have hgrow : ∃ m, (g.addEdge a b).vertices = g.vertices ++ m :=
    ⟨l ++ k, by rw [← List.append_assoc, ← hl]; exact hk⟩
  obtain ⟨m, hm⟩ := hgrow
  have ha' : a ∈ (g.addEdge a b).vertices := by
    simp only [Numbering.addEdge, hk]
    exact List.mem_append_left _ ha
  refine ⟨?_, ?_⟩
  · intro e he
    rcases List.mem_append.mp he with he | he
    · rw [hm]
      exact ⟨List.mem_append_left _ (h.endpoints e he).1,
        List.mem_append_left _ (h.endpoints e he).2⟩
    · rw [List.mem_singleton.mp he]
      exact ⟨ha', hb⟩
  · rw [List.map_append]
    change g.edges ++ [_] = _
    congr 1
    · rw [h.numbered]
      refine List.map_congr_left fun e he => ?_
      rw [hm, List.idxOf_append_of_mem (h.endpoints e he).1,
        List.idxOf_append_of_mem (h.endpoints e he).2]
    · simp only [List.map_cons, List.map_nil, List.cons.injEq, and_true, Prod.mk.injEq]
      refine ⟨?_, hib⟩
      have hv : (g.addEdge a b).vertices = (vertexIndex g.vertices a).1 ++ k := hk
      rw [hia, hv, List.idxOf_append_of_mem ha]

theorem Numbering.Represents.inRange {g : Numbering α} {edges : List (α × α)}
    (h : g.Represents edges) :
    ∀ e ∈ g.edges, e.1 < g.vertices.length ∧ e.2 < g.vertices.length := by
  intro e he
  rw [h.numbered, List.mem_map] at he
  obtain ⟨d, hd, rfl⟩ := he
  exact ⟨List.idxOf_lt_length_of_mem (h.endpoints d hd).1,
    List.idxOf_lt_length_of_mem (h.endpoints d hd).2⟩

end Numbering

theorem transGen_map {f : α → β} {edges : List (α × α)} {V : α → Prop}
    (hV : ∀ e ∈ edges, V e.1 ∧ V e.2) (hinj : ∀ a b, V a → V b → f a = f b → a = b) {u v : β}
    (h : Relation.TransGen (EdgeRel (edges.map fun e => (f e.1, f e.2))) u v) :
    ∃ a b, u = f a ∧ v = f b ∧ V a ∧ V b ∧ Relation.TransGen (EdgeRel edges) a b := by
  induction h with
  | single hs =>
    obtain ⟨e, he, heq⟩ := List.mem_map.mp hs
    cases heq
    exact ⟨e.1, e.2, rfl, rfl, (hV e he).1, (hV e he).2, Relation.TransGen.single he⟩
  | tail _ hs ih =>
    obtain ⟨a, b, hu, hv, ha, hb, hp⟩ := ih
    obtain ⟨e, he, heq⟩ := List.mem_map.mp hs
    cases heq
    have hbe : b = e.1 := hinj b e.1 hb (hV e he).1 hv.symm
    subst hbe
    exact ⟨a, e.2, hu, rfl, ha, (hV e he).2, hp.tail he⟩

theorem cyclic_map_iff {f : α → β} {edges : List (α × α)} {V : α → Prop}
    (hV : ∀ e ∈ edges, V e.1 ∧ V e.2) (hinj : ∀ a b, V a → V b → f a = f b → a = b) :
    Cyclic (EdgeRel (edges.map fun e => (f e.1, f e.2))) ↔ Cyclic (EdgeRel edges) := by
  constructor
  · rintro ⟨u, hu⟩
    obtain ⟨a, b, ha, hb, hva, hvb, hp⟩ := transGen_map hV hinj hu
    have hab : a = b := hinj a b hva hvb (ha.symm.trans hb)
    subst hab
    exact ⟨a, hp⟩
  · rintro ⟨a, ha⟩
    refine ⟨f a, ?_⟩
    exact Relation.TransGen.lift f (fun x y hxy => List.mem_map.mpr ⟨(x, y), hxy, rfl⟩) a a ha

theorem Numbering.Represents.cyclic_iff [DecidableEq α] {g : Numbering α}
    {edges : List (α × α)} (h : g.Represents edges) :
    Cyclic (EdgeRel g.edges) ↔ Cyclic (EdgeRel edges) := by
  rw [h.numbered]
  refine cyclic_map_iff (f := fun a => g.vertices.idxOf a) h.endpoints ?_
  intro a b ha hb hab
  exact (List.idxOf_inj ha).mp hab

end VertexNumbering
