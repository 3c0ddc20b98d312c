import Mathlib.Logic.Relation
import OISA.Cpp.Graph
import OISA.Lib.Digraphs
import OISA.Lib.Numbering

/-!
# What the removal of cycles leaves

The vertices get distinct positions, and every edge that leads to a lower one is reversed.
-/

namespace OISA.Cpp.LayeredGraph

open OISA.Lib

/-- The lists of the vertices have the ends of these edges, in any order. -/
structure Agrees (g : LayeredGraph) (edges : List Edge) : Prop where
  outgoing : Lists Edge.source_vertex Edge.destination_vertex edges g.outgoing_vertices
  incoming : Lists Edge.destination_vertex Edge.source_vertex edges g.incoming_vertices

/-- What holds of every graph in front of and behind the removal of cycles -/
structure WellFormed (g : LayeredGraph) : Prop where
  source : ∀ e ∈ g.edges, e.source_vertex < g.num_vertices
  destination : ∀ e ∈ g.edges, e.destination_vertex < g.num_vertices
  agrees : g.Agrees g.edges
  x_value : g.x_value = fun _ => 0
  key : g.key = fun _ => 0

inductive Built : LayeredGraph → Prop
  | empty : Built empty
  | addVertex {g} (h : Built g) : Built g.addVertex
  | addEdge {g source destination} (h : Built g) (hs : source < g.num_vertices)
      (hd : destination < g.num_vertices) : Built (g.addEdge source destination)
  | removeEdge {g g' index} (h : Built g) (hr : g.removeEdge index = some g') : Built g'
  | GreedyCycleRemoval {g g'} (h : Built g) (hr : g.GreedyCycleRemoval = some g') : Built g'

variable {g g' : LayeredGraph} {edge : Edge} {edges : List Edge} {all vs : List ℕ}

def withPositions (g : LayeredGraph) (x key : ℕ → ℤ) : LayeredGraph :=
  { g with x_value := x, key := key }

lemma placeEnds_spec {start last : ℤ} (hall : all.Nodup) (hvs : vs.Nodup) (hsub : vs ⊆ all)
    (hx : Numbered all g.x_value start last) (h0 : ∀ v ∈ vs, g.x_value v = 0) :
    ∃ start' last' x key, placeEnds vs start last g = (start', g.withPositions x key) ∧
      Numbered all x start' last' := by
  induction vs generalizing g start last with
  | nil => exact ⟨start, last, g.x_value, g.key, rfl, hx⟩
  | cons v vs ih =>
    obtain ⟨hv, hvs⟩ := List.nodup_cons.mp hvs
    obtain ⟨hmem, hsub⟩ := List.cons_subset.mp hsub
    have hv0 := h0 v List.mem_cons_self
    have hrest {n : ℤ} : ∀ u ∈ vs, Function.update g.x_value v n u = 0 := by
      intro u hu
      rw [Function.update_of_ne fun h : u = v => hv (h ▸ hu)]
      exact h0 u (List.mem_cons_of_mem v hu)
    unfold placeEnds
    dsimp only
    by_cases hout : (g.outgoing_vertices v).length = 0
    · rw [if_pos hout]
      exact ih hvs hsub (hx.giveLast hall hmem hv0) hrest
    · rw [if_neg hout]
      by_cases hin : (g.incoming_vertices v).length = 0
      · rw [if_pos hin]
        exact ih hvs hsub (hx.giveFirst hall hmem hv0) hrest
      · rw [if_neg hin]
        exact ih hvs hsub hx fun u hu => h0 u (List.mem_cons_of_mem v hu)

lemma placeOthers_spec {start last : ℤ} (hall : all.Nodup) (hsub : vs ⊆ all)
    (hx : Numbered all g.x_value start last) :
    ∃ start' x, placeOthers vs start g = g.withPositions x g.key ∧ Numbered all x start' last ∧
      (∀ v ∈ vs, x v ≠ 0) ∧ ∀ v, g.x_value v ≠ 0 → x v ≠ 0 := by
  induction vs generalizing g start with
  | nil => exact ⟨start, g.x_value, rfl, hx, fun v hv => absurd hv List.not_mem_nil, fun v h => h⟩
  | cons v vs ih =>
    obtain ⟨hmem, hsub⟩ := List.cons_subset.mp hsub
    unfold placeOthers
    by_cases hv0 : g.x_value v = 0
    · rw [if_pos hv0]
      have hpos := hx.pos
      obtain ⟨start', x, heq, hn, hplaced, hkept⟩ := ih
        (g := { g with x_value := Function.update g.x_value v start }) hsub
        (hx.giveFirst hall hmem hv0)
      refine ⟨start', x, heq, hn, ?_, fun u hu => hkept u ?_⟩
      · rintro u (_ | ⟨_, hu⟩)
        · refine hkept v ?_
          change Function.update g.x_value v start v ≠ 0
          rw [Function.update_self]
          omega
        · exact hplaced u hu
      · change Function.update g.x_value v start u ≠ 0
        rwa [Function.update_of_ne fun h : u = v => hu (h ▸ hv0)]
    · rw [if_neg hv0]
      obtain ⟨start', x, heq, hn, hplaced, hkept⟩ := ih hsub hx
      refine ⟨start', x, heq, hn, ?_, hkept⟩
      rintro u (_ | ⟨_, hu⟩)
      · exact hkept v hv0
      · exact hplaced u hu

def withLists (g : LayeredGraph) (outgoing incoming : ℕ → List ℕ) : LayeredGraph :=
  { g with outgoing_vertices := outgoing, incoming_vertices := incoming }

def turned (x : ℕ → ℤ) (edge : Edge) : Edge :=
  if x edge.destination_vertex < x edge.source_vertex then
    ⟨edge.destination_vertex, edge.source_vertex, true⟩
  else edge

lemma Agrees.perm {edges' : List Edge} (h : g.Agrees edges) (hp : edges.Perm edges') :
    g.Agrees edges' :=
  ⟨h.outgoing.perm hp, h.incoming.perm hp⟩

lemma reverseEdge_spec (h : g.Agrees (edge :: edges)) :
    ∃ outgoing incoming,
      g.reverseEdge edge = some (turned g.x_value edge, g.withLists outgoing incoming) ∧
      (g.withLists outgoing incoming).Agrees (turned g.x_value edge :: edges) := by
  unfold reverseEdge turned
  dsimp only
  by_cases hx : g.x_value edge.destination_vertex < g.x_value edge.source_vertex
  · rw [if_pos hx, if_pos hx]
    let back : Edge := ⟨edge.destination_vertex, edge.source_vertex, true⟩
    have hin := (h.incoming.append back).perm (List.Perm.swap edge back edges)
    refine ⟨_, _, ?_, h.outgoing.erase.append back, hin.erase⟩
    unfold eraseOutgoing
    rw [if_pos h.outgoing.mem_of_cons, Option.bind_eq_bind, Option.bind_some]
    unfold eraseIncoming
    rw [if_pos (by exact hin.mem_of_cons)]
    rfl
  · rw [if_neg hx, if_neg hx]
    exact ⟨g.outgoing_vertices, g.incoming_vertices, rfl, h⟩

lemma reverseEdges_spec {others : List Edge} (h : g.Agrees (edges ++ others)) :
    ∃ outgoing incoming, reverseEdges edges g =
        some (edges.map (turned g.x_value), g.withLists outgoing incoming) ∧
      (g.withLists outgoing incoming).Agrees (edges.map (turned g.x_value) ++ others) := by
  induction edges generalizing g others with
  | nil => exact ⟨g.outgoing_vertices, g.incoming_vertices, rfl, h⟩
  | cons edge edges ih =>
    obtain ⟨out₁, in₁, heq₁, h₁⟩ := reverseEdge_spec h
    obtain ⟨out₂, in₂, heq₂, h₂⟩ := ih (h₁.perm List.perm_middle.symm)
    refine ⟨out₂, in₂, ?_, h₂.perm List.perm_middle⟩
    unfold reverseEdges
    rw [heq₁, Option.bind_eq_bind, Option.bind_some]
    dsimp only
    rw [heq₂]
    rfl

lemma GreedyCycleRemoval_eq (h : g.WellFormed) :
    ∃ x outgoing incoming, (∀ u < g.num_vertices, ∀ v, x u = x v → u = v) ∧
      g.GreedyCycleRemoval =
        some { g.withLists outgoing incoming with edges := g.edges.map (turned x) } ∧
      (g.withLists outgoing incoming).Agrees (g.edges.map (turned x)) := by
  have hall := List.nodup_range (n := g.num_vertices)
  have hx0 : Numbered (List.range g.num_vertices) g.x_value 1 (g.num_vertices + 1) := by
    have hzero := numbered_zero (List.range g.num_vertices)
    rwa [List.length_range, ← h.x_value] at hzero
  obtain ⟨start, last, x₁, key, heq₁, hx₁⟩ := placeEnds_spec hall hall (List.Subset.refl _) hx0
    fun v _ => by rw [h.x_value]
  obtain ⟨_, x, heq₂, hx, hplaced, -⟩ := placeOthers_spec (g := g.withPositions x₁ key) hall
    (List.Subset.refl _) hx₁
  have hagrees : (g.withPositions x key).Agrees (g.edges ++ []) := by
    rw [List.append_nil]
    exact ⟨h.agrees.outgoing, h.agrees.incoming⟩
  obtain ⟨outgoing, incoming, heq₃, h₃⟩ := reverseEdges_spec hagrees
  rw [List.append_nil] at h₃
  refine ⟨x, outgoing, incoming, fun u hu v => ?_, ?_, h₃.outgoing, h₃.incoming⟩
  · exact hx.inj u v (hplaced u (List.mem_range.mpr hu))
  · unfold GreedyCycleRemoval
    dsimp only
    rw [heq₁]
    dsimp only
    rw [heq₂, Option.bind_eq_bind]
    change (reverseEdges g.edges (g.withPositions x key)).bind _ = _
    rw [heq₃, Option.bind_some]
    unfold withLists withPositions
    rw [h.x_value, h.key]
    rfl

lemma lists_addVertex {here there : Edge → ℕ} {n : ℕ} {lists : ℕ → List ℕ}
    (h : Lists here there edges lists) (hn : ∀ e ∈ edges, here e < n) :
    Lists here there edges (Function.update lists n []) := by
  intro v
  by_cases hv : v = n
  · have hnil : ends here there edges n = [] := by
      refine List.eq_nil_iff_forall_not_mem.mpr fun u hu => ?_
      obtain ⟨e, he, heq, -⟩ := mem_ends.mp hu
      exact (hn e he).ne heq
    rw [hv, Function.update_self, hnil]
  · rw [Function.update_of_ne hv]
    exact h v

lemma WellFormed.addVertex (h : g.WellFormed) : g.addVertex.WellFormed where
  source e he := (h.source e he).trans (Nat.lt_succ_self _)
  destination e he := (h.destination e he).trans (Nat.lt_succ_self _)
  agrees := ⟨lists_addVertex h.agrees.outgoing h.source,
    lists_addVertex h.agrees.incoming h.destination⟩
  x_value := by
    change Function.update g.x_value g.num_vertices 0 = _
    rw [h.x_value, Function.update_eq_self_iff]
  key := by
    change Function.update g.key g.num_vertices 0 = _
    rw [h.key, Function.update_eq_self_iff]

lemma WellFormed.addEdge (h : g.WellFormed) {source destination : ℕ}
    (hs : source < g.num_vertices) (hd : destination < g.num_vertices) :
    (g.addEdge source destination).WellFormed where
  source e he := by
    rcases List.mem_append.mp he with he | he
    · exact h.source e he
    · rwa [List.mem_singleton.mp he]
  destination e he := by
    rcases List.mem_append.mp he with he | he
    · exact h.destination e he
    · rwa [List.mem_singleton.mp he]
  agrees :=
    let edge : Edge := { source_vertex := source, destination_vertex := destination }
    have hp := (List.perm_append_singleton edge g.edges).symm
    ⟨(h.agrees.outgoing.append edge).perm hp, (h.agrees.incoming.append edge).perm hp⟩
  x_value := h.x_value
  key := h.key

lemma WellFormed.removeEdge (h : g.WellFormed) {index : ℕ} (hr : g.removeEdge index = some g') :
    g'.WellFormed := by
  unfold LayeredGraph.removeEdge at hr
  cases hi : g.edges[index]? with
  | none =>
    rw [hi] at hr
    cases hr
    exact h
  | some edge =>
    rw [hi] at hr
    have hperm : g.edges.Perm (edge :: g.edges.eraseIdx index) := by
      obtain ⟨hlt, heq⟩ := List.getElem?_eq_some_iff.mp hi
      rw [← heq]
      exact (List.getElem_cons_eraseIdx_perm hlt).symm
    have hagrees := h.agrees.perm hperm
    unfold eraseOutgoing eraseIncoming at hr
    dsimp only at hr
    rw [if_pos hagrees.outgoing.mem_of_cons, Option.bind_eq_bind, Option.bind_some,
      if_pos hagrees.incoming.mem_of_cons] at hr
    cases hr
    exact {
      source := fun e he => h.source e (List.mem_of_mem_eraseIdx he)
      destination := fun e he => h.destination e (List.mem_of_mem_eraseIdx he)
      agrees := ⟨hagrees.outgoing.erase, hagrees.incoming.erase⟩
      x_value := h.x_value
      key := h.key }

lemma turned_cases (x : ℕ → ℤ) (edge : Edge) :
    turned x edge = edge ∨
      turned x edge = ⟨edge.destination_vertex, edge.source_vertex, true⟩ := by
  unfold turned
  split_ifs
  · exact .inr rfl
  · exact .inl rfl

lemma WellFormed.GreedyCycleRemoval (h : g.WellFormed) (hr : g.GreedyCycleRemoval = some g') :
    g'.WellFormed := by
  obtain ⟨x, outgoing, incoming, -, heq, hagrees⟩ := GreedyCycleRemoval_eq h
  rw [heq] at hr
  cases hr
  have hrange : ∀ e ∈ g.edges.map (turned x),
      e.source_vertex < g.num_vertices ∧ e.destination_vertex < g.num_vertices := by
    intro e he
    obtain ⟨edge, hedge, rfl⟩ := List.mem_map.mp he
    obtain ht | ht := turned_cases x edge <;> rw [ht]
    · exact ⟨h.source edge hedge, h.destination edge hedge⟩
    · exact ⟨h.destination edge hedge, h.source edge hedge⟩
  exact {
    source := fun e he => (hrange e he).1
    destination := fun e he => (hrange e he).2
    agrees := ⟨hagrees.outgoing, hagrees.incoming⟩
    x_value := h.x_value
    key := h.key }

lemma Built.wellFormed (h : Built g) : g.WellFormed := by
  induction h with
  | empty =>
    exact {
      source := fun e he => absurd he List.not_mem_nil
      destination := fun e he => absurd he List.not_mem_nil
      agrees := ⟨fun _ => .nil, fun _ => .nil⟩
      x_value := rfl
      key := rfl }
  | addVertex _ ih => exact ih.addVertex
  | addEdge _ hs hd ih => exact ih.addEdge hs hd
  | removeEdge _ hr ih => exact ih.removeEdge hr
  | GreedyCycleRemoval _ hr ih => exact ih.GreedyCycleRemoval hr

lemma turned_lt {x : ℕ → ℤ} (hne : x edge.source_vertex ≠ x edge.destination_vertex) :
    x (turned x edge).source_vertex < x (turned x edge).destination_vertex := by
  unfold turned
  split_ifs with hx
  · exact hx
  · exact lt_of_le_of_ne (not_lt.mp hx) hne

lemma not_cyclic_of_lt {x : ℕ → ℤ} {adjacent : ℕ → List ℕ}
    (h : ∀ u, ∀ v ∈ adjacent u, x u < x v) : ¬Cyclic adjacent := by
  rintro ⟨v, hpath⟩
  have hlt {u w : ℕ} (hp : Relation.TransGen (fun a b => b ∈ adjacent a) u w) : x u < x w := by
    induction hp with
    | single hb => exact h _ _ hb
    | tail _ hb ih => exact ih.trans (h _ _ hb)
  exact lt_irrefl _ (hlt hpath)

/-- The removal of cycles ends for every graph without an edge from a vertex to itself. -/
theorem GreedyCycleRemoval_acyclic (h : Built g)
    (hloop : ∀ e ∈ g.edges, e.source_vertex ≠ e.destination_vertex) :
    ∃ g', g.GreedyCycleRemoval = some g' ∧
      ¬Cyclic (ends Edge.source_vertex Edge.destination_vertex g'.edges) ∧
      List.Forall₂ (fun e e' => e' = e ∨ e' = ⟨e.destination_vertex, e.source_vertex, true⟩)
        g.edges g'.edges ∧
      g'.Agrees g'.edges := by
  have hw := h.wellFormed
  obtain ⟨x, outgoing, incoming, hinj, heq, hagrees⟩ := GreedyCycleRemoval_eq hw
  refine ⟨_, heq, not_cyclic_of_lt (x := x) fun u v hv => ?_, ?_, hagrees.outgoing,
    hagrees.incoming⟩
  · obtain ⟨e, he, rfl, rfl⟩ := mem_ends.mp hv
    obtain ⟨edge, hedge, rfl⟩ := List.mem_map.mp he
    exact turned_lt fun hx => hloop edge hedge (hinj _ (hw.source edge hedge) _ hx)
  · rw [List.forall₂_map_right_iff]
    exact List.forall₂_same.mpr fun e _ => turned_cases x e

/-- The cycle 0, 1, 2 with an edge twice -/
theorem GreedyCycleRemoval_triangle :
    let g := ((((empty.addVertex.addVertex.addVertex.addEdge 0 1).addEdge 1 2).addEdge 2 0).addEdge
      2 0)
    ∃ g', g.GreedyCycleRemoval = some g' ∧
      ¬Cyclic (ends Edge.source_vertex Edge.destination_vertex g'.edges) ∧
      List.Forall₂ (fun e e' => e' = e ∨ e' = ⟨e.destination_vertex, e.source_vertex, true⟩)
        g.edges g'.edges ∧
      g'.Agrees g'.edges :=
  GreedyCycleRemoval_acyclic
    (((((Built.empty.addVertex.addVertex.addVertex).addEdge (by decide) (by decide)).addEdge
      (by decide) (by decide)).addEdge (by decide) (by decide)).addEdge (by decide) (by decide))
    (by decide)

end OISA.Cpp.LayeredGraph
