import OISA.Cpp.Graph
import OISA.Proofs.ManualRoutes

/-!
# What the search for cycles finds
-/

/-!
## The search for a cycle in a graph

A call of the search opens another one only for a vertex that is not visited.
-/

namespace OISA.Proofs.CycleSearch

open OISA.Lib

structure Sound (g : Cpp.Graph) : Prop where
  source : ∀ edge ∈ g.edges, edge.1 < g.num_vertices
  destination : ∀ edge ∈ g.edges, edge.2 < g.num_vertices

variable {g : Cpp.Graph} {marks marks' : Marks} {fuel v : ℕ}

lemma mem_outgoing {v a : ℕ} : a ∈ g.outgoing v ↔ (v, a) ∈ g.edges := by
  unfold Cpp.Graph.outgoing
  rw [List.mem_filterMap]
  constructor
  · rintro ⟨edge, hedge, h⟩
    split_ifs at h with hv
    cases h
    rw [← hv]
    exact hedge
  · intro h
    exact ⟨(v, a), h, if_pos rfl⟩

lemma Sound.outgoing (h : Sound g) {a : ℕ} (ha : a ∈ g.outgoing v) :
    a ∈ List.range g.num_vertices :=
  List.mem_range.mpr (h.destination _ (mem_outgoing.mp ha))

lemma visitOutgoing_eq {as : List ℕ} (has : ∀ a ∈ as, a < g.num_vertices)
    (hcalls : ∀ (a : ℕ) (m : Marks), a < g.num_vertices → m.Left g.outgoing →
      m.fresh (List.range g.num_vertices) < fuel →
        g.CycleDetectionDepthFirstTraverse fuel a m = some (traverse g.outgoing fuel a m))
    (hleft : marks.Left g.outgoing) (hfuel : marks.fresh (List.range g.num_vertices) < fuel) :
    g.visitOutgoing (g.CycleDetectionDepthFirstTraverse fuel) as marks =
      some (visitAll (traverse g.outgoing fuel) as marks) := by
  induction as generalizing marks with
  | nil => rfl
  | cons a as ih =>
    have ha := has a List.mem_cons_self
    have hstep : (if a ∈ marks.visited then some (false, marks)
        else g.CycleDetectionDepthFirstTraverse fuel a marks) =
        some (if a ∈ marks.visited then (false, marks)
          else traverse g.outgoing fuel a marks) := by
      split_ifs
      · rfl
      · exact hcalls a marks ha hleft hfuel
    rw [Cpp.Graph.visitOutgoing, if_neg (not_not.mpr ha), hstep, visitAll]
    cases hcall : if a ∈ marks.visited then (false, marks) else traverse g.outgoing fuel a marks with
    | mk found m =>
      cases found with
      | true => rfl
      | false =>
        simp only [Option.bind_some, Bool.false_eq_true, if_false]
        have hm : m.Left g.outgoing ∧ marks.Extends m := by
          by_cases hvisited : a ∈ marks.visited
          · rw [if_pos hvisited] at hcall
            cases hcall
            exact ⟨hleft, ⟨fun _ hu => hu, fun _ => Iff.rfl⟩⟩
          · rw [if_neg hvisited] at hcall
            have hspec := traverse_spec hleft (fun hin => hvisited (hleft.visited a hin)) hcall
            exact ⟨hspec.1, hspec.2.1⟩
        split_ifs
        · rfl
        · exact ih (fun b hb => has b (List.mem_cons_of_mem a hb)) hm.1
            (hm.2.fresh_le.trans_lt hfuel)

lemma traverse_eq (h : Sound g) (hv : v < g.num_vertices) (hleft : marks.Left g.outgoing)
    (hfuel : marks.fresh (List.range g.num_vertices) < fuel) :
    g.CycleDetectionDepthFirstTraverse fuel v marks = some (traverse g.outgoing fuel v marks) := by
  induction fuel generalizing v marks with
  | zero => exact absurd hfuel (Nat.not_lt_zero _)
  | succ fuel ih =>
    rw [Cpp.Graph.CycleDetectionDepthFirstTraverse, Lib.traverse]
    by_cases hvisited : v ∈ marks.visited
    · rw [if_pos hvisited, if_pos hvisited]
      rfl
    · have hfresh := Marks.fresh_visit (List.mem_range.mpr hv) hvisited (v :: marks.stacked)
      have has : ∀ a ∈ g.outgoing v, a < g.num_vertices :=
        fun a ha => List.mem_range.mp (h.outgoing ha)
      have hloop := visitOutgoing_eq has (fun a m ha hm hlt => ih ha hm hlt) (hleft.visit v)
        (by omega)
      rw [if_neg hvisited, if_neg hvisited, hloop]
      rfl

lemma searchFrom_eq (h : Sound g) {vs : List ℕ} (hvs : ∀ v ∈ vs, v < g.num_vertices)
    (hleft : marks.Left g.outgoing) (hempty : ∀ u, u ∉ marks.stacked)
    (hfuel : g.num_vertices < fuel) :
    g.searchFrom fuel vs marks = some (traverseAll g.outgoing fuel vs marks) := by
  induction vs generalizing marks with
  | nil => rfl
  | cons v vs ih =>
    have hfresh : marks.fresh (List.range g.num_vertices) < fuel :=
      (List.length_filter_le _ _).trans_lt (by rwa [List.length_range])
    rw [Cpp.Graph.searchFrom, traverse_eq h (hvs v List.mem_cons_self) hleft hfresh, traverseAll]
    cases hcall : traverse g.outgoing fuel v marks with
    | mk found m =>
      cases found with
      | true => rfl
      | false =>
        obtain ⟨hm, hextends, -⟩ := traverse_spec hleft (hempty v) hcall
        exact ih (fun u hu => hvs u (List.mem_cons_of_mem v hu)) hm
          fun u hu => hempty u ((hextends.stacked u).mp hu)

/-- The search ends and finds a cycle exactly when there is one. -/
theorem hasCycle_exact (h : Sound g) (hfuel : g.num_vertices < fuel) :
    ∃ found, g.hasCycle fuel = some found ∧ (found = true ↔ Cyclic g.outgoing) := by
  have hrange : ∀ v ∈ List.range g.num_vertices, v < g.num_vertices := fun v => List.mem_range.mp
  refine ⟨_, searchFrom_eq h hrange Marks.left_nil (fun _ => List.not_mem_nil) hfuel, ?_, ?_⟩
  · exact cyclic_of_traverseAll (fun _ _ _ ha => h.outgoing ha) (by rwa [List.length_range])
      (fun _ hv => hv) Marks.left_nil fun _ => List.not_mem_nil
  · rintro ⟨v, hpath⟩
    by_contra hfound
    obtain ⟨a, hedge, -⟩ := Relation.TransGen.head'_iff.mp hpath
    have hv := List.mem_range.mpr (h.source _ (mem_outgoing.mp hedge))
    have hends := ends_of_traverseAll Marks.left_nil (fun _ => List.not_mem_nil)
      (Bool.eq_false_iff.mpr hfound) v hv
    exact hends.no_path (Relation.transGen_swap.mpr hpath)

end OISA.Proofs.CycleSearch

/-!
## Cycles of routes

The graph of a routing table has a vertex for each output buffer of an entry of its node.
-/

namespace OISA.Proofs.RoutingCycles

open OISA.Lib OISA.Net.ManualRoutes OISA.Proofs.CycleSearch

variable {n : ℕ} (net : Network n) (t : Table n)

/-- The second buffer is the one that the table gives at the next node, for the same
destination. -/
def Follows (B B' : ℕ) : Prop :=
  ∃ s d next, (t.entries s d).buffer = some B ∧ (t.entries s d).next_node = some next ∧
    (t.entries next d).buffer = some B'

def Known (B : ℕ) : Prop := ∃ v d, B ∈ net.output_buffers v ∧ (t.entries v d).buffer = some B

def Mapped : Prop := ∀ B B', Follows t B B' → Known net t B ∧ Known net t B'

lemma mem_involved {B : ℕ} : B ∈ involved net t ↔ Known net t B := by
  unfold involved Known
  simp only [List.mem_flatMap, List.mem_finRange, true_and, List.mem_filter, List.any_eq_true,
    decide_eq_true_eq]
  exact exists_congr fun v => exists_and_left.symm

lemma dependency_eq_some {s d : Fin n} {B B' : ℕ} :
    dependency t s d = some (B, B') ↔ (t.entries s d).buffer = some B ∧
      ∃ next, (t.entries s d).next_node = some next ∧ (t.entries next d).buffer = some B' := by
  unfold dependency
  split_ifs with h
  · subst h
    simp [t.self]
  · simp only [Option.bind_eq_bind, Option.bind_eq_some_iff, Option.some.injEq, Prod.mk.injEq]
    constructor
    · rintro ⟨B₁, hB, next, hnext, B₂, hB', rfl, rfl⟩
      exact ⟨hB, next, hnext, hB'⟩
    · rintro ⟨hB, next, hnext, hB'⟩
      exact ⟨B, hB, next, hnext, B', hB', rfl, rfl⟩

lemma follows_iff {B B' : ℕ} : Follows t B B' ↔ ∃ s d, dependency t s d = some (B, B') := by
  simp only [dependency_eq_some]
  constructor
  · rintro ⟨s, d, next, hB, hnext, hB'⟩
    exact ⟨s, d, hB, next, hnext, hB'⟩
  · rintro ⟨s, d, hB, next, hnext, hB'⟩
    exact ⟨s, d, next, hB, hnext, hB'⟩

section Graph

lemma addVertices (l : List ℕ) (g : Cpp.Graph) : l.foldl (fun g _ => g.addVertex) g =
    { g with num_vertices := g.num_vertices + l.length } := by
  induction l generalizing g with
  | nil => rfl
  | cons B l ih =>
    rw [List.foldl_cons, ih, List.length_cons]
    unfold Cpp.Graph.addVertex
    simp only [Cpp.Graph.mk.injEq, and_true]
    omega

lemma vertex_of_known {B : ℕ} (h : Known net t B) :
    vertex net t B = some ((involved net t).idxOf B) := if_pos ((mem_involved net t).mpr h)

lemma vertex_of_not_known {B : ℕ} (h : ¬ Known net t B) : vertex net t B = none :=
  if_neg fun hin => h ((mem_involved net t).mp hin)

lemma addDependency_spec (hmapped : Mapped net t) (g : Cpp.Graph) (p : Fin n × Fin n) :
    ∃ g', addDependency net t g p = some g' ∧ g'.num_vertices = g.num_vertices ∧
      ∀ edge, edge ∈ g'.edges ↔ edge ∈ g.edges ∨ ∃ B B', dependency t p.1 p.2 = some (B, B') ∧
        edge = ((involved net t).idxOf B, (involved net t).idxOf B') := by
  unfold addDependency
  cases hdep : dependency t p.1 p.2 with
  | none => exact ⟨g, rfl, rfl, fun edge => by simp⟩
  | some buffers =>
    obtain ⟨B, B'⟩ := buffers
    obtain ⟨hB, hB'⟩ := hmapped B B' ((follows_iff t).mpr ⟨p.1, p.2, hdep⟩)
    simp only [vertex_of_known net t hB, vertex_of_known net t hB', Option.bind_eq_bind,
      Option.bind_some, Option.some.injEq, Prod.mk.injEq]
    refine ⟨_, rfl, ?_, fun edge => ?_⟩
    · split_ifs <;> rfl
    · split_ifs with hfind
      · have hmem := List.contains_iff_mem.mp hfind
        constructor
        · exact Or.inl
        · rintro (hedge | ⟨_, _, ⟨rfl, rfl⟩, rfl⟩)
          · exact hedge
          · exact hmem
      · unfold Cpp.Graph.addEdge
        rw [List.mem_append, List.mem_singleton]
        constructor
        · rintro (hedge | rfl)
          · exact Or.inl hedge
          · exact Or.inr ⟨B, B', ⟨rfl, rfl⟩, rfl⟩
        · rintro (hedge | ⟨_, _, ⟨rfl, rfl⟩, rfl⟩)
          · exact Or.inl hedge
          · exact Or.inr rfl

lemma addDependencies_spec (hmapped : Mapped net t) (l : List (Fin n × Fin n)) (g : Cpp.Graph) :
    ∃ g', l.foldlM (addDependency net t) g = some g' ∧ g'.num_vertices = g.num_vertices ∧
      ∀ edge, edge ∈ g'.edges ↔ edge ∈ g.edges ∨ ∃ p ∈ l, ∃ B B',
        dependency t p.1 p.2 = some (B, B') ∧
          edge = ((involved net t).idxOf B, (involved net t).idxOf B') := by
  induction l generalizing g with
  | nil => exact ⟨g, rfl, rfl, fun edge => by simp⟩
  | cons p l ih =>
    obtain ⟨g₁, hstep, hnum, hedges⟩ := addDependency_spec net t hmapped g p
    obtain ⟨g', hrest, hnum', hedges'⟩ := ih g₁
    refine ⟨g', ?_, hnum'.trans hnum, fun edge => ?_⟩
    · rw [List.foldlM_cons, hstep]
      exact hrest
    · rw [hedges', hedges, or_assoc]
      simp only [List.exists_mem_cons_iff]

lemma addDependencies_none {l : List (Fin n × Fin n)} {p : Fin n × Fin n} (hp : p ∈ l) {B B' : ℕ}
    (hdep : dependency t p.1 p.2 = some (B, B')) (hnot : ¬ (Known net t B ∧ Known net t B'))
    (g : Cpp.Graph) : l.foldlM (addDependency net t) g = none := by
  induction l generalizing g with
  | nil => exact absurd hp List.not_mem_nil
  | cons q l ih =>
    rw [List.foldlM_cons]
    rcases List.mem_cons.mp hp with rfl | hp
    · unfold addDependency
      rw [hdep]
      rcases not_and_or.mp hnot with hB | hB
      · simp [vertex_of_not_known net t hB]
      · simp [vertex_of_not_known net t hB]
    · cases hstep : addDependency net t g q with
      | none => rfl
      | some g₁ => exact ih hp g₁

def Represents (g : Cpp.Graph) : Prop :=
  g.num_vertices = (involved net t).length ∧
    ∀ a b, (a, b) ∈ g.edges ↔ ∃ B B', Follows t B B' ∧ a = (involved net t).idxOf B ∧
      b = (involved net t).idxOf B'

variable {net t} {g : Cpp.Graph}

lemma Represents.sound (h : Represents net t g) (hmapped : Mapped net t) : Sound g := by
  have hlt : ∀ {B}, Known net t B → (involved net t).idxOf B < g.num_vertices := by
    intro B hB
    rw [h.1, List.idxOf_lt_length_iff]
    exact (mem_involved net t).mpr hB
  refine ⟨fun edge hedge => ?_, fun edge hedge => ?_⟩
  · obtain ⟨B, B', hfollows, ha, -⟩ := (h.2 edge.1 edge.2).mp hedge
    rw [ha]
    exact hlt (hmapped B B' hfollows).1
  · obtain ⟨B, B', hfollows, -, hb⟩ := (h.2 edge.1 edge.2).mp hedge
    rw [hb]
    exact hlt (hmapped B B' hfollows).2

lemma getD_idxOf_involved {B : ℕ} (h : Known net t B) :
    (involved net t).getD ((involved net t).idxOf B) 0 = B := by
  have hlt := List.idxOf_lt_length_iff.mpr ((mem_involved net t).mpr h)
  rw [List.getD_eq_getElem?_getD, List.getElem?_eq_getElem hlt, Option.getD_some]
  exact List.getElem_idxOf hlt

lemma Represents.cyclic_iff (h : Represents net t g) (hmapped : Mapped net t) :
    Cyclic g.outgoing ↔ ∃ B, Relation.TransGen (Follows t) B B := by
  constructor
  · rintro ⟨v, hpath⟩
    refine ⟨(involved net t).getD v 0, ?_⟩
    refine hpath.lift (fun v => (involved net t).getD v 0) fun a b hedge => ?_
    obtain ⟨B, B', hfollows, rfl, rfl⟩ := (h.2 a b).mp (mem_outgoing.mp hedge)
    obtain ⟨hB, hB'⟩ := hmapped B B' hfollows
    change Follows t ((involved net t).getD _ 0) ((involved net t).getD _ 0)
    rw [getD_idxOf_involved hB, getD_idxOf_involved hB']
    exact hfollows
  · rintro ⟨B, hpath⟩
    refine ⟨(involved net t).idxOf B, ?_⟩
    refine hpath.lift (involved net t).idxOf fun B B' hfollows => ?_
    exact mem_outgoing.mpr ((h.2 _ _).mpr ⟨B, B', hfollows, rfl, rfl⟩)

end Graph

section Check

variable {net t}

lemma hasCycle_of_mapped (hmapped : Mapped net t) :
    ∃ g, Represents net t g ∧ ∀ fuel, hasCycle net t fuel = g.hasCycle fuel := by
  obtain ⟨g, hfold, hnum, hedges⟩ := addDependencies_spec net t hmapped
    ((List.finRange n).flatMap fun source => (List.finRange n).map fun destination =>
      (source, destination))
    ((involved net t).foldl (fun g _ => g.addVertex) Cpp.Graph.empty)
  refine ⟨g, ⟨?_, fun a b => ?_⟩, fun fuel => ?_⟩
  · rw [hnum, addVertices]
    exact Nat.zero_add _
  · rw [hedges, addVertices]
    simp only [follows_iff, Cpp.Graph.empty, List.not_mem_nil, false_or, List.mem_flatMap,
      List.mem_finRange, List.mem_map, true_and, Prod.mk.injEq]
    constructor
    · rintro ⟨p, -, B, B', hdep, ha, hb⟩
      exact ⟨B, B', ⟨p.1, p.2, hdep⟩, ha, hb⟩
    · rintro ⟨B, B', ⟨s, d, hdep⟩, ha, hb⟩
      exact ⟨(s, d), ⟨s, d, rfl⟩, B, B', hdep, ha, hb⟩
  · unfold hasCycle
    simp only [hfold, Option.bind_eq_bind, Option.bind_some]

lemma hasCycle_of_not_mapped (h : ¬ Mapped net t) (fuel : ℕ) : hasCycle net t fuel = none := by
  unfold Mapped at h
  simp only [not_forall] at h
  obtain ⟨B, B', hfollows, hnot⟩ := h
  obtain ⟨s, d, hdep⟩ := (follows_iff t).mp hfollows
  have hmem : (s, d) ∈ (List.finRange n).flatMap fun source => (List.finRange n).map
      fun destination => (source, destination) := by
    simp
  unfold hasCycle
  simp only [addDependencies_none net t hmem hdep hnot,
    Option.bind_eq_bind, Option.bind_none]

/-- Once enough calls can be open, the check answers whether the routes have a cycle. -/
def ReportsCycles (net : Network n) (t : Table n) : Prop :=
  ∃ found, (∀ fuel, (involved net t).length < fuel → hasCycle net t fuel = some found) ∧
    (found = true ↔ ∃ B, Relation.TransGen (Follows t) B B)

/-- The check is exact when each pair of buffers that follow each other are output buffers of
entries of their nodes. -/
theorem reportsCycles_iff (net : Network n) (t : Table n) :
    ReportsCycles net t ↔ Mapped net t := by
  constructor
  · rintro ⟨found, hfound, -⟩
    by_contra hnot
    have hsome := hfound _ (Nat.lt_succ_self _)
    rw [hasCycle_of_not_mapped hnot] at hsome
    cases hsome
  · intro hmapped
    obtain ⟨g, hg, hcheck⟩ := hasCycle_of_mapped hmapped
    classical
    refine ⟨decide (∃ B, Relation.TransGen (Follows t) B B), fun fuel hfuel => ?_,
      decide_eq_true_iff⟩
    rw [← hg.1] at hfuel
    obtain ⟨found, hfound, hiff⟩ := hasCycle_exact (hg.sound hmapped) hfuel
    rw [hcheck, hfound, Option.some.injEq, Bool.eq_iff_iff, hiff, hg.cyclic_iff hmapped,
      decide_eq_true_iff]

end Check

/-- A route by hand from node 0 over the bus to node 1 and on to node 2. -/
theorem not_reportsCycles_bus : ¬ ∀ (net : Network 3) (t : Table 3), ReportsCycles net t := by
  intro h
  obtain ⟨found, hfound, -⟩ := h ManualRoutes.mixedNetwork
    (UpdateRoute ManualRoutes.mixedNetwork (Table.Initialize ManualRoutes.mixedNetwork) 0
      (Fin.last 2) 1 0).2
  have hsome := hfound _ (Nat.lt_succ_self _)
  cases hsome

end OISA.Proofs.RoutingCycles
