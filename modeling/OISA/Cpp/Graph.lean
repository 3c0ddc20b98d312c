import OISA.Lib.Digraphs
import Mathlib.Data.List.Sort
import Mathlib.Logic.Function.Basic

/-!
# Directed graphs

Model of the vertices and edges of `lib/cpp/Graph.cc` and of its search for a cycle. A vertex is
its position in the list of vertices.
-/

namespace OISA.Cpp

open OISA.Lib

structure Graph where
  num_vertices : ℕ
  edges : List (ℕ × ℕ)

namespace Graph

def empty : Graph where
  num_vertices := 0
  edges := []

def addVertex (g : Graph) : Graph := { g with num_vertices := g.num_vertices + 1 }

def addEdge (g : Graph) (source destination : ℕ) : Graph :=
  { g with edges := g.edges ++ [(source, destination)] }

def findEdge (g : Graph) (source destination : ℕ) : Bool := g.edges.contains (source, destination)

variable (g : Graph)

def outgoing (v : ℕ) : List ℕ :=
  g.edges.filterMap fun edge => if edge.1 = v then some edge.2 else none

/-- The loop over the outgoing vertices -/
def visitOutgoing (visit : ℕ → Marks → Option (Bool × Marks)) :
    List ℕ → Marks → Option (Bool × Marks)
  | [], marks => some (false, marks)
  | a :: as, marks =>
    if ¬ a < g.num_vertices then none
    else
      (if a ∈ marks.visited then some (false, marks) else visit a marks).bind fun (found, marks) =>
        if found then some (true, marks)
        else if a ∈ marks.stacked then some (true, marks)
        else visitOutgoing visit as marks

def CycleDetectionDepthFirstTraverse : ℕ → ℕ → Marks → Option (Bool × Marks)
  | 0, _, _ => none
  | fuel + 1, v, marks =>
    (if v ∈ marks.visited then some (false, marks)
      else g.visitOutgoing (CycleDetectionDepthFirstTraverse fuel) (g.outgoing v) {
        visited := v :: marks.visited
        stacked := v :: marks.stacked }).map fun (found, marks) =>
      if found then (true, marks)
      else (false, { marks with stacked := marks.stacked.filter (· ≠ v) })

def searchFrom (fuel : ℕ) : List ℕ → Marks → Option Bool
  | [], _ => some false
  | v :: vs, marks =>
    (g.CycleDetectionDepthFirstTraverse fuel v marks).bind fun (found, marks) =>
      if found then some true else searchFrom fuel vs marks

def hasCycle (fuel : ℕ) : Option Bool :=
  g.searchFrom fuel (List.range g.num_vertices) { visited := [], stacked := [] }

end Graph

end OISA.Cpp

/-!
## Graphs that are drawn in layers

Model of `Graph::GreedyCycleRemoval` and `Graph::CoffmanGrahamLayering` in `lib/cpp/Graph.cc`,
with the operations that build a graph.
-/

namespace OISA.Cpp

structure Edge where
  source_vertex : ℕ
  destination_vertex : ℕ
  reversed : Bool := false
deriving DecidableEq

structure LayeredGraph where
  num_vertices : ℕ
  x_value : ℕ → ℤ
  y_value : ℕ → ℤ
  key : ℕ → ℤ
  incoming_vertices : ℕ → List ℕ
  outgoing_vertices : ℕ → List ℕ
  edges : List Edge

namespace LayeredGraph

def empty : LayeredGraph where
  num_vertices := 0
  x_value _ := 0
  y_value _ := -1
  key _ := 0
  incoming_vertices _ := []
  outgoing_vertices _ := []
  edges := []

variable (g : LayeredGraph)

/-- `Graph::addVertex`, with the fields of a new vertex -/
def addVertex : LayeredGraph := { g with
  num_vertices := g.num_vertices + 1
  x_value := Function.update g.x_value g.num_vertices 0
  y_value := Function.update g.y_value g.num_vertices (-1)
  key := Function.update g.key g.num_vertices 0
  incoming_vertices := Function.update g.incoming_vertices g.num_vertices []
  outgoing_vertices := Function.update g.outgoing_vertices g.num_vertices [] }

def appendOutgoing (v u : ℕ) : LayeredGraph := { g with
  outgoing_vertices := Function.update g.outgoing_vertices v (g.outgoing_vertices v ++ [u]) }

def appendIncoming (v u : ℕ) : LayeredGraph := { g with
  incoming_vertices := Function.update g.incoming_vertices v (g.incoming_vertices v ++ [u]) }

def eraseOutgoing (v u : ℕ) : Option LayeredGraph :=
  if u ∈ g.outgoing_vertices v then some { g with
    outgoing_vertices := Function.update g.outgoing_vertices v ((g.outgoing_vertices v).erase u) }
  else none

def eraseIncoming (v u : ℕ) : Option LayeredGraph :=
  if u ∈ g.incoming_vertices v then some { g with
    incoming_vertices := Function.update g.incoming_vertices v ((g.incoming_vertices v).erase u) }
  else none

def addEdge (source destination : ℕ) : LayeredGraph :=
  let edge : Edge := { source_vertex := source, destination_vertex := destination }
  let g := { g with edges := g.edges ++ [edge] }
  (g.appendOutgoing source destination).appendIncoming destination source

def removeEdge (index : ℕ) : Option LayeredGraph :=
  match g.edges[index]? with
  | none => some g
  | some edge => do
    let g := { g with edges := g.edges.eraseIdx index }
    let g ← g.eraseOutgoing edge.source_vertex edge.destination_vertex
    g.eraseIncoming edge.destination_vertex edge.source_vertex

/-! ### Cycle removal -/

/-- The first loop of `GreedyCycleRemoval` -/
def placeEnds : List ℕ → ℤ → ℤ → LayeredGraph → ℤ × LayeredGraph
  | [], start, _, g => (start, g)
  | v :: vs, start, last, g =>
    let key := (g.outgoing_vertices v).length - (g.incoming_vertices v).length
    let keyed := { g with key := Function.update g.key v key }
    if (g.outgoing_vertices v).length = 0 then
      placeEnds vs start (last - 1) { keyed with x_value := Function.update g.x_value v last }
    else if (g.incoming_vertices v).length = 0 then
      placeEnds vs (start + 1) last { keyed with x_value := Function.update g.x_value v start }
    else placeEnds vs start last keyed

def placeOthers : List ℕ → ℤ → LayeredGraph → LayeredGraph
  | [], _, g => g
  | v :: vs, start, g =>
    if g.x_value v = 0 then
      placeOthers vs (start + 1) { g with x_value := Function.update g.x_value v start }
    else placeOthers vs start g

/-- One turn of the loop over the edges, with the edge that it leaves -/
def reverseEdge (edge : Edge) : Option (Edge × LayeredGraph) :=
  let source := edge.source_vertex
  let destination := edge.destination_vertex
  if g.x_value destination < g.x_value source then do
    let g ← g.eraseOutgoing source destination
    let g := g.appendIncoming source destination
    let g ← g.eraseIncoming destination source
    let g := g.appendOutgoing destination source
    pure (⟨destination, source, true⟩, g)
  else some (edge, g)

def reverseEdges : List Edge → LayeredGraph → Option (List Edge × LayeredGraph)
  | [], g => some ([], g)
  | edge :: edges, g => do
    let (edge, g) ← g.reverseEdge edge
    let (edges, g) ← reverseEdges edges g
    pure (edge :: edges, g)

/-- `Graph::GreedyCycleRemoval`. The sorted copy of the list of vertices is not read. -/
def GreedyCycleRemoval : Option LayeredGraph := do
  let vertices := List.range g.num_vertices
  let (start, g) := placeEnds vertices 1 (g.num_vertices + 1) g
  let g := placeOthers vertices start g
  let (edges, g) ← reverseEdges g.edges g
  pure { g with edges := edges, x_value := fun _ => 0, key := fun _ => 0 }

/-! ### Layers -/

def labelSources : List ℕ → ℕ → LayeredGraph → ℕ × LayeredGraph
  | [], label, g => (label, g)
  | v :: vs, label, g =>
    if (g.incoming_vertices v).length = 0 then
      labelSources vs (label + 1) { g with key := Function.update g.key v label }
    else labelSources vs label g

def candidates : List ℕ :=
  (List.range g.num_vertices).filter fun v =>
    g.key v = 0 ∧ ∀ u ∈ g.incoming_vertices v, g.key u ≠ 0

def sortIncoming (v : ℕ) : LayeredGraph := { g with
  incoming_vertices := Function.update g.incoming_vertices v
    ((g.incoming_vertices v).insertionSort fun a b => g.key a ≤ g.key b) }

/-- The loop that compares incoming vertices from the end, by the addresses of the vertices:
whether the alternative is better, if they differ -/
def lexical (address : ℕ → ℕ) : List ℕ → List ℕ → Option Bool
  | c :: cs, a :: as => if c = a then lexical address cs as else some (address a < address c)
  | _, _ => none

/-- The loop over the alternative candidates -/
def chooseCandidate (address : ℕ → ℕ) : List ℕ → ℕ → LayeredGraph → ℕ × LayeredGraph
  | [], candidate, g => (candidate, g)
  | alternate :: rest, candidate, g =>
    let g := g.sortIncoming alternate
    let candidate_incoming := g.incoming_vertices candidate
    let alternate_incoming := g.incoming_vertices alternate
    match lexical address candidate_incoming.reverse alternate_incoming.reverse with
    | some true => chooseCandidate address rest alternate g
    | some false => chooseCandidate address rest candidate g
    | none =>
      if alternate_incoming.length < candidate_incoming.length then
        chooseCandidate address rest alternate g
      else chooseCandidate address rest candidate g

def labelOthers (address : ℕ → ℕ) : ℕ → ℕ → LayeredGraph → Option LayeredGraph
  | 0, _, g => some g
  | count + 1, label, g =>
    match g.candidates with
    | [] => none
    | candidate :: rest =>
      let (candidate, g) := chooseCandidate address rest candidate (g.sortIncoming candidate)
      labelOthers address count (label + 1) { g with key := Function.update g.key candidate label }

def assignLabels (address : ℕ → ℕ) : Option LayeredGraph :=
  let (label, g) := labelSources (List.range g.num_vertices) 1 g
  labelOthers address (g.num_vertices + 1 - label) label g

def layerAbove (v : ℕ) : ℤ :=
  (g.outgoing_vertices v).foldl (fun layer u => if g.y_value u ≥ layer then g.y_value u + 1
    else layer) 0

def layerWidth (ordered_list : List ℕ) (layer : ℤ) : ℕ :=
  ordered_list.countP fun v => g.y_value v = layer

def placeCandidate (width : ℕ) (ordered_list : List ℕ) (candidate : ℕ) : LayeredGraph :=
  let layer := g.layerAbove candidate
  let layer := if g.layerWidth ordered_list layer < width then layer else layer + 1
  { g with y_value := Function.update g.y_value candidate layer }

/-- The loop over the unordered list from its end, with the vertices that it has passed and left.
-/
def layerPass (width : ℕ) :
    List ℕ → List ℕ → Option ℕ → List ℕ → LayeredGraph → List ℕ × List ℕ × LayeredGraph
  | [], passed, _, ordered_list, g => (passed, ordered_list, g)
  | v :: vs, passed, candidate, ordered_list, g =>
    let ready := ∀ u ∈ g.outgoing_vertices v, u ∈ ordered_list
    match if ready then some v else candidate with
    | none => layerPass width vs (v :: passed) none ordered_list g
    | some candidate =>
      layerPass width vs passed (some candidate) (ordered_list ++ [candidate])
        (g.placeCandidate width ordered_list candidate)

def layerPasses (width : ℕ) : ℕ → List ℕ → List ℕ → LayeredGraph → Option LayeredGraph
  | 0, _, _, _ => none
  | fuel + 1, unordered_list, ordered_list, g =>
    if unordered_list = [] then some g
    else
      let (unordered_list, ordered_list, g) :=
        layerPass width unordered_list.reverse [] none ordered_list g
      layerPasses width fuel unordered_list ordered_list g

def unorderedList : List ℕ :=
  (List.range g.num_vertices).insertionSort fun a b => g.key a ≤ g.key b

/-- `Graph::CoffmanGrahamLayering`, with the highest layer -/
def CoffmanGrahamLayering (address : ℕ → ℕ) (width fuel : ℕ) : Option (ℤ × LayeredGraph) := do
  let g ← g.assignLabels address
  let g ← layerPasses width fuel g.unorderedList [] g
  pure ((List.range g.num_vertices).foldl (fun n v => max n (g.y_value v)) 0, g)

end LayeredGraph

end OISA.Cpp
