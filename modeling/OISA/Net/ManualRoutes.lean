import OISA.Cpp.Graph
import OISA.Lib.Runs

/-!
# Routes set by hand

Model of `RoutingTable::Initialize`, `UpdateRoute`, `UpdateManualRoutingCost` and `hasCycle` over
the buffers of a network.
-/

namespace OISA.Net.ManualRoutes

inductive Connection (n : ℕ) where
  | link (destination_node : Fin n) (num_virtual_channels : ℕ) (source_buffers : List ℕ)
  | bus (destination_buffers : List ℕ)
  deriving DecidableEq

/-- The constructor of a link makes as many source buffers as virtual channels, all of them output
buffers of one node. -/
def Connection.At {n : ℕ} (output_buffers : List ℕ) : Connection n → Prop
  | .link _ num_virtual_channels source_buffers =>
    source_buffers.length = num_virtual_channels ∧ ∀ B ∈ source_buffers, B ∈ output_buffers
  | .bus _ => True

instance {n : ℕ} (output_buffers : List ℕ) : (c : Connection n) → Decidable (c.At output_buffers)
  | .link _ _ _ => inferInstanceAs (Decidable (_ ∧ _))
  | .bus _ => inferInstanceAs (Decidable True)

structure Network (n : ℕ) where
  output_buffers : Fin n → List ℕ
  connection : ℕ → Connection n
  node : ℕ → Fin n
  node_output : ∀ v, ∀ B ∈ output_buffers v, node B = v
  connection_at : ∀ v, ∀ B ∈ output_buffers v, (connection B).At (output_buffers v)

/-- The nodes of the destination buffers of a connection -/
def Network.destinations {n : ℕ} (net : Network n) : Connection n → List (Fin n)
  | .link destination_node num_virtual_channels _ =>
    List.replicate num_virtual_channels destination_node
  | .bus destination_buffers => destination_buffers.map net.node

structure Entry (n : ℕ) where
  cost : ℕ
  next_node : Option (Fin n)
  buffer : Option ℕ
  deriving DecidableEq

/-- An entry has a buffer only with a next node, and none for a route from a node to itself. -/
structure Table (n : ℕ) where
  entries : Fin n → Fin n → Entry n
  routed : ∀ s d, (entries s d).buffer.isSome → (entries s d).next_node.isSome
  self : ∀ d, (entries d d).buffer = none

namespace Table

variable {n : ℕ}

/-- The entry of two different nodes written -/
def put (t : Table n) {s d : Fin n} (h : s ≠ d) (cost : ℕ) (next_node : Fin n)
    (buffer : Option ℕ) : Table n where
  entries s' d' :=
    if s' = s ∧ d' = d then { cost, next_node := some next_node, buffer } else t.entries s' d'
  routed s' d' hbuffer := by
    split_ifs at hbuffer ⊢
    · rfl
    · exact t.routed s' d' hbuffer
  self d' := by
    rw [if_neg (fun hd => h (hd.1.symm.trans hd.2))]
    exact t.self d'

def infinite (n : ℕ) : Table n where
  entries i j := { cost := if i = j then 0 else n, next_node := none, buffer := none }
  routed _ _ h := h
  self _ := rfl

def hops (net : Network n) : List (Fin n × ℕ × Fin n) :=
  (List.finRange n).flatMap fun node => (net.output_buffers node).flatMap fun source_buffer =>
    (net.destinations (net.connection source_buffer)).map fun dst_node =>
      (node, source_buffer, dst_node)

def setHop (t : Table n) : Fin n × ℕ × Fin n → Table n
  | (node, source_buffer, dst_node) =>
    if h : node ≠ dst_node then t.put h 1 dst_node (some source_buffer) else t

def Initialize (net : Network n) : Table n := (hops net).foldl setHop (infinite n)

end Table

/-! ### Updates -/

inductive RouteError where
  | sameNode
  | wrongVirtualChannel
  | noVirtualChannel
  | missingConnection
  deriving DecidableEq, Repr

def RouteError.message (network source destination : String) : RouteError → String
  | .sameNode => "Network " ++ network ++ ": route " ++ source ++ ".to." ++ destination ++
      ": source and destination cannot be the same\n"
  | .wrongVirtualChannel => "Network " ++ network ++ ": route " ++ source ++ ".to." ++
      destination ++ ": wrong virtual channel\n"
  | .noVirtualChannel => "Network " ++ network ++ ": route " ++ source ++ ".to." ++
      destination ++ ":existing connection does not support virtual channel"
  | .missingConnection => "Network " ++ network ++ ": route " ++ source ++ ".to." ++
      destination ++ ": missing connection\n"

inductive Failure where
  | error (e : RouteError)
  | assertion
  deriving DecidableEq, Repr

section Update

variable {n : ℕ} (net : Network n)

/-- The loop over the output buffers: the buffer for the entry -/
def findBuffer (source next : Fin n) (virtual_channel : ℕ) : List ℕ → Except Failure ℕ
  | [] => .error (.error .missingConnection)
  | buffer :: buffers =>
    match net.connection buffer with
    | .link destination_node num_virtual_channels source_buffers =>
      if destination_node = next then
        if (virtual_channel : ℤ) > num_virtual_channels - 1 then
          .error (.error .wrongVirtualChannel)
        else
          match source_buffers[virtual_channel]? with
          | none => .error .assertion
          | some entry_buffer =>
            if net.node entry_buffer = source then .ok entry_buffer else .error .assertion
      else findBuffer source next virtual_channel buffers
    | .bus destination_buffers =>
      if virtual_channel ≠ 0 then .error (.error .noVirtualChannel)
      else
        match destination_buffers.find? fun destination_buffer =>
            net.node destination_buffer = next with
        | some destination_buffer => .ok destination_buffer
        | none => findBuffer source next virtual_channel buffers

/-- `RoutingTable::UpdateRoute`: the error, if one is raised, and the table -/
def UpdateRoute (t : Table n) (source destination next : Fin n) (virtual_channel : ℕ) :
    Option Failure × Table n :=
  if h : source ≠ destination then
    let entry := t.entries source destination
    match findBuffer net source next virtual_channel (net.output_buffers source) with
    | .error failure => (some failure, t.put h entry.cost next entry.buffer)
    | .ok buffer => (none, t.put h entry.cost next (some buffer))
  else (some (.error .sameNode), t)

end Update

section Costs

variable {n : ℕ}

def Table.setCost (t : Table n) (source destination : Fin n) (cost : ℕ) : Table n where
  entries s d :=
    if s = source ∧ d = destination then { t.entries s d with cost := cost } else t.entries s d
  routed s d hbuffer := by
    split_ifs at hbuffer ⊢ <;> exact t.routed s d hbuffer
  self d := by
    split_ifs <;> exact t.self d

/-- The loop that goes through the path of an entry, whose cost so far is `cost`, with the number
of turns that it may take -/
def followPath (t : Table n) (source destination : Fin n) : ℕ → Fin n → ℕ → Option ℕ
  | 0, _, _ => none
  | fuel + 1, next, cost =>
    if next = destination then some cost
    else
      match (t.entries next destination).next_node with
      | none => some cost
      | some path_entry =>
        let step := if next = source ∧ path_entry = destination then cost
          else (t.entries next path_entry).cost
        followPath t source destination fuel path_entry (cost + step)

def updateCost (fuel : ℕ) (nodes : Fin n × Fin n) (t : Table n) : Option (Table n) :=
  let (source, destination) := nodes
  match (t.entries source destination).next_node with
  | none => some t
  | some next =>
    (followPath t source destination fuel next (t.entries source next).cost).map
      (t.setCost source destination)

def UpdateManualRoutingCost (fuel : ℕ) (t : Table n) : Option (Table n) :=
  Lib.run (updateCost fuel) ((List.finRange n).flatMap fun source =>
    (List.finRange n).map fun destination => (source, destination)) t

end Costs

section Cycles

variable {n : ℕ} (net : Network n) (t : Table n)

def involved : List ℕ :=
  (List.finRange n).flatMap fun node => (net.output_buffers node).filter fun output_buffer =>
    (List.finRange n).any fun destination =>
      (t.entries node destination).buffer = some output_buffer

def vertex (buffer : ℕ) : Option ℕ :=
  if buffer ∈ involved net t then some ((involved net t).idxOf buffer) else none

def dependency (source destination : Fin n) : Option (ℕ × ℕ) :=
  if source = destination then none
  else do
    let source_vertex_buffer ← (t.entries source destination).buffer
    let next_node ← (t.entries source destination).next_node
    let destination_vertex_buffer ← (t.entries next_node destination).buffer
    some (source_vertex_buffer, destination_vertex_buffer)

def addDependency (g : Cpp.Graph) (nodes : Fin n × Fin n) : Option Cpp.Graph :=
  match dependency t nodes.1 nodes.2 with
  | none => some g
  | some (source_vertex_buffer, destination_vertex_buffer) => do
    let source_vertex ← vertex net t source_vertex_buffer
    let destination_vertex ← vertex net t destination_vertex_buffer
    some (if g.findEdge source_vertex destination_vertex then g
      else g.addEdge source_vertex destination_vertex)

/-- `RoutingTable::hasCycle`, with the number of calls that the search may have open -/
def hasCycle (fuel : ℕ) : Option Bool := do
  let graph := (involved net t).foldl (fun g _ => g.addVertex) Cpp.Graph.empty
  let graph ← ((List.finRange n).flatMap fun source => (List.finRange n).map fun destination =>
    (source, destination)).foldlM (addDependency net t) graph
  graph.hasCycle fuel

end Cycles

end OISA.Net.ManualRoutes
