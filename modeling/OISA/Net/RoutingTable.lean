import Mathlib.Tactic

/-!
# Routing tables

Model of `network/RoutingTable.cc` over the nodes, links and buses of a network.
-/

namespace OISA.Net

inductive NodeKind
  | EndNode
  | Switch
  deriving DecidableEq, Repr

/-- A connection, with the nodes of its destination buffers: one for each virtual channel of a
link, any for a bus. -/
inductive Connection (n : ℕ)
  | Link (destination : Fin n) (num_virtual_channels : ℕ)
  | Bus (destinations : List (Fin n))
  deriving DecidableEq

def Connection.destinations {n : ℕ} : Connection n → List (Fin n)
  | .Link destination num_virtual_channels => List.replicate num_virtual_channels destination
  | .Bus destinations => destinations

/-- A network of `n` nodes. `addLink` refuses a link of two end nodes. -/
structure Network (n : ℕ) where
  kind : Fin n → NodeKind
  /-- the connections of the output buffers of each node -/
  output_buffers : Fin n → List (Connection n)
  links_valid : ∀ source destination num_virtual_channels,
    Connection.Link destination num_virtual_channels ∈ output_buffers source →
      ¬(kind source = .EndNode ∧ kind destination = .EndNode)

/-- `RoutingTable::Entry`; a buffer is its node and its position there. -/
structure Entry (n : ℕ) where
  cost : ℕ
  next_node : Option (Fin n)
  buffer : Option (Fin n × ℕ)
  deriving DecidableEq

abbrev Table (n : ℕ) := Fin n → Fin n → Entry n

namespace Table

variable {n : ℕ}

def put (t : Table n) (i j : Fin n) (entry : Entry n) : Table n :=
  fun i' j' => if i' = i ∧ j' = j then entry else t i' j'

def infinite (n : ℕ) : Table n := fun i j =>
  { cost := if i = j then 0 else n, next_node := none, buffer := none }

def hops (network : Network n) : List (Fin n × ℕ × Fin n) :=
  (List.finRange n).flatMap fun node =>
    (network.output_buffers node).zipIdx.flatMap fun (connection, j) =>
      connection.destinations.map fun dst_node => (node, j, dst_node)

def setHop (t : Table n) : Fin n × ℕ × Fin n → Table n
  | (node, j, dst_node) =>
    if node ≠ dst_node then
      t.put node dst_node { cost := 1, next_node := some dst_node, buffer := some (node, j) }
    else t

def Initialize (network : Network n) : Table n := (hops network).foldl setHop (infinite n)

def pairs (n : ℕ) : List (Fin n × Fin n) :=
  (List.finRange n).flatMap fun i => (List.finRange n).map fun j => (i, j)

def relax (k : Fin n) (t : Table n) : Fin n × Fin n → Table n
  | (i, j) =>
    let temp_cost := (t i k).cost + (t k j).cost
    if (t i j).cost > temp_cost then
      t.put i j { t i j with
        cost := temp_cost
        next_node := some k }
    else t

def costs (t : Table n) : Table n :=
  (List.finRange n).foldl (fun t k => (pairs n).foldl (relax k) t) t

def follow (t : Table n) (i : Fin n) : ℕ → Fin n → Option (Fin n)
  | 0, _ => none
  | fuel + 1, next_node =>
    if (t i next_node).cost ≤ 1 then some next_node
    else (t i next_node).next_node.bind (follow t i fuel)

def findBuffer (network : Network n) (i next_node : Fin n) : Option ℕ :=
  (network.output_buffers i).findIdx? fun connection => decide (next_node ∈ connection.destinations)

/-- One iteration of the second part of `FloydWarshall`. -/
def resolve (network : Network n) (fuel : ℕ) (t : Table n) : Fin n × Fin n → Option (Table n)
  | (i, j) =>
    match (t i j).next_node with
    | none => some (t.put i j { t i j with buffer := none })
    | some next_node => do
      let next_node ← follow t i fuel next_node
      match findBuffer network i next_node with
      | none => return t
      | some k => return t.put i j { t i j with
          next_node := some next_node
          buffer := some (i, k) }

/-- `FloydWarshall`, with a bound on the steps of each following loop. -/
def FloydWarshall (network : Network n) (fuel : ℕ) (t : Table n) : Option (Table n) :=
  (pairs n).foldlM (resolve network fuel) t.costs

end Table

/-- What the input-buffer handler does with a packet at the head of its buffer. -/
inductive Handling
  | Receive
  | Forward
  | Error
  deriving DecidableEq, Repr

/-- `EventTypeInputBufferHandler`: only the destination and switches take a packet. -/
def Network.inputBufferHandler {n : ℕ} (network : Network n) (node destination : Fin n) :
    Handling :=
  if node = destination then .Receive
  else match network.kind node with
    | .Switch => .Forward
    | .EndNode => .Error

end OISA.Net
