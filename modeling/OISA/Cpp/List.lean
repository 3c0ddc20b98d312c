import Mathlib.Tactic

/-!
# Intrusive lists

Model of `lib/cpp/List.h`: the links of a node are kept in the node, under its address.
-/

namespace OISA.Cpp

structure ListNode where
  prev : Option ℕ := none
  next : Option ℕ := none
  list : Bool := false
  deriving DecidableEq, Repr

structure NodeList where
  nodes : ℕ → ListNode := fun _ => {}
  head : Option ℕ := none
  tail : Option ℕ := none
  size : ℕ := 0

namespace NodeList

def setNext (s : NodeList) (node : ℕ) (next : Option ℕ) : NodeList :=
  { s with nodes := Function.update s.nodes node { s.nodes node with next := next } }

def setPrev (s : NodeList) (node : ℕ) (prev : Option ℕ) : NodeList :=
  { s with nodes := Function.update s.nodes node { s.nodes node with prev := prev } }

def setList (s : NodeList) (node : ℕ) (list : Bool) : NodeList :=
  { s with nodes := Function.update s.nodes node { s.nodes node with list := list } }

def begin (s : NodeList) : Option ℕ := s.head

def «end» (_ : NodeList) : Option ℕ := none

/-- The part of `Insert` that links the node -/
def insertLinks (s : NodeList) (position : Option ℕ) (node : ℕ) : Option NodeList :=
  if s.size = 0 then
    some { s with
      head := some node
      tail := some node }
  else if position = s.begin then do
    let s := s.setNext node s.head
    let head ← s.head
    let s := s.setPrev head (some node)
    some { s with head := some node }
  else if position = s.end then do
    let s := s.setPrev node s.tail
    let tail ← s.tail
    let s := s.setNext tail (some node)
    some { s with tail := some node }
  else do
    let position ← position
    let s := s.setPrev node (s.nodes position).prev
    let s := s.setNext node (some position)
    let s := s.setPrev position (some node)
    let prev ← (s.nodes node).prev
    some (s.setNext prev (some node))

def Insert (s : NodeList) (position : Option ℕ) (node : ℕ) : Option (NodeList × Option ℕ) :=
  if (s.nodes node).list then none
  else do
    let s ← s.insertLinks position node
    some ({ s with size := s.size + 1 }.setList node true, some node)

def PushBack (s : NodeList) (node : ℕ) : Option (NodeList × Option ℕ) := s.Insert s.end node

def PushFront (s : NodeList) (node : ℕ) : Option (NodeList × Option ℕ) := s.Insert s.begin node

/-- The part of `Erase` that takes the node out of the links -/
def eraseLinks (s : NodeList) (node : ℕ) : Option NodeList :=
  if s.size = 1 then
    if s.head = some node ∧ s.tail = some node then
      some { s with
        head := none
        tail := none }
    else none
  else if some node = s.head then do
    let next ← (s.nodes node).next
    let s := s.setPrev next none
    some { s with head := (s.nodes node).next }
  else if some node = s.tail then do
    let prev ← (s.nodes node).prev
    let s := s.setNext prev none
    some { s with tail := (s.nodes node).prev }
  else do
    let prev ← (s.nodes node).prev
    let s := s.setNext prev (s.nodes node).next
    let next ← (s.nodes node).next
    some (s.setPrev next (s.nodes node).prev)

def Erase (s : NodeList) (position : Option ℕ) : Option (NodeList × Option ℕ) := do
  let node ← position
  if 0 < s.size ∧ (s.nodes node).list then
    let s ← s.eraseLinks node
    let s := s.setList node false
    some ({ s with size := s.size - 1 }, (s.nodes node).next)
  else none

inductive Op
  | insert (position : Option ℕ) (node : ℕ)
  | pushBack (node : ℕ)
  | pushFront (node : ℕ)
  | erase (node : ℕ)
  deriving DecidableEq, Repr

def perform : Op → NodeList → Option NodeList
  | .insert position node, s => (s.Insert position node).map (·.1)
  | .pushBack node, s => (s.PushBack node).map (·.1)
  | .pushFront node, s => (s.PushFront node).map (·.1)
  | .erase node, s => (s.Erase (some node)).map (·.1)

end NodeList

end OISA.Cpp
