import LangKit.Store.Display

/-!
# Trees with shared nodes

A shared tree can name a node that stands elsewhere in it: nodes have numbers, and a number stands
for the node that has it. Such trees are put into a store, and the values of a store are written as
such trees, each node once.
-/

namespace LangKit

inductive SharedTree
  | leaf (t : Tree)
  | list (items : List SharedTree)
  | tuple (items : List SharedTree)
  | mapping (entries : List (SharedTree × SharedTree))
  | node (number : Option Int) (kind : String) (fields : List (String × SharedTree))
  | same (number : Int)
  deriving Inhabited, Repr

namespace SharedTree

mutual

/-- The tree without sharing; a node that is only named is left out. -/
def tree : SharedTree → Tree
  | leaf t => t
  | list items => .list (treeAll items)
  | tuple items => .tuple (treeAll items)
  | mapping entries => .mapping (treeEntries entries)
  | node _ kind fields => .node kind (treeFields fields)
  | same _ => .null

def treeAll : List SharedTree → List Tree
  | [] => []
  | t :: rest => tree t :: treeAll rest

def treeEntries : List (SharedTree × SharedTree) → List (Tree × Tree)
  | [] => []
  | (k, v) :: rest => (tree k, tree v) :: treeEntries rest

def treeFields : List (String × SharedTree) → List (String × Tree)
  | [] => []
  | (name, t) :: rest => (name, tree t) :: treeFields rest

end

mutual

def ofTree : Tree → SharedTree
  | .list items => list (ofTrees items)
  | .tuple items => tuple (ofTrees items)
  | .mapping entries => mapping (ofEntries entries)
  | .node kind fields => node none kind (ofFields fields)
  | t => leaf t

def ofTrees : List Tree → List SharedTree
  | [] => []
  | t :: rest => ofTree t :: ofTrees rest

def ofEntries : List (Tree × Tree) → List (SharedTree × SharedTree)
  | [] => []
  | (k, v) :: rest => (ofTree k, ofTree v) :: ofEntries rest

def ofFields : List (String × Tree) → List (String × SharedTree)
  | [] => []
  | (name, t) :: rest => (name, ofTree t) :: ofFields rest

end

end SharedTree

/-- Shared trees on their way into a store: the store, and the nodes of the numbers so far. -/
structure Placing where
  store : Store
  numbers : List (Int × Nat)
  deriving Inhabited

namespace Placing

mutual

def place : SharedTree → StateM Placing Datum
  | .leaf t => fun p =>
    let (d, store) := p.store.load t
    (d, { p with store })
  | .list items => do return .list (← placeAll items)
  | .tuple items => do return .tuple (← placeAll items)
  | .mapping entries => do return .mapping (← placeEntries entries)
  | .same number => fun p =>
    match p.numbers.lookup number with
    | some ref => (.node ref, p)
    | none => (.null, p)
  | .node number kind fields => do
    let p ← get
    let (ref, store) := p.store.alloc kind []
    let numbers := match number with
      | some n => (n, ref) :: p.numbers
      | none => p.numbers
    set ({ store, numbers } : Placing)
    placeFields ref fields
    return .node ref

def placeAll : List SharedTree → StateM Placing (List Datum)
  | [] => pure []
  | t :: rest => do
    let d ← place t
    return d :: (← placeAll rest)

def placeEntries : List (SharedTree × SharedTree) → StateM Placing (List (Datum × Datum))
  | [] => pure []
  | (k, v) :: rest => do
    let k ← place k
    let v ← place v
    return (k, v) :: (← placeEntries rest)

def placeFields (ref : Nat) : List (String × SharedTree) → StateM Placing Unit
  | [] => pure ()
  | (name, t) :: rest => do
    let d ← place t
    modify fun p => { p with store := p.store.setField ref name d }
    placeFields ref rest

end

end Placing

abbrev Written := List (Nat × Nat)

namespace Datum

section

variable (node : Nat → StateM Written SharedTree)

mutual

def sharedWith : Datum → StateM Written SharedTree
  | .list items => do return .list (← sharedAll items)
  | .tuple items => do return .tuple (← sharedAll items)
  | .mapping entries => do return .mapping (← sharedEntries entries)
  | .node ref => node ref
  | .null => pure (.leaf .null)
  | .bool b => pure (.leaf (.bool b))
  | .int n => pure (.leaf (.int n))
  | .text s => pure (.leaf (.text s))

def sharedAll : List Datum → StateM Written (List SharedTree)
  | [] => pure []
  | d :: rest => do
    let t ← sharedWith d
    return t :: (← sharedAll rest)

def sharedEntries : List (Datum × Datum) → StateM Written (List (SharedTree × SharedTree))
  | [] => pure []
  | (k, v) :: rest => do
    let k ← sharedWith k
    let v ← sharedWith v
    return (k, v) :: (← sharedEntries rest)

end

end

end Datum

namespace Store

def briefFields : List String := ["statements", "args"]

def sharedFields (s : Store) (node : Nat → StateM Written SharedTree) :
    Fields → StateM Written (List (String × SharedTree))
  | [] => pure []
  | (name, d) :: rest => do
    let t ← match briefFields.contains name, d with
      | true, .list items =>
        pure (.list (items.map fun x => .leaf (.text ((s.textOf x).toOption.getD ""))))
      | _, _ => d.sharedWith node
    return (name, t) :: (← s.sharedFields node rest)

/-- A node as a shared tree. A node is written once, so the number of nodes bounds the depth. -/
def sharedNode (s : Store) : Nat → Nat → StateM Written SharedTree
  | 0, _ => pure (.leaf .null)
  | fuel + 1, ref => do
    let seen ← get
    match seen.lookup ref with
    | some n => return .same n
    | none =>
      set ((ref, seen.length) :: seen)
      let fields ← s.sharedFields (s.sharedNode fuel) (s.fields ref)
      return .node (some seen.length) (s.kind ref) fields

def shared (s : Store) (d : Datum) : StateM Written SharedTree :=
  d.sharedWith (s.sharedNode (s.cells.size + 1))

def sharedScope (s : Store) : List (String × Datum) → StateM Written (List (String × SharedTree))
  | [] => pure []
  | (name, d) :: rest => do
    let t ← s.shared d
    return (name, t) :: (← s.sharedScope rest)

def treeFields (node : Nat → Tree) (fields : Fields) : List (String × Tree) :=
  fields.map fun e => (e.1, e.2.outlineWith node)

/-- A node as a tree. A tree that goes deeper than there are nodes would never end. -/
def nodeTree (s : Store) : Nat → Nat → Tree
  | 0, _ => .null
  | fuel + 1, ref => .node (s.kind ref) (treeFields (s.nodeTree fuel) (s.fields ref))

/-- A value as a tree, in which a shared node stands several times. -/
def tree (s : Store) (d : Datum) : Tree :=
  d.outlineWith (s.nodeTree (s.cells.size + 1))

end Store

end LangKit
