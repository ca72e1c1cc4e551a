import LangKit.Assoc
import LangKit.Tree

/-!
# The store of nodes

A running program works on nodes that it can change and share. A node is a cell with a kind and the
number of a field table; two cells can have the same table, and then a field set through one of them
is seen through the other. A `Datum` is a value that refers to nodes instead of holding them.
-/

namespace LangKit

inductive Datum
  | null
  | bool (b : Bool)
  | int (n : Int)
  | text (s : String)
  | list (items : List Datum)
  | tuple (items : List Datum)
  | mapping (entries : List (Datum × Datum))
  | node (ref : Nat)
  deriving Inhabited, Repr

abbrev Fields := List (String × Datum)

/-- A node: its kind and the number of its field table. -/
structure Cell where
  kind : String
  table : Nat
  deriving Inhabited, Repr

structure Store where
  cells : Array Cell
  tables : Array Fields
  deriving Inhabited, Repr

namespace Store

def empty : Store := ⟨#[], #[]⟩

def cell (s : Store) (ref : Nat) : Cell :=
  s.cells.getD ref ⟨"", s.tables.size⟩

def kind (s : Store) (ref : Nat) : String :=
  (s.cell ref).kind

def fields (s : Store) (ref : Nat) : Fields :=
  s.tables.getD (s.cell ref).table []

def field? (s : Store) (ref : Nat) (name : String) : Option Datum :=
  Assoc.get? name (s.fields ref)

def alloc (s : Store) (kind : String) (fields : Fields) : Nat × Store :=
  (s.cells.size, ⟨s.cells.push ⟨kind, s.tables.size⟩, s.tables.push fields⟩)

def setKind (s : Store) (ref : Nat) (kind : String) : Store :=
  { s with cells := s.cells.modify ref fun c => { c with kind } }

def setField (s : Store) (ref : Nat) (name : String) (value : Datum) : Store :=
  let table := (s.cell ref).table
  { s with tables := s.tables.modify table (Assoc.put name value) }

/-- Gives a node the field table of another node, which they then share. -/
def shareTable (s : Store) (ref other : Nat) : Store :=
  let table := (s.cell other).table
  { s with cells := s.cells.modify ref fun c => { c with table } }

mutual

/-- Puts the nodes of a tree into the store, those of the fields before the node itself. -/
def load (s : Store) : Tree → Datum × Store
  | .null => (.null, s)
  | .bool b => (.bool b, s)
  | .int n => (.int n, s)
  | .text t => (.text t, s)
  | .list items => let (ds, s) := s.loadAll items; (.list ds, s)
  | .tuple items => let (ds, s) := s.loadAll items; (.tuple ds, s)
  | .mapping entries => let (es, s) := s.loadEntries entries; (.mapping es, s)
  | .node kind fields =>
    let (fs, s) := s.loadFields fields
    let (ref, s) := s.alloc kind fs
    (.node ref, s)

def loadAll (s : Store) : List Tree → List Datum × Store
  | [] => ([], s)
  | t :: rest =>
    let (d, s) := s.load t
    let (ds, s) := s.loadAll rest
    (d :: ds, s)

def loadEntries (s : Store) : List (Tree × Tree) → List (Datum × Datum) × Store
  | [] => ([], s)
  | (k, v) :: rest =>
    let (k', s) := s.load k
    let (v', s) := s.load v
    let (es, s) := s.loadEntries rest
    ((k', v') :: es, s)

def loadFields (s : Store) : List (String × Tree) → Fields × Store
  | [] => ([], s)
  | (name, t) :: rest =>
    let (d, s) := s.load t
    let (fs, s) := s.loadFields rest
    ((name, d) :: fs, s)

end

end Store

end LangKit
