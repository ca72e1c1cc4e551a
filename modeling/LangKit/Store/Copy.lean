import LangKit.Store

/-!
# Deep copies

A deep copy of a value copies every node that can be reached from it, and no node twice: nodes and
field tables that are shared in the value are shared in the copy in the same way. The copy of a
value is a value over new nodes only.
-/

namespace LangKit

/-- A copy under way: the store, and which nodes and tables have been copied to which. -/
structure Copying where
  store : Store
  cells : List (Nat × Nat)
  tables : List (Nat × Nat)

namespace Datum

section

variable {σ : Type} (copyNode : Nat → σ → Nat × σ)

mutual

/-- Replaces the nodes of a value one after the other, from left to right. -/
def mapNodes : Datum → σ → Datum × σ
  | .null, s => (.null, s)
  | .bool b, s => (.bool b, s)
  | .int n, s => (.int n, s)
  | .text t, s => (.text t, s)
  | .list items, s => let (ds, s) := mapNodesAll items s; (.list ds, s)
  | .tuple items, s => let (ds, s) := mapNodesAll items s; (.tuple ds, s)
  | .mapping entries, s => let (es, s) := mapNodesEntries entries s; (.mapping es, s)
  | .node ref, s => let (ref', s) := copyNode ref s; (.node ref', s)

def mapNodesAll : List Datum → σ → List Datum × σ
  | [], s => ([], s)
  | d :: rest, s =>
    let (d', s) := mapNodes d s
    let (ds, s) := mapNodesAll rest s
    (d' :: ds, s)

def mapNodesEntries : List (Datum × Datum) → σ → List (Datum × Datum) × σ
  | [], s => ([], s)
  | (k, v) :: rest, s =>
    let (k', s) := mapNodes k s
    let (v', s) := mapNodes v s
    let (es, s) := mapNodesEntries rest s
    ((k', v') :: es, s)

end

def mapNodesFields : Fields → σ → Fields × σ
  | [], s => ([], s)
  | (name, d) :: rest, s =>
    let (d', s) := mapNodes copyNode d s
    let (fs, s) := mapNodesFields rest s
    ((name, d') :: fs, s)

end

end Datum

namespace Copying

/-- A copy of a node. A node that is met again gives the copy that was made of it, so the depth of
the recursion is at most the number of nodes. -/
def copyNode : Nat → Nat → Copying → Nat × Copying
  | 0, ref, c => (ref, c)
  | fuel + 1, ref, c =>
    match c.cells.lookup ref with
    | some ref' => (ref', c)
    | none =>
      let old := c.store.cell ref
      match c.tables.lookup old.table with
      | some table' =>
        let ref' := c.store.cells.size
        (ref', { c with
          store := { c.store with cells := c.store.cells.push ⟨old.kind, table'⟩ }
          cells := (ref, ref') :: c.cells })
      | none =>
        let fields := c.store.fields ref
        let (ref', store) := c.store.alloc old.kind []
        let table' := (store.cell ref').table
        let c : Copying := ⟨store, (ref, ref') :: c.cells, (old.table, table') :: c.tables⟩
        let (fields', c) := Datum.mapNodesFields (copyNode fuel) fields c
        (ref', { c with store := { c.store with tables := c.store.tables.set! table' fields' } })

end Copying

namespace Store

def copyFields (s : Store) (fields : Fields) : Fields × Store :=
  let (fields', c) := Datum.mapNodesFields (Copying.copyNode (s.cells.size + 1)) fields ⟨s, [], []⟩
  (fields', c.store)

def copy (s : Store) (d : Datum) : Datum × Store :=
  let (d', c) := Datum.mapNodes (Copying.copyNode (s.cells.size + 1)) d ⟨s, [], []⟩
  (d', c.store)

end Store

end LangKit
