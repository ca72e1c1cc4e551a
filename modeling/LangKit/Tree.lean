/-!
# Trees

A `Tree` is a finite value: the nothing value, a truth value, an integer, a text, a list, a tuple, a
mapping in order of insertion, or a node. A node has a kind and fields in order; the nodes of a
program's syntax tree and the plain values that a host passes in are both of this type.
-/

namespace LangKit

inductive Tree
  | null
  | bool (b : Bool)
  | int (n : Int)
  | text (s : String)
  | list (items : List Tree)
  | tuple (items : List Tree)
  | mapping (entries : List (Tree × Tree))
  | node (kind : String) (fields : List (String × Tree))
  deriving Inhabited, Repr

end LangKit
