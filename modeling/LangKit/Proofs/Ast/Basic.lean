import LangKit.Script.Operator

/-!
# Programs as typed trees

The syntax trees of programs, each form of expression and statement as a constructor of its own. The
parser works on plain trees, in which any kind of node can have any fields; `Program.tree` gives the
plain tree of a program. Names, texts and numbers carry the proof that they can be written down, and
a block or a program is never empty, so every value of these types is the tree of some text.
-/

namespace LangKit.Script

def BinaryOp.token : BinaryOp → TokenKind
  | .add => .plus
  | .subtract => .minus
  | .multiply => .multiply
  | .divide => .divide
  | .equal => .eq
  | .notEqual => .notEq
  | .order .less => .less
  | .order .lessEqual => .lessEq
  | .order .greater => .greater
  | .order .greaterEqual => .greaterEq
  | .and => .and
  | .or => .or

def BinaryOp.nodeKind : BinaryOp → String
  | .add => "+"
  | .subtract => "-"
  | .multiply => "*"
  | .divide => "/"
  | .equal => "=="
  | .notEqual => "!="
  | .order o => o.sign
  | .and => "&&"
  | .or => "||"

def UnaryOp.token : UnaryOp → TokenKind
  | .negate => .minus
  | .not => .not

def UnaryOp.nodeKind : UnaryOp → String
  | .negate => "neg"
  | .not => "!"

namespace Ast

/-- Is a text a name? Reserved words are none. -/
def isName (s : String) : Bool :=
  match s.toList with
  | [] => false
  | c :: cs => Text.isNameStart c && cs.all Text.isWord && (TokenKind.reserved.lookup s).isNone

structure Name where
  text : String
  valid : isName text = true
  deriving DecidableEq

/-- Can a text stand between quotes? -/
def isQuotable (s : String) : Bool :=
  s.toList.all fun c => c != '"' && c != '\n'

/-- A text that can stand between quotes. -/
structure Quotable where
  text : String
  valid : isQuotable text = true
  deriving DecidableEq

/-- A number that is not too long to be written. -/
structure Numeral where
  value : Nat
  valid : (Text.Decimal.digits value).length ≤ Text.Decimal.digitLimit
  deriving DecidableEq

inductive Place
  | plain (x : Name)
  | member (x y : Name)
  deriving DecidableEq

def Place.text : Place → String
  | .plain x => x.text
  | .member x y => x.text ++ "." ++ y.text

structure Formal where
  name : Name
  byRef : Bool
  deriving DecidableEq

mutual

inductive Expr
  | int (n : Numeral)
  | bool (b : Bool)
  | nil
  | object
  | string (s : Quotable)
  | var (x : Place)
  | unary (op : UnaryOp) (e : Expr)
  | binary (op : BinaryOp) (left right : Expr)
  | call (f : Name) (args : Args)
  | method (object method : Name) (args : Args)
  | lambda (formals : List Formal) (body : Block)

inductive Args
  | nil
  | cons (e : Expr) (rest : Args)

inductive Stmt
  | assign (x : Place) (e : Expr)
  | choice (condition : Expr) (body : Block)
  | choiceElse (condition : Expr) (body other : Block)
  | loop (condition : Expr) (body : Block)
  | result (e : Expr)
  | noResult
  | expr (e : Expr)

inductive Block
  | last (s : Stmt)
  | cons (s : Stmt) (rest : Block)

end

structure Function where
  name : Name
  formals : List Formal
  body : Block

structure Program where
  first : Function
  rest : List Function

def Program.functions (p : Program) : List Function :=
  p.first :: p.rest

/-! ## Plain trees -/

def Formal.tree (f : Formal) : Tree :=
  .node (if f.byRef then "refarg" else "arg") [("name", .text f.name.text)]

mutual

def Expr.tree : Expr → Tree
  | .int n => .node "int" [("val", .int n.value)]
  | .bool b => .node "bool" [("val", .bool b)]
  | .nil => .node "nil" []
  | .object => .node "@" []
  | .string s => .node "string" [("val", .text s.text)]
  | .var x => .node "var" [("name", .text x.text)]
  | .unary op e => .node op.nodeKind [("op1", e.tree)]
  | .binary op left right => .node op.nodeKind [("op1", left.tree), ("op2", right.tree)]
  | .call f args => .node "fcall" [("name", .text f.text), ("args", .list args.trees)]
  | .method object method args =>
    .node "mcall" [("objref", .text object.text), ("name", .text method.text),
      ("args", .list args.trees)]
  | .lambda formals body =>
    .node "lambda" [("args", .list (formals.map Formal.tree)), ("statements", .list body.trees)]

def Args.trees : Args → List Tree
  | .nil => []
  | .cons e rest => e.tree :: rest.trees

def Stmt.tree : Stmt → Tree
  | .assign x e => .node "=" [("name", .text x.text), ("expression", e.tree)]
  | .choice condition body =>
    .node "if" [("condition", condition.tree), ("statements", .list body.trees),
      ("else_statements", .null)]
  | .choiceElse condition body other =>
    .node "if" [("condition", condition.tree), ("statements", .list body.trees),
      ("else_statements", .list other.trees)]
  | .loop condition body =>
    .node "while" [("condition", condition.tree), ("statements", .list body.trees)]
  | .result e => .node "return" [("expression", e.tree)]
  | .noResult => .node "return" [("expression", .null)]
  | .expr e => e.tree

def Block.trees : Block → List Tree
  | .last s => [s.tree]
  | .cons s rest => s.tree :: rest.trees

end

/-- The tree of a choice, whose second block may be left out. -/
abbrev choiceTree (condition : Expr) (body : Block) (other : Option Block) : Tree :=
  .node "if" [("condition", condition.tree), ("statements", .list body.trees),
    ("else_statements", (other.map fun b => .list b.trees).getD .null)]

def Function.tree (f : Function) : Tree :=
  .node "func" [("name", .text f.name.text), ("args", .list (f.formals.map Formal.tree)),
    ("statements", .list f.body.trees)]

def Program.tree (p : Program) : Tree :=
  .node "program" [("functions", .list (p.functions.map Function.tree))]

end Ast

end LangKit.Script
