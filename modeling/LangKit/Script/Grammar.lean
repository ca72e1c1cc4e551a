import LangKit.Script.Token
import LangKit.Tree

/-!
# The grammar of the script language

A program is a sequence of functions. Each rule says which phrase it makes, from which symbols, and
what tree the phrase stands for, given the trees of its parts. The number of a rule is its place in
`rules`; rule zero is the start rule.
-/

namespace LangKit.Script

inductive Phrase
  | start | program | functions | function | lambda | formals | formal | statements | statement
  | variable | expression | arguments
  deriving DecidableEq, Repr, Inhabited

def Phrase.label : Phrase → String
  | start => "S'"
  | program => "program"
  | functions => "funcs"
  | function => "func"
  | lambda => "lambda"
  | formals => "formal_args"
  | formal => "formal_arg"
  | statements => "statements"
  | statement => "statement"
  | «variable» => "variable"
  | expression => "expression"
  | arguments => "args"

inductive Symbol
  | token (kind : TokenKind)
  | phrase (phrase : Phrase)
  | endMark
  | errorMark
  deriving DecidableEq, Repr, Inhabited

def Symbol.label : Symbol → String
  | token kind => kind.label
  | phrase p => p.label
  | endMark => "$end"
  | errorMark => "error"

structure Rule where
  head : Phrase
  body : List Symbol
  meaning : List Tree → Tree

def Rule.text (r : Rule) : String :=
  r.head.label ++ " -> " ++ " ".intercalate (r.body.map Symbol.label)

def TokenValue.tree : TokenValue → Tree
  | text s => .text s
  | number n => .int n

namespace Meaning

def part (parts : List Tree) (i : Nat) : Tree :=
  parts.getD (i - 1) .null

def append : Tree → Tree → Tree
  | .list items, item => .list (items ++ [item])
  | other, _ => other

/-- The name of a member: the two names with a dot between them. -/
def dotted : Tree → Tree → Tree
  | .text a, .text b => .text (a ++ "." ++ b)
  | a, _ => a

def operation : Tree → List (String × Tree) → Tree
  | .text kind, fields => .node kind fields
  | _, fields => .node "" fields

def truth : Tree → Tree
  | .text s => .bool (s == "true")
  | _ => .bool false

end Meaning

section

open Meaning Phrase

private def tok (kind : TokenKind) : Symbol := .token kind

private def phr (p : Phrase) : Symbol := .phrase p

def binaryRule (operator : TokenKind) : Rule :=
  ⟨expression, [.phrase expression, .token operator, .phrase expression], fun ps =>
    operation (part ps 2) [("op1", part ps 1), ("op2", part ps 3)]⟩

def rules : Array Rule := #[
  ⟨start, [phr program], fun ps => part ps 1⟩,
  ⟨program, [phr functions], fun ps => .node "program" [("functions", part ps 1)]⟩,
  ⟨functions, [phr functions, phr function], fun ps => append (part ps 1) (part ps 2)⟩,
  ⟨functions, [phr function], fun ps => .list [part ps 1]⟩,
  ⟨function, [tok .func, tok .name, tok .lparen, phr formals, tok .rparen, tok .lbrace,
      phr statements, tok .rbrace],
    fun ps => .node "func" [("name", part ps 2), ("args", part ps 4), ("statements", part ps 7)]⟩,
  ⟨function, [tok .func, tok .name, tok .lparen, tok .rparen, tok .lbrace, phr statements,
      tok .rbrace],
    fun ps => .node "func" [("name", part ps 2), ("args", .list []), ("statements", part ps 6)]⟩,
  ⟨lambda, [tok .lambda, tok .lparen, phr formals, tok .rparen, tok .lbrace, phr statements,
      tok .rbrace],
    fun ps => .node "lambda" [("args", part ps 3), ("statements", part ps 6)]⟩,
  ⟨lambda, [tok .lambda, tok .lparen, tok .rparen, tok .lbrace, phr statements, tok .rbrace],
    fun ps => .node "lambda" [("args", .list []), ("statements", part ps 5)]⟩,
  ⟨formals, [phr formals, tok .comma, phr formal], fun ps => append (part ps 1) (part ps 3)⟩,
  ⟨formals, [phr formal], fun ps => .list [part ps 1]⟩,
  ⟨formal, [tok .name], fun ps => .node "arg" [("name", part ps 1)]⟩,
  ⟨formal, [tok .ref, tok .name], fun ps => .node "refarg" [("name", part ps 2)]⟩,
  ⟨statements, [phr statements, phr statement], fun ps => append (part ps 1) (part ps 2)⟩,
  ⟨statements, [phr statement], fun ps => .list [part ps 1]⟩,
  ⟨statement, [phr «variable», tok .assign, phr expression, tok .semi],
    fun ps => .node "=" [("name", part ps 1), ("expression", part ps 3)]⟩,
  ⟨«variable», [tok .name, tok .dot, tok .name], fun ps => dotted (part ps 1) (part ps 3)⟩,
  ⟨«variable», [tok .name], fun ps => part ps 1⟩,
  ⟨statement, [tok .if, tok .lparen, phr expression, tok .rparen, tok .lbrace, phr statements,
      tok .rbrace],
    fun ps => .node "if" [("condition", part ps 3), ("statements", part ps 6),
      ("else_statements", .null)]⟩,
  ⟨statement, [tok .if, tok .lparen, phr expression, tok .rparen, tok .lbrace, phr statements,
      tok .rbrace, tok .else, tok .lbrace, phr statements, tok .rbrace],
    fun ps => .node "if" [("condition", part ps 3), ("statements", part ps 6),
      ("else_statements", part ps 10)]⟩,
  ⟨statement, [tok .while, tok .lparen, phr expression, tok .rparen, tok .lbrace, phr statements,
      tok .rbrace],
    fun ps => .node "while" [("condition", part ps 3), ("statements", part ps 6)]⟩,
  ⟨statement, [phr expression, tok .semi], fun ps => part ps 1⟩,
  ⟨statement, [tok .return, phr expression, tok .semi],
    fun ps => .node "return" [("expression", part ps 2)]⟩,
  ⟨statement, [tok .return, tok .semi], fun _ => .node "return" [("expression", .null)]⟩,
  ⟨expression, [tok .not, phr expression], fun ps => .node "!" [("op1", part ps 2)]⟩,
  ⟨expression, [tok .minus, phr expression], fun ps => .node "neg" [("op1", part ps 2)]⟩,
  binaryRule .eq,
  binaryRule .greater,
  binaryRule .less,
  binaryRule .notEq,
  binaryRule .greaterEq,
  binaryRule .lessEq,
  binaryRule .plus,
  binaryRule .minus,
  binaryRule .multiply,
  binaryRule .divide,
  ⟨expression, [tok .lparen, phr expression, tok .rparen], fun ps => part ps 2⟩,
  binaryRule .or,
  binaryRule .and,
  ⟨expression, [tok .number], fun ps => .node "int" [("val", part ps 1)]⟩,
  ⟨expression, [phr lambda], fun ps => part ps 1⟩,
  ⟨expression, [tok .true], fun ps => .node "bool" [("val", truth (part ps 1))]⟩,
  ⟨expression, [tok .false], fun ps => .node "bool" [("val", truth (part ps 1))]⟩,
  ⟨expression, [tok .nil], fun _ => .node "nil" []⟩,
  ⟨expression, [tok .at], fun _ => .node "@" []⟩,
  ⟨expression, [tok .string], fun ps => .node "string" [("val", part ps 1)]⟩,
  ⟨expression, [phr «variable»], fun ps => .node "var" [("name", part ps 1)]⟩,
  ⟨expression, [tok .name, tok .lparen, phr arguments, tok .rparen],
    fun ps => .node "fcall" [("name", part ps 1), ("args", part ps 3)]⟩,
  ⟨expression, [tok .name, tok .lparen, tok .rparen],
    fun ps => .node "fcall" [("name", part ps 1), ("args", .list [])]⟩,
  ⟨expression, [tok .name, tok .dot, tok .name, tok .lparen, phr arguments, tok .rparen],
    fun ps => .node "mcall" [("objref", part ps 1), ("name", part ps 3), ("args", part ps 5)]⟩,
  ⟨expression, [tok .name, tok .dot, tok .name, tok .lparen, tok .rparen],
    fun ps => .node "mcall" [("objref", part ps 1), ("name", part ps 3), ("args", .list [])]⟩,
  ⟨arguments, [phr arguments, tok .comma, phr expression],
    fun ps => append (part ps 1) (part ps 3)⟩,
  ⟨arguments, [phr expression], fun ps => .list [part ps 1]⟩]

end

end LangKit.Script
