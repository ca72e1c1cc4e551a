import LangKit.Assoc

/-!
# Grammars

A grammar is a list of productions over symbols that are texts. Symbols that are declared as tokens,
or that stand in a rule as quoted characters, are terminals; all others are nonterminals. The tables
of a grammar list their entries in the order in which they were first met.
-/

namespace LangKit

/-- How an operator groups with operators of its own level. -/
inductive Associativity
  | left
  | right
  | nonassoc
  deriving DecidableEq, Repr, Inhabited

namespace Associativity

def label : Associativity → String
  | left => "left"
  | right => "right"
  | nonassoc => "nonassoc"

def ofLabel? : String → Option Associativity
  | "left" => some left
  | "right" => some right
  | "nonassoc" => some nonassoc
  | _ => none

end Associativity

structure Precedence where
  assoc : Associativity
  level : Int
  deriving DecidableEq, Repr, Inhabited

def Precedence.default : Precedence := ⟨.right, 0⟩

/-- How an object of a class shows itself. -/
def shownAs (cls text : String) : String :=
  cls ++ "(" ++ text ++ ")"

/-- How a rule shows itself that was read from a saved table. -/
def savedRuleShown (text : String) : String :=
  shownAs "MiniProduction" text

structure Production where
  number : Nat
  head : String
  body : List String
  precedence : Precedence
  action : Option String
  file : String
  line : Int
  deriving DecidableEq, Repr, Inhabited

namespace Production

def textOf (head : String) (body : List String) : String :=
  head ++ " -> " ++ if body.isEmpty then "<empty>" else " ".intercalate body

def text (p : Production) : String :=
  textOf p.head p.body

def shown (p : Production) : String :=
  shownAs "Production" p.text

def symbols (p : Production) : List String :=
  p.body.foldl (fun acc s => if acc.contains s then acc else acc ++ [s]) []

end Production

/-- The name of the start rule's left side. -/
def startHead : String := "S'"

def endMark : String := "$end"

def errorMark : String := "error"

def emptyMark : String := "<empty>"

abbrev SymbolSets := List (String × List String)

structure Grammar where
  startRule : Option Production
  rules : Array Production
  terminals : List (String × List Nat)
  nonterminals : List (String × List Nat)
  byHead : List (String × List Nat)
  precedences : List (String × Precedence)
  usedPrecedences : List String
  start : Option String
  first : SymbolSets
  follow : SymbolSets
  marks : List (Nat × Nat)
  reduced : List (Nat × Int)
  deriving Inhabited, Repr

namespace Grammar

def ofTokens (tokens : List String) : Grammar where
  startRule := none
  rules := #[]
  terminals := Assoc.putAll [] ((tokens ++ [errorMark]).map fun t => (t, []))
  nonterminals := []
  byHead := []
  precedences := []
  usedPrecedences := []
  start := none
  first := []
  follow := []
  marks := []
  reduced := []

def size (g : Grammar) : Nat :=
  g.rules.size + 1

def rule? (g : Grammar) (number : Nat) : Option Production :=
  if number == 0 then g.startRule else g.rules[number - 1]?

def rulesOf (g : Grammar) (head : String) : List Production :=
  ((Assoc.get? head g.byHead).getD []).filterMap g.rule?

def isTerminal (g : Grammar) (symbol : String) : Bool :=
  Assoc.has symbol g.terminals

def isNonterminal (g : Grammar) (symbol : String) : Bool :=
  Assoc.has symbol g.nonterminals

def hasRule (g : Grammar) (symbol : String) : Bool :=
  Assoc.has symbol g.byHead

def precedenceOf (g : Grammar) (symbol : String) : Precedence :=
  Assoc.getD symbol g.precedences .default

end Grammar

end LangKit
