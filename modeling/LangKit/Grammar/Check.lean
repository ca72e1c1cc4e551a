import LangKit.Grammar.Basic
import LangKit.Fault

/-!
# Checking a grammar

Symbols without a rule, nonterminals that the start symbol does not reach, nonterminals that derive
no text of terminals, and declarations that no rule uses.
-/

namespace LangKit.Grammar

/-- Is the symbol used without being declared or having a rule? -/
def isUndefined (g : Grammar) (symbol : String) : Bool :=
  !g.hasRule symbol && !g.isTerminal symbol && symbol != errorMark

def allRules (g : Grammar) : List Production :=
  g.startRule.toList ++ g.rules.toList

def undefinedSymbols (g : Grammar) : List (String × Production) :=
  g.allRules.flatMap fun p => (p.body.filter g.isUndefined).map fun s => (s, p)

def reachFrom (g : Grammar) : Nat → List String → List String → List String
  | 0, _, seen => seen
  | _, [], seen => seen
  | fuel + 1, s :: todo, seen =>
    if seen.contains s then reachFrom g fuel todo seen
    else reachFrom g fuel ((g.rulesOf s).flatMap (·.body) ++ todo) (s :: seen)

def symbolCount (g : Grammar) : Nat :=
  g.rules.foldl (fun n p => n + p.body.length) 0

/-- The nonterminals that cannot be reached from the start symbol. Each symbol is followed once, so
as many steps are made as there are symbols in the rules. -/
def unreachable (g : Grammar) : Except Fault (List String) :=
  match g.startRule with
  | none => .error (.noAttribute "NoneType" "prod")
  | some p =>
    let reached := reachFrom g (g.symbolCount + 2) (p.body.take 1) []
    .ok ((Assoc.keys g.nonterminals).filter fun s => !reached.contains s)

/-- Adds the nonterminals that have a rule over symbols which terminate. -/
def terminatingRound (g : Grammar) (known : List String) : List String :=
  g.byHead.foldl (fun known (n, _) =>
    if known.contains n then known
    else if (g.rulesOf n).any fun p => p.body.all known.contains then n :: known
    else known) known

def iterate {α : Type} (f : α → α) : Nat → α → α
  | 0, a => a
  | n + 1, a => iterate f n (f a)

/-- The symbols that derive a text of terminals. A round that adds nothing is the last, so as many
rounds suffice as there are nonterminals. -/
def terminating (g : Grammar) : List String :=
  let base := (Assoc.keys g.terminals ++ [endMark]).filter fun s => !g.isNonterminal s
  iterate g.terminatingRound g.nonterminals.length base

/-- The nonterminals that have rules and derive no text of terminals. -/
def infiniteCycles (g : Grammar) : List String :=
  let known := g.terminating
  let all := Assoc.keys (Assoc.putAll []
    ((Assoc.keys g.terminals ++ [endMark] ++ Assoc.keys g.nonterminals).map fun s => (s, ())))
  all.filter fun s => !known.contains s && !g.isUndefined s

def unusedTerminals (g : Grammar) : List String :=
  (g.terminals.filter fun (s, uses) => s != errorMark && uses.isEmpty).map (·.1)

/-- The first rule of each nonterminal that no rule uses. -/
def unusedRules (g : Grammar) : Except Fault (List Production) :=
  (g.nonterminals.filter fun (_, uses) => uses.isEmpty).mapM fun (s, _) =>
    match g.rulesOf s with
    | p :: _ => .ok p
    | [] => .error (Fault.missingField s)

/-- The precedences of names that are neither terminals nor asked for by a rule. -/
def unusedPrecedences (g : Grammar) : List (String × Associativity) :=
  (g.precedences.filter fun (t, _) => !g.isTerminal t && !g.usedPrecedences.contains t).map
    fun (t, p) => (t, p.assoc)

end LangKit.Grammar
