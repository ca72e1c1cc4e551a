import LangKit.Grammar.Basic
import LangKit.Grammar.RuleText
import LangKit.Text.Literal

/-!
# Declaring a grammar

Precedences come first, then the rules, then the start symbol. A rule is checked before it is added:
its name, each of its symbols, its precedence, and that it is new. A quoted character that is met
before a check fails stays a terminal.
-/

namespace LangKit.Grammar

abbrev Declared := Except Fault Unit × Grammar

def setPrecedence (g : Grammar) (term assoc : String) (level : Int) : Except Fault Grammar :=
  if !g.rules.isEmpty || g.startRule.isSome then
    .error (.assertion "Must call set_precedence() before add_production()")
  else if Assoc.has term g.precedences then
    .error (.grammarError ("Precedence already specified for terminal " ++ Text.quoted term))
  else
    match Associativity.ofLabel? assoc with
    | none => .error (.grammarError "Associativity must be one of 'left','right', or 'nonassoc'")
    | some a => .ok { g with precedences := Assoc.put term ⟨a, level⟩ g.precedences }

def isNameChar (c : Char) : Bool :=
  ('a' ≤ c && c ≤ 'z') || ('A' ≤ c && c ≤ 'Z') || ('0' ≤ c && c ≤ '9') || c == '_' || c == '-'

/-- Is the text a name of a symbol? One line feed may stand at its end. -/
def isName (s : String) : Bool :=
  let name := s.toList.takeWhile isNameChar
  let rest := s.toList.dropWhile isNameChar
  !name.isEmpty && (rest.isEmpty || rest == ['\n'])

structure Place where
  file : String
  line : Int
  deriving Repr

def Place.text (p : Place) : String :=
  p.file ++ ":" ++ toString p.line ++ ": "

def rightmostTerminal (symbols : List String) (isTerminal : String → Bool) : Option String :=
  symbols.reverse.find? isTerminal

/-- Reads the symbols of a rule: a quoted character becomes a terminal, and every other symbol has
to be a name. -/
def readSymbols (place : Place) (head : String) :
    List String → Grammar → Except Fault (List String) × Grammar
  | [], g => (.ok [], g)
  | s :: rest, g =>
    match s.toList with
    | [] => (.error Fault.stringIndex, g)
    | c :: _ =>
      let literal := if c == '\'' || c == '"' then Text.literal? s else none
      match literal with
      | some t =>
        if 1 < t.length then
          (.error (.grammarError (place.text ++ "Literal token " ++ s ++ " in rule " ++
            Text.quoted head ++ " may only be a single character")), g)
        else
          let g := if g.isTerminal t then g else { g with terminals := Assoc.put t [] g.terminals }
          let (others, g) := readSymbols place head rest g
          (others.map (t :: ·), g)
      | none =>
        if !isName s && s != "%prec" then
          (.error (.grammarError (place.text ++ "Illegal name " ++ Text.quoted s ++ " in rule " ++
            Text.quoted head)), g)
        else
          let (others, g) := readSymbols place head rest g
          (others.map (s :: ·), g)

/-- The symbols of a rule without its precedence mark, the precedence, and the name that was asked
for. -/
def readPrecedence (place : Place) (g : Grammar) (symbols : List String) :
    Except Fault (List String × Precedence × Option String) :=
  if symbols.contains "%prec" then
    match symbols.reverse with
    | "%prec" :: _ => .error (.grammarError (place.text ++ "Syntax error. Nothing follows %prec"))
    | name :: "%prec" :: body =>
      match Assoc.get? name g.precedences with
      | some p => .ok (body.reverse, p, some name)
      | none =>
        .error (.grammarError (place.text ++ "Nothing known about the precedence of " ++
          Text.quoted name))
    | _ =>
      .error (.grammarError (place.text ++
        "Syntax error. %prec can only appear at the end of a grammar rule"))
  else
    let p := match rightmostTerminal symbols g.isTerminal with
      | some t => g.precedenceOf t
      | none => .default
    .ok (symbols, p, none)

def addUse (g : Grammar) (number : Nat) (symbol : String) : Grammar :=
  match Assoc.get? symbol g.terminals with
  | some uses => { g with terminals := Assoc.put symbol (uses ++ [number]) g.terminals }
  | none =>
    let uses := Assoc.getD symbol g.nonterminals []
    { g with nonterminals := Assoc.put symbol (uses ++ [number]) g.nonterminals }

def insertRule (g : Grammar) (place : Place) (head : String) (body : List String) (p : Precedence)
    (action : Option String) : Grammar :=
  let number := g.size
  let nonterminals :=
    if g.isNonterminal head then g.nonterminals else Assoc.put head [] g.nonterminals
  let g := body.foldl (addUse · number) { g with nonterminals }
  let heads := Assoc.getD head g.byHead []
  { g with
    rules := g.rules.push ⟨number, head, body, p, action, place.file, place.line⟩
    byHead := Assoc.put head (heads ++ [number]) g.byHead }

def addRule (g : Grammar) (place : Place) (head : String) (symbols : List String)
    (action : Option String) : Declared :=
  if g.isTerminal head then
    (.error (.grammarError (place.text ++ "Illegal rule name " ++ Text.quoted head ++
      ". Already defined as a token")), g)
  else if !isName head then
    (.error (.grammarError (place.text ++ "Illegal rule name " ++ Text.quoted head)), g)
  else
    match readSymbols place head symbols g with
    | (.error f, g) => (.error f, g)
    | (.ok symbols, g) =>
      match readPrecedence place g symbols with
      | .error f => (.error f, g)
      | .ok (body, p, asked) =>
        let g := match asked with
          | some name => { g with usedPrecedences := name :: g.usedPrecedences }
          | none => g
        match g.rules.find? fun r => r.head == head && r.body == body with
        | some old =>
          (.error (.grammarError (place.text ++ "Duplicate rule " ++ old.text ++
            ". Previous definition at " ++ old.file ++ ":" ++ toString old.line)), g)
        | none => (.ok (), g.insertRule place head body p action)

def addRules (g : Grammar) (action : Option String) : List WrittenRule → Declared
  | [] => (.ok (), g)
  | r :: rest =>
    match g.addRule ⟨r.file, r.line⟩ r.head r.symbols action with
    | (.error f, g) => (.error f, g)
    | (.ok (), g) => g.addRules action rest

/-- Sets the start symbol, which is that of the first rule unless another one is given. -/
def setStart (g : Grammar) (start : Option String) : Except Fault Grammar := do
  let name ← match start with
    | some s => if s.isEmpty then firstHead else .ok s
    | none => firstHead
  match Assoc.get? name g.nonterminals with
  | none => .error (.grammarError ("start symbol " ++ name ++ " undefined"))
  | some uses =>
    return { g with
      startRule := some ⟨0, startHead, [name], .default, none, "", 0⟩
      nonterminals := Assoc.put name (uses ++ [0]) g.nonterminals
      start := some name }
where
  firstHead : Except Fault String :=
    match g.rules[0]? with
    | some r => .ok r.head
    | none => .error Fault.listIndex

end LangKit.Grammar
