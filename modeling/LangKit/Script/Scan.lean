import LangKit.Script.Token

/-!
# Scanning a program text

`lexemeAt` says what stands at the front of a text: a blank, a run of line feeds, a comment, a word,
a number, a quoted text, an operator, or a character that starts nothing. Scanning cuts the text
into such lexemes from left to right, so the loop ends because each lexeme takes at least one
character. The outcome is a list of events in the order in which they happen, for a parser to take
one by one.
-/

namespace LangKit.Script

inductive Form
  | blank
  | newline
  | comment
  | number
  | word
  | string
  | operator (kind : TokenKind)
  | illegal
  deriving DecidableEq, Repr

/-- A piece at the front of a text: its form, and how many characters it takes after the first. -/
structure Lexeme where
  form : Form
  extra : Nat
  deriving DecidableEq, Repr

/-- How many characters stand before the first end mark of a comment, if it is closed. -/
def commentBody? : List Char → Option Nat
  | '*' :: '/' :: _ => some 0
  | _ :: rest => (commentBody? rest).map (· + 1)
  | [] => none

/-- How many characters stand before the closing quote, if there is one on the line. -/
def stringBody? : List Char → Option Nat
  | [] => none
  | c :: rest =>
    if c == '"' then some 0
    else if c == '\n' then none
    else (stringBody? rest).map (· + 1)

/-- The operator at the front of a text, and how many characters it takes after the first. The
longer operator wins. -/
def operator? : Char → List Char → Option (TokenKind × Nat)
  | '|', '|' :: _ => some (.or, 1)
  | '=', '=' :: _ => some (.eq, 1)
  | '>', '=' :: _ => some (.greaterEq, 1)
  | '<', '=' :: _ => some (.lessEq, 1)
  | '!', '=' :: _ => some (.notEq, 1)
  | '&', '&' :: _ => some (.and, 1)
  | '(', _ => some (.lparen, 0)
  | ')', _ => some (.rparen, 0)
  | '{', _ => some (.lbrace, 0)
  | '}', _ => some (.rbrace, 0)
  | ',', _ => some (.comma, 0)
  | '.', _ => some (.dot, 0)
  | ';', _ => some (.semi, 0)
  | '>', _ => some (.greater, 0)
  | '<', _ => some (.less, 0)
  | '=', _ => some (.assign, 0)
  | '+', _ => some (.plus, 0)
  | '-', _ => some (.minus, 0)
  | '*', _ => some (.multiply, 0)
  | '/', _ => some (.divide, 0)
  | '@', _ => some (.at, 0)
  | '!', _ => some (.not, 0)
  | '"', _ => some (.quote, 0)
  | _, _ => none

/-- The comment at the front of a text, by the number of characters it takes after the first. -/
def comment? (c : Char) (rest : List Char) : Option Nat :=
  match c, rest with
  | '/', '*' :: body => (commentBody? body).map (· + 3)
  | _, _ => none

def lexemeAt (c : Char) (rest : List Char) : Lexeme :=
  if c == ' ' || c == '\t' then ⟨.blank, 0⟩
  else if Text.isDigit c then ⟨.number, (rest.takeWhile Text.isDigit).length⟩
  else if Text.isNameStart c then ⟨.word, (rest.takeWhile Text.isWord).length⟩
  else if c == '\n' then ⟨.newline, (rest.takeWhile (· == '\n')).length⟩
  else match comment? c rest with
    | some n => ⟨.comment, n⟩
    | none =>
      match (if c == '"' then stringBody? rest else none) with
      | some n => ⟨.string, n + 1⟩
      | none =>
        match operator? c rest with
        | some (kind, n) => ⟨.operator kind, n⟩
        | none => ⟨.illegal, 0⟩

inductive Event
  | token (t : Token) (after : Nat)
  | illegal (c : Char)
  | overlong (digits line after : Nat)
  /-- The end of the text: the number of lines begun and the position behind the end. -/
  | done (line after : Nat)
  deriving DecidableEq, Repr

def numberValue (digits : List Char) : Nat :=
  Text.Decimal.ofDigits (digits.map fun c => (Text.digitValue? c).getD 0)

/-- How many lines end in a lexeme. Only line breaks and comments are looked at. -/
def Form.lines (form : Form) (text : List Char) : Nat :=
  match form with
  | .newline | .comment => text.count '\n'
  | _ => 0

def scanFrom (line pos : Nat) : List Char → List Event
  | [] => [.done line (pos + 1)]
  | c :: rest =>
    let lexeme := lexemeAt c rest
    let text := c :: rest.take lexeme.extra
    let next := pos + 1 + lexeme.extra
    let later := scanFrom (line + lexeme.form.lines text) next (rest.drop lexeme.extra)
    match lexeme.form with
    | .blank | .newline | .comment => later
    | .illegal => .illegal c :: later
    | .number =>
      if Text.Decimal.digitLimit < text.length then [.overlong text.length line next]
      else .token ⟨.number, .number (numberValue text), line, pos⟩ next :: later
    | .word =>
      .token ⟨.ofWord (String.ofList text), .text (String.ofList text), line, pos⟩ next :: later
    | .string =>
      .token ⟨.string, .text (String.ofList (text.drop 1).dropLast), line, pos⟩ next :: later
    | .operator kind => .token ⟨kind, .text (String.ofList text), line, pos⟩ next :: later
termination_by cs => cs.length
decreasing_by
  simp only [List.length_cons, List.length_drop]
  omega

def scan (text : String) : List Event :=
  scanFrom 1 0 text.toList

/-- The line that reports a character that starts no token. -/
def illegalMessage (c : Char) : String :=
  "Illegal character " ++ c.toString

end LangKit.Script
