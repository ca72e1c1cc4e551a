import LangKit.Text.Quoted

/-!
# Patterns

A pattern describes a set of texts: characters and classes of characters, sequences, alternatives,
repetitions, groups and assertions. A pattern that cannot be read is refused with a message and,
where it is known, the position of the mistake.
-/

namespace LangKit.Pattern

structure Flags where
  ignoreCase : Bool
  multiline : Bool
  dotAll : Bool
  verbose : Bool
  ascii : Bool
  deriving DecidableEq, Repr, Inhabited

def Flags.none : Flags := ⟨false, false, false, false, false⟩

def Flags.or (a b : Flags) : Flags :=
  ⟨a.ignoreCase || b.ignoreCase, a.multiline || b.multiline, a.dotAll || b.dotAll,
    a.verbose || b.verbose, a.ascii || b.ascii⟩

def Flags.and (a b : Flags) : Flags :=
  ⟨a.ignoreCase && b.ignoreCase, a.multiline && b.multiline, a.dotAll && b.dotAll,
    a.verbose && b.verbose, a.ascii && b.ascii⟩

def Flags.without (a b : Flags) : Flags :=
  ⟨a.ignoreCase && !b.ignoreCase, a.multiline && !b.multiline, a.dotAll && !b.dotAll,
    a.verbose && !b.verbose, a.ascii && !b.ascii⟩

def Flags.isNone (a : Flags) : Bool := a == Flags.none

inductive Category
  | digit
  | space
  | word
  deriving DecidableEq, Repr

inductive SetItem
  | single (code : Nat)
  | range (low high : Nat)
  | category (c : Category) (negated : Bool)
  deriving DecidableEq, Repr

inductive Anchor
  | lineStart
  | lineEnd
  | textStart
  | textEnd
  | wordEdge
  | insideWord
  deriving DecidableEq, Repr

/-- How a repetition tries its counts: from the most, from the least, or the most only. -/
inductive RepeatMode
  | greedy
  | lazy
  | possessive
  deriving DecidableEq, Repr

/-- Where an assertion looks; backwards it looks by a fixed number of characters. -/
inductive Direction
  | ahead
  | behind (width : Nat)
  deriving DecidableEq, Repr

inductive Node
  | char (code : Nat)
  | any
  | set (negated : Bool) (items : List SetItem)
  | anchor (a : Anchor)
  | backref (group : Nat)
  | branch (alternatives : List (List Node))
  | group (number : Option Nat) (on off : Flags) (body : List Node)
  | atomic (body : List Node)
  | look (direction : Direction) (negated : Bool) (body : List Node)
  | ifGroup (group : Nat) (yes no : List Node)
  | repeated (mode : RepeatMode) (min : Nat) (max : Option Nat) (body : List Node)
  deriving Repr, Inhabited

inductive PatternError
  | malformed (message : String) (position : Option Nat)
  | tooLarge
  deriving DecidableEq, Repr

def lineColumn (pattern : List Char) (position : Nat) : Nat × Nat :=
  let before := pattern.take position
  let line := before.count '\n' + 1
  let column := (before.reverse.takeWhile (· != '\n')).length + 1
  (line, column)

def PatternError.text (pattern : String) : PatternError → String
  | .malformed message none => message
  | .malformed message (some position) =>
    let place := message ++ " at position " ++ toString position
    if pattern.toList.contains '\n' then
      let (line, column) := lineColumn pattern.toList position
      place ++ " (line " ++ toString line ++ ", column " ++ toString column ++ ")"
    else place
  | .tooLarge => "the repetition number is too large"

structure Compiled where
  body : List Node
  flags : Flags
  names : List (String × Nat)
  deriving Repr, Inhabited

end LangKit.Pattern
