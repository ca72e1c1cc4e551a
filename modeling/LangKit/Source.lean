import LangKit.Assoc
import LangKit.Text.Blank

/-!
# Definitions in a source

A source is looked at line by line for the names that it defines. A name that is defined again is
told with the line of its first definition.
-/

namespace LangKit

namespace Source

def isNameChar (c : Char) : Bool :=
  ('a' ≤ c && c ≤ 'z') || ('A' ≤ c && c ≤ 'Z') || ('0' ≤ c && c ≤ '9') || c == '_'

/-- The name at the start of a text, if it starts with the given mark, and what follows it. -/
def nameAt? (mark : String) (cs : List Char) : Option (String × List Char) :=
  let word := cs.takeWhile isNameChar
  if mark.toList.isPrefixOf word then some (String.ofList word, cs.drop word.length) else none

def definedName? (mark line : String) : Option String :=
  match line.toList.dropWhile Text.isBlank with
  | 'd' :: 'e' :: 'f' :: rest =>
    let name := rest.dropWhile Text.isBlank
    if name.length < rest.length then
      match nameAt? mark name with
      | some (word, '(' :: _) => some word
      | _ => none
    else none
  | _ => none

def assignedName? (mark line : String) : Option String :=
  match nameAt? mark (line.toList.dropWhile Text.isBlank) with
  | none => none
  | some (word, rest) =>
    if (rest.dropWhile Text.isBlank).head? == some '=' then some word else none

end Source

/-- A definition of a name that has been defined before. -/
structure Redefinition where
  name : String
  line : Int
  first : Int
  deriving DecidableEq, Repr

def redefinitionsFrom (name? : String → Option String) :
    Int → List (String × Int) → List String → List Redefinition
  | _, _, [] => []
  | n, seen, line :: rest =>
    match name? line with
    | none => redefinitionsFrom name? (n + 1) seen rest
    | some name =>
      match Assoc.get? name seen with
      | none => redefinitionsFrom name? (n + 1) (Assoc.put name n seen) rest
      | some first => ⟨name, n, first⟩ :: redefinitionsFrom name? (n + 1) seen rest

/-- The definitions of a source that repeat an earlier one. Lines are counted from one. -/
def redefinitions (name? : String → Option String) (source : List String) : List Redefinition :=
  redefinitionsFrom name? 1 [] source

end LangKit
