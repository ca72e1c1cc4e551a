import LangKit.Text.Blank

/-!
# Reading quoted text

A literal is one or more quoted texts side by side, with blanks between them, that together stand
for one text. Inside quotes a backslash starts an escape: a letter for a control character, a number
in octal or hexadecimal for any character. A backslash before any other character stands for itself.
-/

namespace LangKit.Text

def hexValue? (c : Char) : Option Nat :=
  if '0' ≤ c && c ≤ '9' then some (c.toNat - 48)
  else if 'a' ≤ c && c ≤ 'f' then some (c.toNat - 87)
  else if 'A' ≤ c && c ≤ 'F' then some (c.toNat - 55)
  else none

def isOctal (c : Char) : Bool :=
  '0' ≤ c && c ≤ '7'

def hexNumber? (cs : List Char) : Option Nat :=
  cs.foldl (fun n c => n.bind fun n => (hexValue? c).map (16 * n + ·)) (some 0)

def octalNumber (cs : List Char) : Nat :=
  cs.foldl (fun n c => 8 * n + (c.toNat - 48)) 0

def escapeLetter? : Char → Option Char
  | '\\' => some '\\'
  | '\'' => some '\''
  | '"' => some '"'
  | 'a' => some (Char.ofNat 7)
  | 'b' => some (Char.ofNat 8)
  | 'f' => some (Char.ofNat 12)
  | 'n' => some '\n'
  | 'r' => some '\r'
  | 't' => some '\t'
  | 'v' => some (Char.ofNat 11)
  | _ => none

/-- How many hexadecimal digits a letter after a backslash asks for. -/
def hexWidth? : Char → Option Nat
  | 'x' => some 2
  | 'u' => some 4
  | 'U' => some 8
  | _ => none

/-- What the text after a backslash stands for, and how many characters it takes; `none` if the
escape is malformed. -/
def escape? : List Char → Option (List Char × Nat)
  | [] => none
  | '\n' :: _ => some ([], 1)
  | c :: rest =>
    match escapeLetter? c with
    | some e => some ([e], 1)
    | none =>
      match hexWidth? c with
      | some width =>
        let digits := rest.take width
        if digits.length < width then none
        else (hexNumber? digits).bind fun n =>
          if n < 0x110000 then some ([Char.ofNat n], width + 1) else none
      | none =>
        if isOctal c then
          let digits := (c :: rest.take 2).takeWhile isOctal
          some ([Char.ofNat (octalNumber digits)], digits.length)
        else some (['\\', c], 1)

/-- Reads up to the closing mark, which is the quote once or three times. The answer is the text and
what follows the mark. The number bounds the length of the text. -/
def quotedBody? (quote : Char) (triple : Bool) : Nat → List Char → Option (List Char × List Char)
  | 0, _ => none
  | _, [] => none
  | fuel + 1, c :: rest =>
    if c == quote && !triple then some ([], rest)
    else if c == quote && rest.take 2 == [quote, quote] then some ([], rest.drop 2)
    else if c == '\n' && !triple then none
    else if c == '\\' then
      (escape? rest).bind fun (text, taken) =>
        (quotedBody? quote triple fuel (rest.drop taken)).map
          fun (body, after) => (text ++ body, after)
    else (quotedBody? quote triple fuel rest).map fun (body, after) => (c :: body, after)

/-- Reads quoted texts side by side to the end. -/
def literalTexts? : Nat → List Char → Option (List Char)
  | 0, _ => none
  | fuel + 1, cs =>
    match cs.dropWhile fun c => c == ' ' || c == '\t' with
    | [] => some []
    | '#' :: _ => some []
    | quote :: rest =>
      if quote == '\'' || quote == '"' then
        let triple := rest.take 2 == [quote, quote]
        let body := if triple then rest.drop 2 else rest
        (quotedBody? quote triple (body.length + 1) body).bind fun (text, after) =>
          (literalTexts? fuel after).map (text ++ ·)
      else none

def literal? (s : String) : Option String :=
  (literalTexts? (s.length + 1) s.toList).map String.ofList

end LangKit.Text
