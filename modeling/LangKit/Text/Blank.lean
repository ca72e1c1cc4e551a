/-!
# Blanks and lines

White space in the sense of the Unicode standard, the words and the lines of a text.
-/

namespace LangKit.Text

def blankCodes : List Nat := [
  0x9, 0xa, 0xb, 0xc, 0xd, 0x1c, 0x1d, 0x1e, 0x1f, 0x20, 0x85, 0xa0, 0x1680, 0x2000, 0x2001, 0x2002,
  0x2003, 0x2004, 0x2005, 0x2006, 0x2007, 0x2008, 0x2009, 0x200a, 0x2028, 0x2029, 0x202f, 0x205f,
  0x3000]

def isBlank (c : Char) : Bool :=
  blankCodes.contains c.toNat

def lineEndCodes : List Nat := [0xa, 0xb, 0xc, 0xd, 0x1c, 0x1d, 0x1e, 0x85, 0x2028, 0x2029]

def isLineEnd (c : Char) : Bool :=
  lineEndCodes.contains c.toNat

/-- The maximal runs of characters that are no blanks; `word` holds the current run reversed. -/
def wordsFrom : List Char → List Char → List String
  | [], word => if word.isEmpty then [] else [String.ofList word.reverse]
  | c :: rest, word =>
    if isBlank c then
      if word.isEmpty then wordsFrom rest [] else String.ofList word.reverse :: wordsFrom rest []
    else wordsFrom rest (c :: word)

/-- The words of a text: its maximal runs without a blank. -/
def words (s : String) : List String :=
  wordsFrom s.toList []

/-- The lines of a text, without their ends; `line` holds the current line reversed. A carriage
return and a line feed together end one line, and a text that stops right after a line end has no
empty last line. -/
def linesFrom : List Char → List Char → List String
  | [], line => if line.isEmpty then [] else [String.ofList line.reverse]
  | '\r' :: '\n' :: rest, line => String.ofList line.reverse :: linesFrom rest []
  | c :: rest, line =>
    if isLineEnd c then String.ofList line.reverse :: linesFrom rest []
    else linesFrom rest (c :: line)

def lines (s : String) : List String :=
  linesFrom s.toList []

/-- The text without the blanks at its two ends. -/
def trim (s : String) : String :=
  String.ofList ((s.toList.dropWhile isBlank).reverse.dropWhile isBlank).reverse

/-- The text, followed by blanks up to the given width. -/
def padRight (width : Nat) (s : String) : String :=
  s ++ String.ofList (List.replicate (width - s.length) ' ')

end LangKit.Text
