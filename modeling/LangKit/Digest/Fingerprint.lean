import LangKit.Digest.Sha256
import LangKit.Number.Floating
import LangKit.Tree.Display

/-!
# Fingerprints of values

The fingerprint of a value is the digest of a walk through it. Numbers go in as their texts, reals
rounded to six significant digits first, so that small errors do not show; texts and complex numbers
go in with a mark before them.
-/

namespace LangKit.Digest

open Number (Floating)

inductive Sample
  | plain (t : Tree)
  | real (x : Floating)
  | complex (re im : Floating)
  | bytes (isMutable : Bool) (bs : List UInt8)
  | list (items : List Sample)
  | tuple (items : List Sample)
  | set (items : List Sample)
  | mapping (entries : List (Sample × Sample))
  | object (owner type : String)
  deriving Inhabited, Repr

def Sample.typeName : Sample → String
  | .plain t => t.typeName
  | .real _ => "float"
  | .complex _ _ => "complex"
  | .bytes m _ => if m then "bytearray" else "bytes"
  | .list _ => "list"
  | .tuple _ => "tuple"
  | .set _ => "set"
  | .mapping _ => "dict"
  | .object _ type => type

def textBytes (s : String) : List UInt8 := s.toUTF8.toList

def realDigits : Nat := 6

def realText (x : Floating) : String := (x.rounded realDigits).text

mutual

def walk : Sample → List UInt8
  | .plain (.text s) => textBytes ("s" ++ s)
  | .plain t => textBytes ((t.display? Tree.nodeMark).getD "")
  | .real x => textBytes (realText x)
  | .complex re im => textBytes ("c" ++ realText re ++ realText im)
  | .bytes _ bs => textBytes "b" ++ bs
  | .list items => textBytes "[" ++ walkAll items ++ textBytes "]"
  | .tuple items => textBytes "(" ++ walkAll items ++ textBytes ")"
  | .set items => textBytes "\x7b" ++ walkAll items ++ textBytes "\x7d"
  | .mapping entries => textBytes "\x7b" ++ walkEntries entries ++ textBytes "\x7d"
  | .object owner type => textBytes ("<" ++ owner ++ "." ++ type ++ ">")

def walkAll : List Sample → List UInt8
  | [] => []
  | s :: rest => walk s ++ textBytes "," ++ walkAll rest

def walkEntries : List (Sample × Sample) → List UInt8
  | [] => []
  | (k, v) :: rest => walk k ++ textBytes ":" ++ walk v ++ textBytes "," ++ walkEntries rest

end

def fingerprint (s : Sample) : String := sha256 (walk s)

end LangKit.Digest
