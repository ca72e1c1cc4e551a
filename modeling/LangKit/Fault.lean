import LangKit.Text.Quoted

/-!
# Faults

Every way in which an operation of the library can fail, and the text that reports it. The wording
of all faults is in `Fault.message`.
-/

namespace LangKit

/-- The kinds of error that a running program reports about itself. -/
inductive ErrorKind
  | type
  | name
  | fault
  deriving DecidableEq, Repr, Inhabited

def ErrorKind.label : ErrorKind → String
  | .type => "TYPE_ERROR"
  | .name => "NAME_ERROR"
  | .fault => "FAULT_ERROR"

inductive Fault
  | reported (kind : ErrorKind) (text : Option String) (line : Option Int)
  | missingKey (shown : String)
  | noAttribute (type member : String)
  | outOfRange (text : String)
  | divisionByZero
  | malformedInteger (text : String)
  | overlongInteger (digits : Nat)
  | unprintableInteger
  | wrongType (text : String)
  | wrongValue (text : String)
  | endOfInput
  | syntaxError (text : Option String)
  | unboundLocal (name : String)
  | scanError (text rest : String)
  | grammarError (text : String)
  | tableError (text : String)
  | parserError (text : String)
  | versionError (text : String)
  | loadError (text : String)
  | fileError (text : String)
  | noModule (name : String)
  | noMember (owner member : String)
  | refusedWrite (text : String)
  | patternError (text : String)
  | overflow (text : String)
  | tooDeep
  | assertion (text : String)
  | badState (text : String)
  deriving DecidableEq, Repr, Inhabited

namespace Fault

def missingField (name : String) : Fault :=
  .missingKey (Text.quoted name)

def listIndex : Fault := .outOfRange "list index out of range"

def tupleIndex : Fault := .outOfRange "tuple index out of range"

def stringIndex : Fault := .outOfRange "string index out of range"

def emptyPop : Fault := .outOfRange "pop from empty list"

/-- The text of an error that a program reports: its kind, its line unless it is unknown or zero,
and its description unless it is empty. -/
def reportText (kind : ErrorKind) (text : Option String) (line : Option Int) : String :=
  let place := match line with
    | none => ""
    | some n => if n == 0 then "" else " on line " ++ toString n
  let detail := match text with
    | none => ""
    | some s => if s.isEmpty then "" else ": " ++ s
  "ErrorType." ++ kind.label ++ place ++ detail

def limitText (remark : String) : String :=
  "Exceeds the limit (4300 digits) for integer string conversion" ++ remark ++
    "; use sys.set_int_max_str_digits() to increase the limit"

def message : Fault → String
  | .reported kind text line => reportText kind text line
  | .missingKey shown => shown
  | .noAttribute type member =>
    "'" ++ type ++ "' object has no attribute '" ++ member ++ "'"
  | .outOfRange text => text
  | .divisionByZero => "integer division or modulo by zero"
  | .malformedInteger text =>
    "invalid literal for int() with base 10: " ++ String.ofList ((Text.quoted text).toList.take 200)
  | .overlongInteger digits => limitText (": value has " ++ toString digits ++ " digits")
  | .unprintableInteger => limitText ""
  | .wrongType text => text
  | .wrongValue text => text
  | .endOfInput => "EOF when reading a line"
  | .syntaxError text => text.getD "None"
  | .unboundLocal name =>
    "cannot access local variable '" ++ name ++ "' where it is not associated with a value"
  | .scanError text _ => text
  | .grammarError text => text
  | .tableError text => text
  | .parserError text => text
  | .versionError text => text
  | .loadError text => text
  | .fileError text => text
  | .noModule name => "No module named " ++ Text.quoted name
  | .noMember owner member => "module '" ++ owner ++ "' has no attribute '" ++ member ++ "'"
  | .refusedWrite text => text
  | .patternError text => text
  | .overflow text => text
  | .tooDeep => "maximum recursion depth exceeded while calling a Python object"
  | .assertion text => text
  | .badState text => text

end Fault

end LangKit
