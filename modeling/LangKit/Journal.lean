import LangKit.Text.Template

/-!
# Journals

A builder keeps a journal of what it has to say: plain lines, warnings and errors. Errors are
counted as they are written, so that a builder can go on and refuse its input in the end.
-/

namespace LangKit

/-- A journal: its text, the text of the detailed log, and whether there was an error. -/
structure Journal where
  text : String
  detail : String
  failed : Bool
  deriving Repr, Inhabited

namespace Journal

def empty : Journal := ⟨"", "", false⟩

def line (s : String) (j : Journal) : Journal :=
  { j with text := j.text ++ s ++ "\n" }

def warning (s : String) (j : Journal) : Journal :=
  j.line ("WARNING: " ++ s)

def error (s : String) (j : Journal) : Journal :=
  { j.line ("ERROR: " ++ s) with failed := true }

def detailLine (s : String) (j : Journal) : Journal :=
  { j with detail := j.detail ++ s ++ "\n" }

def detailWarning (s : String) (j : Journal) : Journal :=
  j.detailLine ("WARNING: " ++ s)

end Journal

/-- The files that a builder leaves around the module of its table: the detailed log and the
table. -/
def filesLeft (table : String) (log : Option String) (written : Bool) : List String :=
  let parts := table.splitOn "."
  let names := log.toList ++ if written then [parts.getLastD "" ++ ".py"] else []
  names.map fun name => "/".intercalate (parts.dropLast ++ [name])

abbrev Journaled := ExceptT Fault (StateM Journal)

namespace Journaled

def line (s : String) : Journaled Unit := modify (·.line s)

def warning (s : String) : Journaled Unit := modify (·.warning s)

def error (s : String) : Journaled Unit := modify (·.error s)

def detail (s : String) : Journaled Unit := modify (·.detailLine s)

def detailWarning (s : String) : Journaled Unit := modify (·.detailWarning s)

def lift {α : Type} : Except Fault α → Journaled α
  | .ok a => pure a
  | .error f => throw f

def templateError (s : String) : Journaled Unit := do
  error (← lift (Text.fillTemplate s))

def each {α : Type} (f : α → Journaled Unit) : List α → Journaled Unit
  | [] => pure ()
  | a :: rest => do
    f a
    each f rest

end Journaled

end LangKit
