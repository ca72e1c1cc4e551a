import LangKit.Assoc
import LangKit.Digest.Fingerprint

/-!
# Trials

A trial is run twice as it is and once for each of its lists of settings. Its row says what type of
value it gives and the fingerprints of the values: two runs that differ show that a trial is not
stable.
-/

namespace LangKit.Digest

inductive Conduct
  | gives (s : Sample)
  | echoes (s : Sample)
  | counts
  | fails (type : String)
  deriving Repr

abbrev Settings := List (String × Sample)

structure Trial where
  name : String
  conduct : Conduct
  settings : List Settings
  deriving Repr

def trialMark : String := "bench_"

def chosen (trials : List Trial) : List Trial :=
  trials.filter fun t => t.name.startsWith trialMark

def Trial.run (t : Trial) (number : Nat) (settings : Settings) : Except String Sample :=
  match t.conduct with
  | .gives s => .ok s
  | .echoes s => .ok (Assoc.getD "n" settings s)
  | .counts => .ok (.plain (.int number))
  | .fails type => .error type

def settingText : Sample → String
  | .plain (.text s) => s
  | .plain t => (t.display? Tree.nodeMark).getD ""
  | .real x => x.text
  | s => s.typeName

def label (settings : Settings) : String :=
  if settings.isEmpty then "-"
  else ",".intercalate ((settings.mergeSort fun a b => a.1 ≤ b.1).map fun e =>
    e.1 ++ "=" ++ settingText e.2)

structure Row where
  type : String
  stable : List String
  bySettings : List (String × String)
  inputs : List String
  runs : List String
  deriving Repr

def plainLabel : String := "<default>"

def failure (type : String) : String := "<" ++ type ++ ">"

def Trial.runSettings (t : Trial) : Nat → List Settings → Except String (List (String × String))
  | _, [] => .ok []
  | number, s :: rest => do
    let value ← t.run number s
    return (label s, fingerprint value) :: (← t.runSettings (number + 1) rest)

def Trial.runAll (t : Trial) : Except String Row := do
  let first ← t.run 1 []
  let second ← t.run 2 []
  let bySettings := Assoc.putAll [] (← t.runSettings 3 t.settings)
  return {
    type := first.typeName
    stable := [fingerprint first, fingerprint second]
    bySettings
    inputs := t.settings.flatMap fun s => s.map fun e => fingerprint e.2
    runs := plainLabel :: Assoc.keys bySettings }

def Trial.row (t : Trial) : Row :=
  match t.runAll with
  | .ok row => row
  | .error type => ⟨failure type, [], [], [], []⟩

def report (trials : List Trial) : List (String × Row) :=
  (chosen trials).map fun t => (t.name, t.row)

def failures (trials : List Trial) : List (String × Option String) :=
  (chosen trials).map fun t => (t.name,
    match t.run 1 [] with
    | .ok _ => none
    | .error type => some (failure type))

def blocked (name : String) : String :=
  "ModuleNotFoundError: import of " ++ name ++ " halted; None in sys.modules"

end LangKit.Digest
