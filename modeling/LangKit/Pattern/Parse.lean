import LangKit.Pattern.Reader

/-!
# Reading a pattern: sets, switches, groups and repetitions

A pattern is read from left to right: alternatives of sequences, each part of a sequence followed by
a repetition or not. In verbose patterns blanks and comments are passed over. Every step takes a
sign, so the number of signs bounds the depth of the reading.
-/

namespace LangKit.Pattern

open Reading

/-- The blanks that verbose patterns pass over. -/
def isLayout (c : Char) : Bool :=
  c == ' ' || c == '\t' || c == '\n' || c == '\r' || c == '\x0b' || c == '\x0c'

def addItem (items : List SetItem) (i : SetItem) : List SetItem :=
  if items.contains i then items else items ++ [i]

def readSetItem (s : Sign) : Reading SetItem :=
  if s.escaped then readSetEscape s else pure (.single s.char.toNat)

def openSet {α : Type} (start : Nat) : Reading α :=
  refuseAt "unterminated character set" start

/-- The items of a set, up to its closing bracket. A closing bracket that comes first is an item. -/
def readSetItems (start : Nat) : Nat → List SetItem → Bool → Reading (List SetItem)
  | 0, items, _ => pure items
  | fuel + 1, items, any => do
    match ← take with
    | none => openSet start
    | some this =>
      if this.is ']' && any then return items
      let low ← readSetItem this
      if ← accept '-' then
        match ← take with
        | none => openSet start
        | some that =>
          if that.is ']' then
            return addItem (addItem items low) (.single '-'.toNat)
          let high ← readSetItem that
          let wrong : Reading (List SetItem) :=
            refuse ("bad character range " ++ this.text ++ "-" ++ that.text)
              (this.length + 1 + that.length)
          match low, high with
          | .single a, .single b =>
            if b < a then wrong
            else readSetItems start fuel (addItem items (.range a b)) true
          | _, _ => wrong
      else readSetItems start fuel (addItem items low) true

def readSet : Reading Node := do
  let start := (← position) - 1
  let negated ← accept '^'
  let items ← readSetItems start ((← get).signs.length + 1) [] false
  match negated, items with
  | false, [.single code] => return .char code
  | _, _ => return .set negated items

/-- Switches as they are written: those of a pattern, and two that only change what can be
combined. -/
structure Switches where
  flags : Flags
  unicode : Bool
  template : Bool

def Switches.none : Switches := ⟨.none, false, false⟩

def switch? : Char → Option Switches
  | 'i' => some { Switches.none with flags := { Flags.none with ignoreCase := true } }
  | 'm' => some { Switches.none with flags := { Flags.none with multiline := true } }
  | 's' => some { Switches.none with flags := { Flags.none with dotAll := true } }
  | 'x' => some { Switches.none with flags := { Flags.none with verbose := true } }
  | 'a' => some { Switches.none with flags := { Flags.none with ascii := true } }
  | 'u' => some { Switches.none with unicode := true }
  | 't' => some { Switches.none with template := true }
  | 'L' => some Switches.none
  | _ => none

def Switches.or (a b : Switches) : Switches :=
  ⟨a.flags.or b.flags, a.unicode || b.unicode, a.template || b.template⟩

def signSwitch? (s : Sign) : Option Switches :=
  if s.escaped then none else switch? s.char

def isLetter (s : Sign) : Bool :=
  !s.escaped && (s.char.isAlpha || (127 < s.char.toNat && Text.isLetterOrNumeral s.char))

def readOn : Nat → Sign → Switches → Reading (Switches × Sign)
  | 0, s, on => pure (on, s)
  | fuel + 1, s, on => do
    if s.is 'L' then refuse "bad inline flags: cannot use 'L' flag with a str pattern" 0
    let on := on.or ((signSwitch? s).getD .none)
    if on.flags.ascii && on.unicode && (s.is 'a' || s.is 'u') then
      refuse "bad inline flags: flags 'a', 'u' and 'L' are incompatible" 0
    match ← take with
    | none => refuse "missing -, : or )" 0
    | some next =>
      if next.is ')' || next.is '-' || next.is ':' then return (on, next)
      if (signSwitch? next).isNone then
        refuse (if isLetter next then "unknown flag" else "missing -, : or )") next.length
      readOn fuel next on

def readOff : Nat → Sign → Switches → Reading Switches
  | 0, _, off => pure off
  | fuel + 1, s, off => do
    if s.is 'a' || s.is 'u' || s.is 'L' then
      refuse "bad inline flags: cannot turn off flags 'a', 'u' and 'L'" 0
    let off := off.or ((signSwitch? s).getD .none)
    match ← take with
    | none => refuse "missing :" 0
    | some next =>
      if next.is ':' then return off
      if (signSwitch? next).isNone then
        refuse (if isLetter next then "unknown flag" else "missing :") next.length
      readOff fuel next off

/-- Reads the switches of a group from the given sign on. Without a group they hold for the whole
pattern, and the answer is none. -/
def readSwitches (s : Sign) : Reading (Option (Flags × Flags)) := do
  let limit := (← get).signs.length + 1
  let (on, last) ← if s.is '-' then pure (Switches.none, s) else readOn limit s .none
  if last.is ')' then
    modify fun r => { r with flags := r.flags.or on.flags }
    return none
  if on.template then refuse "bad inline flags: cannot turn on global flag" 1
  let off ← if last.is '-' then do
      match ← take with
      | none => refuse "missing flag" 0
      | some next =>
        if (signSwitch? next).isNone then
          refuse (if isLetter next then "unknown flag" else "missing flag") next.length
        readOff limit next .none
    else pure Switches.none
  if off.template then refuse "bad inline flags: cannot turn off global flag" 1
  if !(on.flags.and off.flags).isNone then refuse "bad inline flags: flag turned on and off" 1
  -- Asking for all scripts ends the restriction to ASCII.
  return some (on.flags, { off.flags with ascii := on.unicode })

def isGroupName (s : String) : Bool :=
  match s.toList with
  | [] => false
  | c :: rest => Text.isWord c && !c.isDigit && rest.all Text.isWord

def readGroupName (terminator : Char) : Reading String := do
  let found ← name terminator "group name"
  if isGroupName found then return found
  else refuse ("bad character in group name " ++ Text.quoted found) (found.length + 1)

def groupNamed (found : String) : Reading Nat := do
  match (← get).names.lookup found with
  | some n => return n
  | none => refuse ("unknown group name " ++ Text.quoted found) (found.length + 1)

def readCondition : Reading Nat := do
  let found ← name ')' "group name"
  let back := found.length + 1
  let group ← if isGroupName found then groupNamed found
    else if found.isEmpty || !found.toList.all Char.isDigit then
      refuse ("bad character in group name " ++ Text.quoted found) back
    else do
      let n := numeral 10 found
      if n == 0 then refuse "bad group number" back
      let noted := (← position) - back
      modify fun r =>
        if r.conditions.any (·.1 == n) then r
        else { r with conditions := r.conditions ++ [(n, noted)] }
      pure n
  checkBehind group
  return group

def openGroup (found : Option String) : Reading Nat := do
  let n ← groupCount
  modify fun r => { r with widths := r.widths.push none }
  match found with
  | none => pure ()
  | some s =>
    match (← get).names.lookup s with
    | some old =>
      refuse ("redefinition of group name " ++ Text.quoted s ++ " as group " ++ toString n ++
        "; was group " ++ toString old) (s.length + 1)
    | none => modify fun r => { r with names := r.names ++ [(s, n)] }
  return n

def knownWidths : Reading (Nat → Width) := do
  let r ← get
  return fun n => ((r.widths[n]?).join).getD (0, 0)

def closeGroup (n : Nat) (body : List Node) : Reading Unit := do
  let w := sequenceWidth (← knownWidths) body
  modify fun r => { r with widths := r.widths.setIfInBounds n (some w) }

def openGroupEnd {α : Type} (start : Nat) : Reading α :=
  refuseAt "missing ), unterminated subpattern" start

/-- Takes the closing parenthesis of a group that started at a position. -/
def expectClose (start : Nat) : Reading Unit := do
  if !(← accept ')') then openGroupEnd start

def skipComment (start : Nat) : Nat → Reading Unit
  | 0 => pure ()
  | fuel + 1 => do
    match ← take with
    | none => refuseAt "missing ), unterminated comment" start
    | some s => if s.is ')' then pure () else skipComment start fuel

/-- Passes over a comment up to the end of the line. -/
def skipLine : Nat → Reading Unit
  | 0 => pure ()
  | fuel + 1 => do
    match ← take with
    | none => pure ()
    | some s => if s.is '\n' then pure () else skipLine fuel

inductive GroupKind
  | counted (name : Option String)
  | plain (on off : Flags)
  | atomic
  | look (behind negated : Bool)
  | condition
  | backref (group : Nat)
  | nothing
  | switches

/-- Reads the start of a group, after its opening parenthesis, which is at the given position. -/
def readGroupStart (start : Nat) : Reading GroupKind := do
  if !(← accept '?') then return .counted none
  match ← take with
  | none => refuse "unexpected end of pattern" 0
  | some s =>
    if s.is 'P' then
      if ← accept '<' then return .counted (some (← readGroupName '>'))
      else if ← accept '=' then
        let found ← readGroupName ')'
        let n ← groupNamed found
        if !(← isClosed n) then refuse "cannot refer to an open group" (found.length + 1)
        checkBehind n
        return .backref n
      else
        match ← take with
        | none => refuse "unexpected end of pattern" 0
        | some next => refuse ("unknown extension ?P" ++ next.text) (next.length + 2)
    else if s.is ':' then return .plain .none .none
    else if s.is '#' then
      skipComment start ((← get).signs.length + 1)
      return .nothing
    else if s.is '=' then return .look false false
    else if s.is '!' then return .look false true
    else if s.is '<' then
      match ← take with
      | none => refuse "unexpected end of pattern" 0
      | some next =>
        if next.is '=' then return .look true false
        else if next.is '!' then return .look true true
        else refuse ("unknown extension ?<" ++ next.text) (next.length + 2)
    else if s.is '(' then return .condition
    else if s.is '>' then return .atomic
    else if (signSwitch? s).isSome || s.is '-' then
      match ← readSwitches s with
      | none => return .switches
      | some (on, off) => return .plain on off
    else refuse ("unknown extension ?" ++ s.text) (s.length + 1)

/-- A repetition that follows a part: its least and most counts. -/
structure Count where
  min : Nat
  max : Option Nat

/-- The counts in braces, after the opening brace. What is no count is none, and nothing is
taken. -/
def readCount : Reading (Option Count) := do
  let saved ← get
  let here ← position
  let limit := saved.signs.length
  if ← nextIs (· == '}') then return none
  let low ← takeWhile Char.isDigit limit
  let high ← if ← accept ',' then takeWhile Char.isDigit limit else pure low
  if !(← accept '}') then
    set saved
    return none
  let min := numeral 10 low
  let max := if high.isEmpty then none else some (numeral 10 high)
  if maxRepeat ≤ min then throw .tooLarge
  match max with
  | none => return some ⟨min, none⟩
  | some n =>
    if maxRepeat ≤ n then throw .tooLarge
    if n < min then refuseAt "min repeat greater than max repeat" here
    return some ⟨min, some n⟩

def countOf (s : Sign) : Reading (Option Count) :=
  if s.is '?' then pure (some ⟨0, some 1⟩)
  else if s.is '*' then pure (some ⟨0, none⟩)
  else if s.is '+' then pure (some ⟨1, none⟩)
  else readCount

/-- How a repetition tries its counts, as written after it. -/
def readMode : Reading RepeatMode := do
  if ← accept '?' then return .lazy
  if ← accept '+' then return .possessive
  return .greedy

/-- The repetition of the last part of a sequence. `here` is the position after the sign. -/
def applyCount (here : Nat) (c : Count) : List Node → Reading (List Node)
  | [] | .anchor _ :: _ => refuseAt "nothing to repeat" (here - 1)
  | .repeated .. :: _ => refuseAt "multiple repeat" (here - 1)
  | last :: before => do
    return .repeated (← readMode) c.min c.max [last] :: before

def readSimple (s : Sign) : Reading (Option Node) := do
  if s.escaped then return some (← readEscape s)
  else match s.char with
    | '.' => return some .any
    | '^' => return some (.anchor .lineStart)
    | '$' => return some (.anchor .lineEnd)
    | '[' => return some (← readSet)
    | _ => return none

mutual

def readAlternatives : Nat → Bool → Bool → List (List Node) → Reading (List Node)
  | 0, _, _, _ => pure []
  | fuel + 1, verbose, nested, done => do
    let sequence ← readSequence fuel verbose (!nested && done.isEmpty) []
    let done := sequence :: done
    if ← accept '|' then
      let r ← get
      readAlternatives fuel (if nested then verbose else r.flags.verbose) nested done
    else
      match done with
      | [one] => return one
      | many => return [.branch many.reverse]

/-- A sequence of parts; `done` has the parts so far, the last one first. Switches for the whole
pattern may stand at the very start, where `first` is true. -/
def readSequence : Nat → Bool → Bool → List Node → Reading (List Node)
  | 0, _, _, done => pure done.reverse
  | fuel + 1, verbose, first, done => do
    match ← peek with
    | none => return done.reverse
    | some s =>
      if s.is '|' || s.is ')' then return done.reverse
      skip
      if verbose && !s.escaped && isLayout s.char then readSequence fuel verbose first done
      else if verbose && s.is '#' then
        skipLine ((← get).signs.length + 1)
        readSequence fuel verbose first done
      else if s.is '*' || s.is '+' || s.is '?' || s.is '{' then
        let here ← position
        match ← countOf s with
        | none => readSequence fuel verbose first (.char s.char.toNat :: done)
        | some c => readSequence fuel verbose first (← applyCount here c done)
      else if s.is '(' then
        let start := s.position
        let kind ← readGroupStart start
        match kind with
        | .switches =>
          if !first || !done.isEmpty then
            refuseAt "global flags not at the start of the expression" start
          readSequence fuel (← get).flags.verbose first done
        | .nothing => readSequence fuel verbose first done
        | _ =>
          let node ← readGroup fuel verbose start kind
          readSequence fuel verbose first (node :: done)
      else
        match ← readSimple s with
        | some node => readSequence fuel verbose first (node :: done)
        | none => readSequence fuel verbose first (.char s.char.toNat :: done)

def readGroup : Nat → Bool → Nat → GroupKind → Reading Node
  | 0, _, _, _ => pure .any
  | fuel + 1, verbose, start, kind => do
    match kind with
    | .backref n => return .backref n
    | .counted found =>
      let n ← openGroup found
      let body ← readAlternatives fuel verbose true []
      expectClose start
      closeGroup n body
      return .group (some n) .none .none body
    | .plain on off =>
      let body ← readAlternatives fuel ((verbose || on.verbose) && !off.verbose) true []
      expectClose start
      return .group none on off body
    | .atomic =>
      let body ← readAlternatives fuel verbose true []
      expectClose start
      return .atomic body
    | .look behind negated =>
      let outer := (← get).behind
      if behind && outer.isNone then
        let n ← groupCount
        modify fun r => { r with behind := some n }
      let body ← readAlternatives fuel verbose true []
      if behind then modify fun r => { r with behind := outer }
      expectClose start
      if behind then
        let (low, high) := sequenceWidth (← knownWidths) body
        if low != high then modify fun r => { r with uneven := true }
        return .look (.behind low) negated body
      else return .look .ahead negated body
    | .condition =>
      let n ← readCondition
      let yes ← readSequence fuel verbose false []
      let no ← if ← accept '|' then do
          let no ← readSequence fuel verbose false []
          if ← nextIs (· == '|') then
            refuse "conditional backref with more than two branches" 0
          pure no
        else pure []
      expectClose start
      return .ifGroup n yes no
    | .nothing | .switches => return .group none .none .none []

end

def readWhole : Reading Compiled := do
  let r ← get
  if r.signs.isEmpty && r.broken then refuseAt "bad escape (end of pattern)" (r.length - 1)
  let body ← readAlternatives (4 * r.signs.length + 8) r.flags.verbose false []
  if (← peek).isSome then refuse "unbalanced parenthesis" 0
  let r ← get
  match r.conditions.find? fun c => r.widths.size ≤ c.1 with
  | some (n, noted) => refuseAt ("invalid group reference " ++ toString n) noted
  | none =>
    if r.uneven then throw (.malformed "look-behind requires fixed-width pattern" none)
    return ⟨body, r.flags, r.names⟩

def parse (flags : Flags) (pattern : String) : Except PatternError Compiled :=
  let chars := pattern.toList
  let reader : Reader :=
    ⟨signsFrom 0 chars, chars.length, endsBroken chars, flags, #[none], [], none, [], false⟩
  (readWhole.run reader).map (·.1)

end LangKit.Pattern
