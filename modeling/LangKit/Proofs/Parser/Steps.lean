import LangKit.Script.Parse
import LangKit.Script.TokenRun

/-!
# Steps of the machine

A step of the machine takes a symbol in hand, decides on a move by it and makes the move; what a log
adds does not matter (`step_filled`). Here it is said what the moves of the machine that parses a
program do, with and without tracking and a log: a reduction whose parts are on the stack
(`reduce_watched`), and recovery, case by case.
-/

namespace LangKit.Lr

variable {σ ν ω : Type}

/-- Makes the move that has been decided on. -/
def Config.perform (m : Setup σ ν ω) [BEq σ] (c : Config σ ν ω) : Option Action → Step σ ν ω
  | some (.shift target) =>
    match c.look with
    | none => .fault (.noAttribute "NoneType" "type") c
    | some e => .next { c with
        state := target
        states := target :: c.states
        stack := e :: c.stack
        look := none
        recovering := c.recovering - 1 }
  | some (.reduce number) =>
    match m.tables.rule number with
    | none => .fault Fault.listIndex c
    | some rule => c.reduce m number rule
  | some .accept => .done (c.stack.head?.bind (·.value)) c
  | none => c.failure m

def Config.noted (m : Setup σ ν ω) (line : Unit → String) (c : Config σ ν ω) : String :=
  (c.note m line).log

theorem note_eq (m : Setup σ ν ω) (c : Config σ ν ω) (line : Unit → String) :
    c.note m line = { c with log := c.noted m line } := by
  unfold Config.noted Config.note
  split <;> rfl

variable {m : Setup σ ν ω} {c d : Config σ ν ω}

theorem fill_relogged (log : String) (h : c.fill m = (got, d)) :
    Config.fill m { c with log } = (got.map fun c => { c with log }, { d with log }) := by
  obtain ⟨state, states, stack, look, putBack, recovering, errorOk, world, log'⟩ := c
  cases look with
  | some e => cases h; rfl
  | none =>
    cases putBack with
    | cons p rest => cases h; rfl
    | nil =>
      obtain ⟨got', s, hpull⟩ : ∃ got' s, m.pull world = (got', s) := ⟨_, _, rfl⟩
      simp only [Config.fill, hpull] at h ⊢
      cases got' <;> cases h <;> rfl

variable [BEq σ]

theorem step_filled {action : Option Action} (hsole : m.tables.sole c.state = none)
    (hfill : c.fill m = (.ok d, d)) (hlook : d.look = some e)
    (haction : m.tables.action d.state e.sort = action) :
    ∃ log, step m c = Config.perform m { d with log } action := by
  have hrelog := fun log => fill_relogged log hfill
  simp only [step, note_eq, hsole, hrelog, Except.map, hlook, Option.bind_some, haction]
  rcases action with _ | _ | _ | _ <;> exact ⟨_, rfl⟩

theorem step_unfilled (hsole : m.tables.sole c.state = none) (hfill : c.fill m = (.error f, d)) :
    ∃ log, step m c = .fault f { d with log } := by
  have hrelog := fun log => fill_relogged log hfill
  simp only [step, note_eq, hsole, hrelog]
  exact ⟨_, rfl⟩

end LangKit.Lr

namespace LangKit.Script

open Lr (note_eq)

/-- The machine that parses without tracking and log. -/
abbrev plain : Lr.Setup Symbol Tree Source := setup false false

abbrev PlainConfig := Lr.Config Symbol Tree Source

variable {s n t : Nat} {r : Rule} {c d : PlainConfig} {e top : Entry} {tracking : Bool}
  {right rest : List Entry}

def checkStates (check : Nat → State → Bool) : Bool :=
  states.toList.zipIdx.all fun e => check e.2 e.1

theorem of_checkStates {check : Nat → State → Bool} (h : checkStates check = true)
    (hs : states[s]? = some st) : check s st = true := by
  have hmem : (st, s) ∈ states.toList.zipIdx := by
    rw [List.mem_zipIdx_iff_getElem?, Array.getElem?_toList]
    exact hs
  exact List.all_eq_true.mp h (st, s) hmem

/-- No state reduces without a look at what comes next. -/
theorem sole_eq_none (s : Nat) : tables.sole s = none := by
  have hall : checkStates (fun _ st => st.sole.isNone) = true := by decide +kernel
  cases hs : states[s]? with
  | none => simp [tables, hs]
  | some st =>
    simp only [tables, hs, Option.bind_some]
    exact Option.isNone_iff_eq_none.mp (of_checkStates hall hs)

theorem action_errorMark (s : Nat) : tables.action s .errorMark = none := by
  have hall : checkStates (fun _ st => (st.action .errorMark).isNone) = true := by decide +kernel
  cases hs : states[s]? with
  | none => simp [tables, hs]
  | some st =>
    simp only [tables, hs, Option.bind_some]
    exact Option.isNone_iff_eq_none.mp (of_checkStates hall hs)

theorem body_length_ne_zero (hr : rules[n]? = some r) : r.body.length ≠ 0 := by
  have hall : rules.toList.all (fun r => r.body.length != 0) = true := by decide +kernel
  have hmem : r ∈ rules.toList := Array.mem_toList_iff.mpr (Array.mem_of_getElem? hr)
  simpa using List.all_eq_true.mp hall r hmem

/-- With a symbol in hand the move of the table is made, with and without tracking and a log. -/
theorem step_watched (tracking logging : Bool) {action : Option Lr.Action}
    (hfill : c.fill plain = (.ok d, d)) (hlook : d.look = some e)
    (ha : tables.action d.state e.sort = action) :
    ∃ log, Lr.step (setup tracking logging) c =
      Lr.Config.perform (setup tracking logging) { d with log } action := by
  have hsole : (setup tracking logging).tables.sole c.state = none := sole_eq_none c.state
  have hfill' : c.fill (setup tracking logging) = (.ok d, d) := hfill
  exact Lr.step_filled hsole hfill' hlook ha

theorem step_faulted (tracking logging : Bool) (hfill : c.fill plain = (.error f, d)) :
    ∃ log, Lr.step (setup tracking logging) c = .fault f { d with log } := by
  have hsole : (setup tracking logging).tables.sole c.state = none := sole_eq_none c.state
  have hfill' : c.fill (setup tracking logging) = (.error f, d) := hfill
  exact Lr.step_unfilled hsole hfill'

/-! ## Reductions -/

def Placed (e : Entry) : Prop :=
  ∃ line pos, e.line = some line ∧ e.pos = some pos

theorem spanOf_placed (logging : Bool) (world : Source) (sort : Symbol) {length : Nat}
    (hlength : length ≠ 0)
    (hright : right ≠ []) (hplaced : tracking = true → ∀ e ∈ right, Placed e) :
    ∃ e, Lr.spanOf (setup tracking logging) world length right (.bare sort none) = .ok e ∧
      e.sort = sort ∧ (tracking = true → Placed e) := by
  cases tracking with
  | false => exact ⟨_, rfl, rfl, nofun⟩
  | true =>
    obtain ⟨first, hfirst⟩ : ∃ e, right.head? = some e := ⟨_, List.head?_eq_some_head hright⟩
    obtain ⟨last, hlast⟩ : ∃ e, right.getLast? = some e := ⟨_, List.getLast?_eq_some_getLast hright⟩
    obtain ⟨line, pos, hline, hpos⟩ := hplaced rfl first (List.mem_of_head? hfirst)
    obtain ⟨line', pos', hline', hpos'⟩ := hplaced rfl last (List.mem_of_getLast? hlast)
    have hspan : Lr.spanOf (setup true logging) world length right (.bare sort none) =
        .ok ⟨sort, .machine, none, some line, some pos, some (last.endLine.getD line'),
          some (last.endPos.getD pos')⟩ := by
      simp only [Lr.spanOf, setup, Bool.not_true, Bool.false_eq_true, if_false, beq_iff_eq, hlength,
        hfirst, hlast, Lr.Entry.need, hline, hpos, hline', hpos']
      rfl
    exact ⟨_, hspan, rfl, fun _ => ⟨line, pos, rfl, rfl⟩⟩

theorem noteReduce_ok (tracking logging : Bool) {rest : List Nat}
    (hvalues : ∀ e ∈ c.stack.take r.body.length, e.value.isSome = true)
    (hstates : c.states.drop r.body.length = s :: rest)
    (hgoto : tables.goto s (.phrase r.head) = some t) :
    ∃ log, c.noteReduce (setup tracking logging) r.info = .ok { c with log } := by
  cases logging with
  | false => exact ⟨c.log, rfl⟩
  | true =>
    have hlist : ∃ text, Lr.valueList (setup tracking true) (c.stack.take r.info.length).reverse =
        .ok text := by
      have hfind : (c.stack.take r.info.length).reverse.find? (fun e => e.value.isNone) = none := by
        rw [List.find?_eq_none]
        intro e he
        simpa [Option.isSome_iff_ne_none] using hvalues e (List.mem_reverse.mp he)
      simp only [Lr.valueList, hfind]
      exact ⟨_, rfl⟩
    obtain ⟨text, htext⟩ := hlist
    have hdrop : c.states.drop r.info.length = s :: rest := hstates
    have htarget : (setup tracking true).tables.goto s r.info.sort = some t := hgoto
    have hlogging : (setup tracking true).logging = true := rfl
    simp only [Lr.Config.noteReduce, hlogging, if_true, htext, hdrop, htarget, note_eq,
      bind, Except.bind]
    exact ⟨_, rfl⟩

/-- A reduction whose parts are on the stack, with their values and their places, and whose head the
state below them expects. -/
theorem reduce_watched (tracking logging : Bool) (c : PlainConfig) (parts below : List Entry)
    {rest : List Nat} (hrule : rules[n]? = some r) (hstack : c.stack = parts ++ below)
    (hlen : parts.length = r.body.length) (hbelow : below ≠ [])
    (hvalues : ∀ e ∈ parts, e.value.isSome = true)
    (hplaced : tracking = true → ∀ e ∈ parts, Placed e)
    (hstates : c.states.drop r.body.length = s :: rest)
    (hgoto : tables.goto s (.phrase r.head) = some t) :
    ∃ e log, c.perform (setup tracking logging) (some (.reduce n)) = .next { c with
        state := t, states := t :: s :: rest, stack := e :: below, log } ∧
      e.sort = .phrase r.head ∧
        e.value = some (r.meaning (parts.reverse.map fun e => e.value.getD .null)) ∧
      (tracking = true → Placed e) := by
  obtain ⟨b, more, rfl⟩ := List.exists_cons_of_ne_nil hbelow
  have hne : r.info.length ≠ 0 := body_length_ne_zero hrule
  have hparts : parts.reverse ≠ [] := by
    intro hnil
    rw [List.reverse_eq_nil_iff] at hnil
    exact hne (by rw [show r.info.length = parts.length from hlen.symm, hnil]; rfl)
  obtain ⟨log, hnote⟩ := noteReduce_ok tracking logging
    (by rw [hstack, ← hlen, List.take_left]; exact hvalues) hstates hgoto
  obtain ⟨e, hspan, hsort, hplace⟩ := spanOf_placed logging c.world r.info.sort hne hparts
    fun h e he => hplaced h e (List.mem_reverse.mp he)
  have hwindow : (c.stack.take (r.info.length + 1)).reverse = b :: parts.reverse := by
    have hl : r.info.length + 1 = (parts ++ [b]).length := by
      simp [Rule.info, hlen]
    have hs : c.stack = parts ++ [b] ++ more := by
      rw [hstack, List.append_cons]
    rw [hs, hl, List.take_left, List.reverse_append]
    rfl
  have hright : (if (r.info.length == 0) = true then [] else parts.reverse) = parts.reverse :=
    if_neg (by simpa using hne)
  have hdrop : c.stack.drop r.info.length = b :: more := by
    rw [hstack, show r.info.length = parts.length from hlen.symm, List.drop_left]
  have hact : (setup tracking logging).act n parts.reverse (b :: more) =
      .ok (r.meaning (parts.reverse.map fun e => e.value.getD .null)) := by
    simp only [setup, hrule]
  have hdropped : c.states.drop r.info.length = s :: rest := hstates
  have htarget : (setup tracking logging).tables.goto s r.info.sort = some t := hgoto
  have hinfo : (setup tracking logging).tables.rule n = some r.info := by
    simp [setup, tables, hrule]
  have hreduce : ∃ log, c.perform (setup tracking logging) (some (.reduce n)) = .next { c with
      state := t, states := t :: s :: rest, log,
      stack :=
        { e with value := some (r.meaning (parts.reverse.map fun e => e.value.getD .null)) } ::
          b :: more } := by
    simp only [Lr.Config.perform, hinfo, Lr.Config.reduce, hnote, hwindow, List.drop_one,
      List.tail_cons, hright, hdrop, hspan, hact, List.isEmpty_cons, Bool.and_false,
      Bool.false_eq_true, if_false, note_eq, Lr.Config.goTo, hdropped, htarget]
    exact ⟨_, rfl⟩
  obtain ⟨log', hreduce⟩ := hreduce
  exact ⟨_, log', hreduce, hsort, rfl, hplace⟩

/-! ## Recovery -/

def Source.reported (s : Source) (e : Entry) : Source :=
  { s with printed := s.printed ++ errorLine (if e.sort == .endMark then none else some e) ++ "\n" }

theorem events_reportedIf (b : Bool) (s : Source) (e : Entry) :
    (if b = true then s.reported e else s).events = s.events := by
  split <;> rfl

theorem callHandler_eq (tracking logging : Bool) (c : PlainConfig) (e : Entry) :
    c.callHandler (setup tracking logging) e = .goOn
      { c with recovering := Lr.recoveryLength, errorOk := false, world := c.world.reported e } :=
        rfl

/-- Where there is no move, the error is reported unless the machine is recovering already. -/
theorem failure_watched (tracking logging : Bool) (hlook : c.look = some e) :
    ∃ log, c.failure (setup tracking logging) =
      Lr.Config.recover (setup tracking logging) e { c with
        recovering := Lr.recoveryLength, errorOk := false, log
        world := if (c.recovering == 0 || c.errorOk) = true then c.world.reported e
          else c.world } := by
  simp only [Lr.Config.failure, hlook, note_eq, callHandler_eq]
  by_cases h : (c.recovering == 0 || c.errorOk) = true
  · simp only [h, if_true]
    exact ⟨_, rfl⟩
  · have hok : c.errorOk = false := by
      simp only [Bool.or_eq_true, not_or, Bool.not_eq_true] at h
      exact h.2
    simp only [if_neg h]
    exact ⟨_, by rw [← hok]⟩

section

variable {logging : Bool}

theorem recover_empty (hstates : c.states = [0]) (hend : e.sort ≠ .endMark) :
    Lr.Config.recover (setup tracking logging) e c =
      .next { c with look := none, state := 0, putBack := [] } := by
  have hsort : (e.sort != (setup tracking logging).endSort) = true := by simpa [setup] using hend
  simp only [Lr.Config.recover, hstates, hsort]
  rfl

theorem recover_at_end (hend : e.sort = .endMark) :
    Lr.Config.recover (setup tracking logging) e c = .done none c := by
  have hsort : (e.sort == (setup tracking logging).endSort) = true := by simpa [setup] using hend
  simp only [Lr.Config.recover, bne, hsort, Bool.not_true, Bool.and_false,
    Bool.false_eq_true, if_false, if_true]

theorem recover_at_token (t : Token) (hstack : c.stack = top :: rest) (htop : top.sort ≠ .errorMark)
    (hstates : 1 < c.states.length) :
    Lr.Config.recover (setup tracking logging) t.entry c = .next { c with
      look := some (Lr.errorEntry plain t.entry), putBack := some t.entry :: c.putBack } := by
  have hshort : decide (c.states.length ≤ 1) = false := decide_eq_false (by omega)
  have hend : (t.entry.sort == (setup tracking logging).endSort) = false := rfl
  have herror : (t.entry.sort != (setup tracking logging).errorSort) = true := rfl
  have htop' : (top.sort == (setup tracking logging).errorSort) = false :=
    beq_eq_false_iff_ne.mpr htop
  simp only [Lr.Config.recover, hshort, hend, herror, hstack, htop', Bool.false_and,
    Bool.false_eq_true, if_false, if_true]
  rfl

/-- With an error symbol in hand the top of the stack is popped, and with tracking the symbol takes
over its place. -/
theorem recover_at_error (logging : Bool) {states : List Nat} (hsort : e.sort = .errorMark)
    (hstack : c.stack = top :: rest) (htop : tracking = true → Placed top)
    (hstates : c.states = s' :: s :: states) :
    ∃ e', Lr.Config.recover (setup tracking logging) e c = .next { c with
        stack := rest, look := some e', states := s :: states, state := s } ∧
      e'.sort = .errorMark := by
  have hend : (e.sort == Symbol.endMark) = false := by rw [hsort]; rfl
  have herror : (e.sort != Symbol.errorMark) = false := by rw [hsort]; rfl
  cases tracking with
  | false =>
    refine ⟨e, ?_, hsort⟩
    simp only [Lr.Config.recover, setup, hstates, hstack, hend, herror]
    rfl
  | true =>
    obtain ⟨line, pos, hline, hpos⟩ := htop rfl
    refine ⟨{ e with line := some line, pos := some pos }, ?_, hsort⟩
    simp only [Lr.Config.recover, setup, hstates, hstack, hend, herror, Lr.Entry.need, hline, hpos]
    rfl

end

end LangKit.Script
