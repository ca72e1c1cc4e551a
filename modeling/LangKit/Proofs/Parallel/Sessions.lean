import LangKit.Proofs.Parallel.Diagnostics
import LangKit.Proofs.Parallel.Relocation

/-!
# Runs in a session

A session runs programs and answers other calls one after the other, and keeps its console, its
store and its reader from call to call. What it has done before does not matter for a run: the run
goes as in a new session that has used up as much of its input, and adds to the log what it logs
there (`runProgram_after_calls`). The two runs are compared over a bridge between the place of the
program in the store of the session and its place in the store of the new one (`resumption`); that
they load the same program is `Reader.program_eq`.
-/

namespace LangKit.Script.Parallel

open Run Store

variable {m : Machine}

/-! ## What a run leaves alone -/

/-- Two consoles have the same switches and the same given inputs. -/
def SameSwitches (c c' : Console) : Prop :=
  c'.echo = c.echo ∧ c'.trace = c.trace ∧ c'.inputs = c.inputs

/-- A step leaves the error that was reported last as it is, or it ends with an error that it
reports. -/
def TellsErrors {α : Type} (x : Run α) : Prop :=
  ∀ m : Machine,
    ((x m).2.console.errorKind = m.console.errorKind ∧
      (x m).2.console.errorLine = m.console.errorLine) ∨
    ∃ kind text line, (x m).1 = .error (.fault (.reported kind text line)) ∧
      (x m).2.console.errorKind = some kind ∧ (x m).2.console.errorLine = line

theorem output_console (c : Console) (s : Store) (d : Datum) :
    ∃ printed log, (c.output s d).2 = { c with printed := printed, log := log } := by
  unfold Console.output
  split
  · split
    · exact ⟨_, _, rfl⟩
    · exact ⟨c.printed, c.log, rfl⟩
  · exact ⟨c.printed, _, rfl⟩

theorem input_console (c : Console) :
    ∃ cursor typed, c.input.2 = { c with cursor := cursor, typed := typed } := by
  obtain ⟨-, cursor, typed, hleft, -⟩ := input_alike (c := c) rfl rfl rfl
  exact ⟨cursor, typed, hleft⟩

theorem inherits_keepsSwitches :
    InheritsWhole fun x => ∀ m : Machine, SameSwitches m.console (x m).2.console := by
  refine inherits_of_console (fun _ => ⟨rfl, rfl, rfl⟩) (fun h h' => ?_)
    (fun _ _ => ⟨rfl, rfl, rfl⟩) (fun _ _ _ _ => ⟨rfl, rfl, rfl⟩) (fun c => ?_) fun c s d => ?_
  · exact ⟨h'.1.trans h.1, h'.2.1.trans h.2.1, h'.2.2.trans h.2.2⟩
  · obtain ⟨cursor, typed, hconsole⟩ := input_console c
    rw [hconsole]
    exact ⟨rfl, rfl, rfl⟩
  · obtain ⟨printed, log, hconsole⟩ := output_console c s d
    rw [hconsole]
    exact ⟨rfl, rfl, rfl⟩

instance : InheritsFreely TellsErrors where
  look := by
    intro α x hx m
    rw [hx m]
    exact .inl ⟨rfl, rfl⟩
  bind := by
    intro α β x f hx hf m
    have hfirst := hx m
    rw [bind_apply]
    generalize x m = r at hfirst ⊢
    rcases r with ⟨e | a, m'⟩
    · refine hfirst.imp_right ?_
      rintro ⟨kind, text, line, he, htold⟩
      obtain rfl := Except.error.inj he
      exact ⟨kind, text, line, rfl, htold⟩
    · rcases hfirst with ⟨hkind, hline⟩ | ⟨kind, text, line, he, -⟩
      · exact (hf a m').imp_left fun hsame => ⟨hsame.1.trans hkind, hsame.2.trans hline⟩
      · cases he
  onStore _ := ⟨fun _ => .inl ⟨rfl, rfl⟩⟩
  report kind text := ⟨fun _ => .inr ⟨kind, some text, none, rfl, rfl, rfl⟩⟩

theorem inherits_tellsErrors : InheritsWhole TellsErrors := by
  have hall : Inherits TellsErrors := by
    refine InheritsFreely.inherits (fun _ => ⟨fun _ => .inl ⟨rfl, rfl⟩⟩) ⟨fun m => ?_⟩
      fun d => ⟨fun m => ?_⟩
    · obtain ⟨cursor, typed, hconsole⟩ := input_console m.console
      rw [input_machine, hconsole]
      exact .inl ⟨rfl, rfl⟩
    · obtain ⟨printed, log, hconsole⟩ := output_console m.console m.store d
      rw [output_machine, hconsole]
      exact .inl ⟨rfl, rfl⟩
  refine ⟨fun hx m => ?_, fun _ => ⟨fun _ => .inl ⟨rfl, rfl⟩⟩, fun _ => ⟨fun _ => .inl ⟨rfl, rfl⟩⟩⟩
  rw [(hx m).2]
  exact .inl ⟨rfl, rfl⟩

/-! ## The bridge to a new session -/

/-- The console of a session, which was `first` before a run, and that of a new session. -/
structure Resumes (first c c' : Console) : Prop where
  echo : c'.echo = c.echo
  trace : c'.trace = c.trace
  given : c.inputs = first.inputs
  inputs : c'.inputs = c.inputs
  cursor : c'.cursor = c.cursor
  typed : c'.typed = c.typed
  log : c.log = first.log ++ c'.log
  atoms : ∀ d ∈ c'.log, d.isAtom = true
  error : (c'.errorKind = none ∧ c.errorKind = first.errorKind ∧ c.errorLine = first.errorLine) ∨
    (c'.errorKind.isSome = true ∧ c.errorKind = c'.errorKind ∧ c.errorLine = c'.errorLine)

theorem Resumes.input (h : Resumes first c c') :
    c.inputs = first.inputs ∧ c'.input.1 = c.input.1 ∧ Resumes first c.input.2 c'.input.2 := by
  obtain ⟨hsame, cursor, typed, hleft, hright⟩ := input_alike h.inputs h.cursor h.typed
  rw [hleft, hright]
  exact ⟨h.given, hsame, { h with cursor := rfl, typed := rfl }⟩

theorem Resumes.push (h : Resumes first c c') (hd : d.isAtom = true) :
    Resumes first { c with log := c.log.push d } { c' with log := c'.log.push d } :=
  { h with
    log := by simp only [h.log, Array.append_push]
    atoms := by
      intro d' hd'
      rcases Array.mem_push.1 hd' with hold | rfl
      · exact h.atoms d' hold
      · exact hd }

theorem textOf_of_rests (hbase : base.Formed)
    (hd : Holds base base.size d t) (hs : Rests base s) (hs' : Rests base s') :
    s'.textOf d = s.textOf d := by
  have hleft : Holds s base.size d t := hd.extend (Nat.le_refl _) fun r hr => hs.node hbase hr
  have hright : Holds s' base.size d t := hd.extend (Nat.le_refl _) fun r hr => hs'.node hbase hr
  exact hright.textOf_eq hs'.cells.size hs.cells.size hleft

def resumption (version : Version) (m : Machine) {base : Store} (hbase : base.Formed)
    (hm : Rests base m.store) (hgiven : ∀ d ∈ m.console.inputs, ∃ t, Holds base base.size d t) :
    Bridge (regionOf version m) where
  rel := Shifted m.store.size base.size
  stores := Relocated m.store base
  consoles := Resumes m.console
  hushed := false
  given := m.console.inputs
  same := Shifted.eq_iff
  inside h hr hrel := (hrel.lt_iff h.size).1 hr.2
  kind h _ hrel := h.kind_eq hrel
  fields h _ hrel := h.fields_like hrel
  text _ h _ hd := h.textOf_eq hd
  givenText h hd := by
    obtain ⟨t, ht⟩ := hgiven _ hd
    exact textOf_of_rests hbase ht (hm.trans h.rests) h.rests'
  alloc h hfs := ⟨h.alloc hfs, h.size⟩
  copy hs h hd hlike :=
    h.copy hs.formed (fun _ hr => hr) (fun r hr => (hs.closed r hr).2) hd hlike
  copyFields hs h hfs hlike :=
    h.copyFields hs.formed (fun _ hr => hr) (fun r hr => (hs.closed r hr).2) hfs hlike
  setKind h _ hrel := h.setKind hrel
  setField h _ hrel hd := h.setField hrel hd
  shareTable h _ hrel _ hrel' := h.shareTable hrel hrel'
  input := Resumes.input
  trace h := by
    rw [h.trace]
    simp
  echo h := by
    rw [h.echo]
    simp
  printed h _ := { h with }
  hush hh := nomatch hh
  log h _ hd := h.push hd
  report h _ _ _ := { h with error := .inr ⟨rfl, rfl, rfl⟩ }

/-! ## Calls of a session -/

inductive Call
  | run (text : String)
  | output (value : Tree)
  | input
  | report (kind : ErrorKind) (text : Option String) (line : Option Int)
  | reset

def Call.answer (limit : Nat) (version : Version) : Call → Run Unit
  | .run text => runProgram limit version text
  | .output value => do Run.output (← onStore fun s => s.load value)
  | .input => do let _ ← Run.input
  | .report kind text line => do fail (← onConsole fun _ c => c.report kind text line)
  | .reset => onConsole fun _ c => ((), c.reset)

def afterCalls (limit : Nat) (version : Version) (m : Machine) (calls : List Call) : Machine :=
  calls.foldl (fun m call => (call.answer limit version m).2) m

/-- A new session that has used up as much of its input as another one. -/
def newSession (echo trace : Bool) (inputs : List Tree) (m : Machine) : Machine :=
  let start := Machine.start echo trace inputs (String.ofList m.console.typed)
  { start with console := { start.console with cursor := m.console.cursor } }

/-- What calls leave as it is: the nodes of the inputs, the inputs and the switches. -/
structure Lasts (start m : Machine) : Prop where
  formed : m.store.Formed
  rests : Rests start.store m.store
  echo : m.console.echo = start.console.echo
  trace : m.console.trace = start.console.trace
  inputs : m.console.inputs = start.console.inputs

theorem rests_of_spares (h : Spares (regionOf version m) m.store s) :
    Rests m.store s :=
  ⟨⟨h.size, h.cell⟩, ⟨h.room, h.table⟩⟩

theorem runProgram_spares (limit : Nat) (version : Version) (text : String) (hm : m.store.Formed) :
    Spares (regionOf version m) m.store (runProgram limit version text m).2.store := by
  have hbegun : Begun (still (regionOf version m) m.console.inputs false) m m :=
    ⟨rfl, rfl, hm, rfl, .refl _⟩
  exact (runProgram_endsAlike rfl rfl hbegun nofun limit text).spares

theorem Lasts.answer {start m : Machine} (h : Lasts start m)
    (limit : Nat) (version : Version) (call : Call) :
    Lasts start (call.answer limit version m).2 := by
  cases call with
  | run text =>
    have hspares := runProgram_spares limit version text h.formed
    obtain ⟨hecho, htrace, hinputs⟩ := inherits_keepsSwitches.runProgram limit version text m
    exact ⟨hspares.formed, h.rests.trans (rests_of_spares hspares), hecho.trans h.echo,
      htrace.trans h.trace, hinputs.trans h.inputs⟩
  | output value =>
    have hload : (m.store.load value).2.Formed ∧ Rests start.store (m.store.load value).2 :=
      load_keeps (P := fun s => s.Formed ∧ Rests start.store s)
        (fun s kind fs hs => ⟨hs.1.alloc, ⟨hs.2.cells.push _, hs.2.tables.push _⟩⟩) value
          ⟨h.formed, h.rests⟩
    have hstate : (Call.answer limit version (.output value) m).2 =
        { m with
          store := (m.store.load value).2
          console := (m.console.output (m.store.load value).2 (m.store.load value).1).2 } := by
      rw [Call.answer, bind_of_ok (show onStore _ m = (.ok _, _) from rfl), output_machine]
    obtain ⟨printed, log, hconsole⟩ :=
      output_console m.console (m.store.load value).2 (m.store.load value).1
    rw [hstate, hconsole]
    exact ⟨hload.1, hload.2, h.echo, h.trace, h.inputs⟩
  | input =>
    have hstate : (Call.answer limit version .input m).2 =
        { m with console := m.console.input.2 } := by
      rw [← input_machine, Call.answer, bind_apply]
      rcases input m with ⟨e | d, m1⟩ <;> rfl
    obtain ⟨cursor, typed, hconsole⟩ := input_console m.console
    rw [hstate, hconsole]
    exact ⟨h.formed, h.rests, h.echo, h.trace, h.inputs⟩
  | report kind text line => exact ⟨h.formed, h.rests, h.echo, h.trace, h.inputs⟩
  | reset => exact ⟨h.formed, h.rests, h.echo, h.trace, h.inputs⟩

theorem lasts_afterCalls (limit : Nat) (version : Version) (calls : List Call)
    {start : Machine} (h : Lasts start m) :
    Lasts start (afterCalls limit version m calls) := by
  induction calls generalizing m with
  | nil => exact h
  | cons call rest ih => exact ih (h.answer limit version call)

theorem resumes_newSession {echo trace : Bool}
    (h : Lasts (Machine.start echo trace inputs typed) m) :
    Resumes m.console m.console (newSession echo trace inputs m).console where
  echo := h.echo.symm
  trace := h.trace.symm
  given := rfl
  inputs := h.inputs.symm
  cursor := rfl
  typed := String.toList_ofList
  log := by simp [newSession, Machine.start, Console.start]
  atoms := by simp [newSession, Machine.start, Console.start]
  error := .inl ⟨rfl, rfl, rfl⟩

/-- Calls that a session has answered do not matter for a run. It ends as in a new session that has
used up as much of its input, and it uses as much. To the log it adds what is logged there, which
are plain values; no node from before is changed, so neither are the values that were in the log.
The last error is the one that the run reports, if it does, and else the one from before. Sessions
may share a reader, so any of the two can begin with one that has read other texts before. -/
theorem runProgram_after_calls (limit : Nat) (version : Version) (echo trace : Bool)
    (inputs : List Tree) (typed : String) (reader reader' : Reader) (calls : List Call)
    (text : String) :
    let m := afterCalls limit version { Machine.start echo trace inputs typed with reader } calls
    let r := runProgram limit version text m
    let new := runProgram limit version text
      { newSession echo trace inputs m with reader := reader' }
    r.1 = new.1 ∧
    r.2.console.log = m.console.log ++ new.2.console.log ∧
      (∀ d ∈ new.2.console.log, d.isAtom = true) ∧
    (∀ ref < m.store.size, r.2.store.node ref = m.store.node ref) ∧
    r.2.console.cursor = new.2.console.cursor ∧ r.2.console.typed = new.2.console.typed ∧
    ((new.2.console.errorKind = none ∧ r.2.console.errorKind = m.console.errorKind ∧
        r.2.console.errorLine = m.console.errorLine) ∨
      ∃ kind told line, r.1 = .error (.fault (.reported kind told line)) ∧
        r.2.console.errorKind = some kind ∧ r.2.console.errorLine = line) := by
  intro m r new
  have hstart := separate_start echo trace inputs typed
  have hlasts : Lasts (Machine.start echo trace inputs typed) m :=
    lasts_afterCalls limit version calls ⟨hstart.formed, .refl _, rfl, rfl, rfl⟩
  let start : Machine := { newSession echo trace inputs m with reader := reader' }
  have hgiven : ∀ d ∈ m.console.inputs, ∃ t, Holds (Machine.start echo trace inputs typed).store
      (Machine.start echo trace inputs typed).store.size d t := by
    rw [hlasts.inputs]
    exact (holdsAll_load inputs separate_empty).2.exists_tree
  have hbegun : Begun (resumption version m hstart.formed hlasts.rests hgiven) m start :=
    ⟨rfl, rfl, hlasts.formed, relocated_start _ _, resumes_newSession hlasts⟩
  have hends := runProgram_endsAlike rfl rfl hbegun nofun limit text
  have hrests : Rests m.store r.2.store := rests_of_spares hends.spares
  rcases hends.same with ⟨hend, hconsoles⟩ | ⟨e, -, hcut⟩
  · refine ⟨hend.symm, hconsoles.log, hconsoles.atoms, fun ref hr => hrests.node hlasts.formed hr,
      hconsoles.cursor.symm, hconsoles.typed.symm, ?_⟩
    refine hconsoles.error.imp id ?_
    rintro ⟨hsome, hkind, hline⟩
    -- The new session had reported no error before, so it is the run that has reported one.
    rcases inherits_tellsErrors.runProgram limit version text start with
      ⟨hnone, -⟩ | ⟨kind, told, line, hreported, hkind', hline'⟩
    · have hnone : new.2.console.errorKind = none := hnone
      rw [hnone] at hsome
      cases hsome
    · exact ⟨kind, told, line, hend.symm.trans hreported, hkind.trans hkind', hline.trans hline'⟩
  · cases hcut.hushed

end LangKit.Script.Parallel
