import LangKit.Proofs.Ast.Shape
import LangKit.Proofs.Parser.RoundTrip
import LangKit.Proofs.Scoping.Refinement

/-!
# Runs of programs

A run of a program in the scoped dialect ends as the run over a stack of frames does: with the same
output, the same inputs used and the same error, if there is one (`runProgram_eq_stacked`). Here the
nodes are loaded that the rest of a run takes as given: first the host's inputs, then the program.
-/

namespace LangKit.Script.Stacked

open Ast Store

variable {p : Program}

variable {c : Setting} {m : Machine} {w : World}

/-- What is found for the main function, and the statements that are read of it in any later
state. -/
inductive Main (c : Setting) : Datum → Option Function → Prop
  | none : Main c .null none
  | some {f : Function} {ref : Nat} {ds : List Datum}
      (body : HoldsAll c.base c.base.size ds f.body.trees)
      (statements : ∀ {m : Machine}, Extends c.base m.store →
        Run.field (.node ref) "statements" m = (.ok (.list ds), m)) : Main c (.node ref) (some f)

theorem main_of_code {f : Function} (h : c.Code d f.tree) : Main c d (some f) := by
  obtain ⟨ds, hbody, hstatements⟩ := h.list_field "statements" rfl
  cases h with
  | node => exact .some hbody hstatements

theorem findMain_apply {m : Machine} (he : Extends c.base m.store) {functions : List Function}
    (hds : HoldsAll c.base c.base.size ds (functions.map Function.tree)) :
    ∃ found, findMain ds m = (.ok found, m) ∧
      Main c found (functions.find? fun f => f.name.text == "main") := by
  match functions, hds with
  | [], .nil => exact ⟨.null, rfl, .none⟩
  | f :: functions, .cons (d := d) first rest =>
    obtain ⟨found, hfound, hcase⟩ := findMain_apply he rest
    have hname := Setting.Code.text_field (c := c) first he "name" rfl
    have hsame : (Datum.text f.name.text).same (.text "main") = (f.name.text == "main") := rfl
    rw [List.find?_cons]
    cases hmain : f.name.text == "main" with
    | false =>
      refine ⟨found, ?_, hcase⟩
      simp only [findMain, bind_apply, hname, hsame, hmain, Bool.false_eq_true, if_false, hfound]
    | true =>
      refine ⟨d, ?_, main_of_code first⟩
      simp only [findMain, bind_apply, hname, hsame, hmain, if_true, pure_apply]

def runLoaded (limit : Nat) (functions : List Datum) : Run Unit := do
  let _ ← Run.block (Row.main.step .scoped limit) (← enterLoaded functions) []

theorem agree_runLoaded (hl : Linked c [[]] m w) (hp : c.functions = p.functions) :
    Agree m w (runLoaded limit c.loaded) (run limit p c.host) fun _ _ m' w' => m'.console =
      w'.console := by
  have hflat : Flat [[]] [] := fun _ => rfl
  obtain ⟨main, hmain, hcase⟩ := findMain_apply hl.base c.holds_functions
  obtain ⟨_, hexec, _⟩ := agree_all c limit
  rw [runLoaded, enterLoaded, bind_assoc]
  refine .step hmain ?_
  rw [bind_assoc]
  refine .step (hl.untraced _) ?_
  rw [run, ← hp]
  generalize c.functions.find? (fun f => f.name.text == "main") = f at hcase ⊢
  cases hcase with
  | none => exact agree_report hl .name "No main() function was found"
  | some body statements =>
    rw [bind_assoc]
    refine .step (statements hl.base) (.step rfl ?_)
    refine .bind (agree_block (executes_row hexec .main) hl hflat body) (fun _ => latches_pure _) ?_
    rintro ⟨scope, d⟩ v m' w' ⟨⟨_, _, hl', _⟩, _⟩
    exact .pure hl'.console

theorem exists_setting (p : Program) (hsep : host.Separate)
    (hinputs : ∀ d ∈ inputs, ∃ t, Holds host host.size d t) :
    ∃ c : Setting, c.functions = p.functions ∧ c.host = host ∧ c.base = (host.load p.tree).2 ∧
      c.inputs = inputs ∧ ∃ ref, (host.load p.tree).1 = .node ref ∧
        c.base.field? ref "functions" = some (.list c.loaded) := by
  obtain ⟨hextends, hprogram⟩ := holds_load p.tree hsep
  generalize (host.load p.tree).1 = d at hprogram
  generalize (host.load p.tree).2 = base at hextends hprogram
  cases hprogram with
  | @node _ ref _ _ lt _ fields =>
    obtain ⟨d, hget, hd⟩ := fields.get? "functions" rfl
    cases hd with
    | @list _ ds _ items =>
      refine ⟨⟨p.functions, host, base, ds, inputs, ?_, ?_⟩, rfl, rfl, rfl, rfl, ref, rfl, hget⟩
      · exact items.extend (Nat.le_of_lt lt) fun _ _ => rfl
      · intro d hd
        obtain ⟨t, ht⟩ := hinputs d hd
        exact ⟨t, ht.of_extends hextends, ht⟩

theorem Ends.same {r : Except Stop Unit × Machine}
    (h : Ends (fun _ _ m w => m.console = w.console) r r') :
    r.1 = r'.1 ∧ r.2.console = r'.2.console := by
  cases h with
  | ok related => exact ⟨rfl, related⟩
  | error e console => exact ⟨rfl, console⟩

/-- The run of a program over a stack of frames that starts with a machine's console, behind what
the parser has printed. -/
@[irreducible] def runOn (limit : Nat) (p : Program) (printed : String) (m : Machine) :
    Except Stop Unit × World :=
  run limit p m.store (.start { m.console with printed := m.console.printed ++ printed })

/-- A program runs as it does over a stack of frames, from any store that keeps nodes apart. -/
theorem agree_runProgram {text printed : String}
    (hparse : parseProgram text = (.ok p.tree, printed)) (hsep : m.store.Separate)
    (hinputs : ∀ d ∈ m.console.inputs, ∃ t, Holds m.store m.store.size d t)
    (htrace : m.console.trace = false) :
    (runOn limit p printed m).2.nilAssigned = false →
      Ends (fun _ _ m' w' => m'.console = w'.console) (runProgram limit (.scoped .scoped) text m)
        (runOn limit p printed m) := by
  obtain ⟨c, hp, hhost, hbase, hin, ref, hnode, hfunctions⟩ := exists_setting p hsep hinputs
  have hextends : Extends c.base (m.store.load p.tree).2 := by
    rw [hbase]
    exact .refl (holds_load p.tree hsep).1.separate
  have hrun : runProgram limit (.scoped .scoped) text = (do
      let program ← loadProgram text
      let functions ← Run.items (← Run.field program "functions")
      modify fun m => { m with functions, globals := [] }
      runLoaded limit functions) := by
    rw [runProgram_eq_enter, enterMain]
    simp only [bind_assoc]
    rfl
  rw [runOn, hrun]
  refine Agree.step (loadProgram_apply hparse m) ?_
  rw [hnode]
  refine .step (field_apply (hbase ▸ hfunctions)) (.step rfl (.step rfl ?_))
  refine .congr rfl (congrArg (fun host => run limit p host _) hhost.symm) (agree_runLoaded ?_ hp)
  exact ⟨hextends, rfl, rfl, htrace, hin.symm, .nil, nofun, .cons .nil .nil⟩

/-- A program of any text that can be parsed runs in the scoped dialect as it does over a stack of
frames, with any inputs, unless nil is assigned to a bound name: it ends in the same way, and the
console is the same at the end, with its output and the number of inputs that have been used. -/
theorem runProgram_eq_stacked {text printed : String} {t : Tree}
    (hparse : parseProgram text = (.ok t, printed)) :
    (∃ p : Program, t = p.tree) ∧
    ∀ p : Program, t = p.tree → ∀ (limit : Nat) (echo : Bool) (inputs : List Tree) (typed : String),
      let m := Machine.start echo false inputs typed
      (runOn limit p printed m).2.nilAssigned = false →
        (runProgram limit (.scoped .scoped) text m).1 = (runOn limit p printed m).1 ∧
        (runProgram limit (.scoped .scoped) text m).2.console =
          (runOn limit p printed m).2.console := by
  refine ⟨exists_program_of_parse hparse, ?_⟩
  rintro p rfl limit echo inputs typed m hnil
  obtain ⟨hextends, hinputs⟩ := holdsAll_load inputs separate_empty
  exact (agree_runProgram hparse hextends.separate hinputs.exists_tree rfl hnil).same

/-- Reads a number into a variable, which a function that is called in a loop changes for its
caller. The last statement reads a variable of the loop's body, which is gone by then. -/
def tally : Program :=
  let print : Name := ⟨"print", by decide +kernel⟩
  let bump : Name := ⟨"bump", by decide +kernel⟩
  let total : Name := ⟨"total", by decide +kernel⟩
  let step : Name := ⟨"step", by decide +kernel⟩
  let x : Name := ⟨"x", by decide +kernel⟩
  let var (name : Name) : Expr := .var (.plain name)
  let one : Expr := .int ⟨1, by decide +kernel⟩
  let three : Expr := .int ⟨3, by decide +kernel⟩
  { first := ⟨bump, [⟨x, false⟩],
      .cons (.assign (.plain x) (.binary .add (var x) one)) <|
      .cons (.assign (.plain total) (.binary .add (var total) (var x))) <|
      .last (.result (var x))⟩
    rest := [⟨⟨"main", by decide +kernel⟩, [],
      .cons (.assign (.plain total) (.call ⟨"inputi", by decide +kernel⟩ .nil)) <|
      .cons (.assign (.plain x) one) <|
      .cons (.loop (.binary (.order .less) (var x) three) <|
        .cons (.assign (.plain step) (.call bump (.cons (var x) .nil))) <|
        .last (.assign (.plain x) (var step))) <|
      .cons (.expr (.call print (.cons (var total) (.cons (var x) .nil)))) <|
      .last (.expr (.call print (.cons (var step) .nil)))⟩] }

/-- The frames of the calls and of the rounds of the loop are gone at the end of a run with the
input 10, in which the calls have added 2 and 3 to it. -/
theorem runProgram_eq_stacked_tally :
    let m := Machine.start false false [.text "10"] ""
    parseProgram tally.text = (.ok tally.tree, "") ∧
    (runOn 1000 tally "" m).2.nilAssigned = false ∧
    (runProgram 1000 (.scoped .scoped) tally.text m).1.toOption = none ∧
    (runProgram 1000 (.scoped .scoped) tally.text m).2.console.errorKind = some .name ∧
    (runProgram 1000 (.scoped .scoped) tally.text m).2.console.log.toList.map
      (Datum.same (.text "153")) = [true] ∧
    (runProgram 1000 (.scoped .scoped) tally.text m).2.console.cursor = 1 := by
  intro m
  obtain ⟨hfault, hreport, hranked⟩ := tally.text_ranked
  obtain ⟨houtcome, hprinted, _⟩ := parse_complete hfault hranked
  have hparse : parseProgram tally.text = (.ok tally.tree, "") := by
    rw [parseProgram_of_some houtcome, hprinted, hreport]
  have hnil : (runOn 1000 tally "" m).2.nilAssigned = false := by decide +kernel
  obtain ⟨hend, hconsole⟩ :=
    (runProgram_eq_stacked hparse).2 tally rfl 1000 false [.text "10"] "" hnil
  rw [hend, hconsole]
  exact ⟨hparse, hnil, by decide +kernel⟩

end LangKit.Script.Stacked
