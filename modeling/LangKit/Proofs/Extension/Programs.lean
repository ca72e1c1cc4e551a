import LangKit.Proofs.Extension.Evaluators
import LangKit.Proofs.Safety.Moments
import Mathlib.Algebra.Group.Int.Defs

/-!
# The dialect with closures extends the scoped dialect

A first-order program whose run ends well in the scoped dialect does the same with closures: it puts
out the same and uses the same inputs, unless it finds out whether a number equals a truth value or
sets a bound name to a number that is too long to be written (`runProgram_closures_of_scoped`). The
second exception comes from a line that is printed at every such assignment. It has nothing to do
with the meaning of the program, but a program may stop at it: `powers_stops_with_closures`.
-/

namespace LangKit.Script.Extension

open Run Store
open Stacked (Setting Value Held)

variable {rest : List Activity} {statements : List Datum}
  {m0 m m1 start : Machine} {scope : Scope} {k : Int} {x text : String} {c : Setting}

/-! ## Running a loaded program -/

theorem exists_running (h : Running .scoped limit text start (a :: rest))
    (hb : Relation.ReflTransGen (Starts .scoped) a b) :
    ∃ rest', Running .scoped limit text start (b :: rest') := by
  induction hb with
  | refl => exact ⟨rest, h⟩
  | tail _ hstarts ih =>
    obtain ⟨rest', hrunning⟩ := ih
    exact ⟨_, .inner hrunning hstarts⟩

theorem enterLoaded_ok (hm : Intact c m) (h : enterLoaded c.loaded m = (.ok statements, m1)) :
    (∃ f, c.functions.find? (fun f => f.name.text == "main") = some f ∧
      HoldsAll c.base c.base.size statements f.body.trees) ∧
    ∃ printed, m1 = { m with console := { m.console with printed } } := by
  obtain ⟨main, hmain, hcase⟩ := Stacked.findMain_apply hm.base c.holds_functions
  rw [enterLoaded, bind_of_ok hmain] at h
  obtain ⟨_, m2, htrace, h⟩ := bind_eq_ok.1 h
  have htraces : Has OnlyPrints (traceMain main) := by
    unfold traceMain
    infer_instance
  obtain ⟨printed, hprinted⟩ := htraces.holds m
  rw [htrace] at hprinted
  dsimp only at hprinted
  subst hprinted
  generalize c.functions.find? (fun f => f.name.text == "main") = found at hcase
  cases hcase with
  | none => cases (Prod.mk.inj h).1
  | @some f ref ds body reads =>
    have hitems : (do items (← field (.node ref) "statements"))
        { m with console := { m.console with printed } } = (.ok statements, m1) := h
    rw [bind_of_ok (reads (hm.setConsole { m.console with printed }).base)] at hitems
    obtain ⟨rfl, rfl⟩ := pure_eq_ok.1 hitems
    exact ⟨⟨f, rfl, body⟩, printed, rfl⟩

theorem link_self {P : Value → Prop} (hm : Intact c m) (hi : m.console.inputs = c.inputs) :
    Linked P c (fun _ _ => False) m m where
  left := hm
  right := hm
  inputs := hi
  console := ⟨m.console.printed, rfl⟩
  low := False.elim
  high := False.elim
  unique := False.elim
  node := False.elim

theorem exists_run_closures (hl : Loaded text start c m0)
    (hfunctions : ∀ g ∈ c.functions, g.isFirstOrder = true) (hi : m0.console.inputs = c.inputs)
    (hclean : ∀ a rest, Running .scoped limit text start (a :: rest) → ¬ ComparesMixed a ∧
    ¬ AssignsLong a) (hrun : runProgram limit (.scoped .scoped) text start = (.ok (), m)) :
    ∃ n printed, runProgram limit (.scoped .closures) text start = (.ok (), n) ∧
      n.console = { m.console with printed } := by
  rw [runProgram_eq_enter] at hrun
  obtain ⟨statements, m1, hentered, hrun⟩ := bind_eq_ok.1 hrun
  obtain ⟨r, m2, hblock, hrun⟩ := bind_eq_ok.1 hrun
  obtain ⟨-, rfl⟩ := pure_eq_ok.1 hrun
  obtain ⟨⟨f, hfind, hbody⟩, printed, rfl⟩ :=
    enterLoaded_ok hl.intact (hl.enter.symm.trans hentered)
  have hfirst := hfunctions f (List.mem_of_find?_eq_some hfind)
  simp only [Ast.Function.isFirstOrder, Bool.and_eq_true] at hfirst
  have hcode := code_of_block (fun _ => rfl) (fun _ _ => rfl) hbody hfirst.2
  have hlink : Link c _ _ _ := link_self (hl.intact.setConsole { m0.console with printed }) hi
  have hrow := forward_row (forward_all hfunctions limit).2.1 hlink (.nil : SameScope _ [] []) .main
    hcode fun s scope1 m3 hreached b hb => ?_
  · obtain ⟨r', n, R, hblock', ho, -⟩ := hrow r m2 hblock
    obtain ⟨printed', hconsole⟩ := ho.link.console
    refine ⟨n, printed', ?_, hconsole⟩
    rw [runProgram_eq_enter, bind_of_ok hentered, bind_of_ok hblock']
    rfl
  · -- What closures change is done nowhere in the run, so by no statement of the main function.
    have hrunning : Running .scoped limit text start [⟨limit, .exec scope1 s, m3⟩] :=
      .main (.statement hentered hreached (announce_scoped _ _ _))
    obtain ⟨rest', hb'⟩ := exists_running hrunning hb
    exact hclean b rest' hb'

/-! ## Programs that are plain to see -/

def comparesNothing (s : Store) : Bool :=
  (List.range s.size).all fun ref => s.kind ref != "==" && s.kind ref != "!="

def assignsLiterals (s : Store) : Bool :=
  (List.range s.size).all fun ref => s.kind ref != "=" ||
    match s.field? ref "expression" with
    | some (.node r) => Dialect.scoped.exprForm (s.kind r) == .literal
    | _ => false

section

variable {a : Activity}

theorem not_comparesMixed (hl : Loaded text start c m0) (hbase : comparesNothing c.base = true)
    (hr : Running .scoped limit text start (a :: rest)) : ¬ ComparesMixed a := by
  rintro @⟨fuel, byRef, scope, node, d1, d2, a, b, m, m1, m2, op, va, vb, form, equality, -, -,
    -, -, -, -, -⟩
  obtain ⟨⟨hcode, hm, -⟩, -⟩ := hr.proper hl
  cases hcode with
  | eval code =>
    have .binary left right hcode := form.code hm code
    cases hcode with
    | @node _ ref _ _ lt named _ =>
      have hplain := List.all_eq_true.1 hbase ref (List.mem_range.2 lt)
      rw [named] at hplain
      rcases equality with rfl | rfl <;> cases hplain

theorem exists_write_of_literal (hm : Intact c m) (hd : FormedExpr c d .literal)
    (h : eval .scoped fuel false scope d m = (.ok d', m1)) (hk : Held m1.store d' (.int k)) :
    ∃ s, Text.Decimal.write? k = some s := by
  cases fuel with
  | zero => cases h
  | succ fuel =>
    obtain ⟨v, short, hv⟩ := hd
    -- A literal is copied, so that the number is the one in the program.
    have hliteral : IsExpression .scoped m d .literal :=
      ⟨v.kind, (hv.literal hm.base).kindOf, by cases v <;> rfl⟩
    obtain ⟨a, s, hcopy, -, hfresh⟩ := Stacked.makes_copy hm.base.separate (hv.literal hm.base)
    rw [eval_literal hliteral, hcopy] at h
    cases h
    obtain ⟨ref, rfl, -, hnode⟩ := hfresh.held
    obtain ⟨_, hsame, -, hnode'⟩ := hk
    cases hsame
    have hfields : v.node.2 = [("val", .int k)] := congrArg Prod.snd (hnode.symm.trans hnode')
    have hcontents : v.contents? = some (.int k) := by simpa [Value.node] using hfields
    cases v with
    | int n =>
      cases hcontents
      exact short k rfl
    | bool | nil | string => cases hcontents

theorem exists_literal (h : assignsLiterals s = true) (hlt : ref < s.size)
    (hkind : s.kind ref = "=") :
    ∃ r, s.field? ref "expression" = some (.node r) ∧
      Dialect.scoped.exprForm (s.kind r) = .literal := by
  have href := List.all_eq_true.1 h ref (List.mem_range.2 hlt)
  rw [hkind] at href
  split at href
  · exact ⟨_, ‹_›, by simpa using href⟩
  · cases href

theorem not_assignsLong (hl : Loaded text start c m0) (hbase : assignsLiterals c.base = true)
    (hr : Running .scoped limit text start (a :: rest)) : ¬ AssignsLong a := by
  rintro @⟨fuel, scope, node, d, d', x, k, m, m1, ⟨form, -, right⟩, -, value, held, long⟩
  obtain ⟨⟨hcode, hm, -⟩, -⟩ := hr.proper hl
  cases hcode with
  | exec code =>
    have .assign place e hcode := form.code hm code
    have hd : IsExpr c d := ⟨e, code_of_field hcode hm rfl right⟩
    have hliteral : IsExpression .scoped m d .literal := by
      cases hcode with
      | @node _ ref _ _ lt named _ =>
        obtain ⟨r, hr, hliteral⟩ := exists_literal hbase lt named
        have hfield : field (.node ref) "expression" m = (.ok (.node r), m) := by
          refine field_apply ?_
          rw [← hr, Store.field?, Store.field?]
          exact congrArg _ (congrArg Prod.snd (hm.base.node ref lt))
        obtain rfl : d = .node r := (ok_inj (right.symm.trans hfield)).1
        have hlt : r < c.base.size := by
          obtain ⟨e, hd⟩ := hd
          generalize e.tree = t at hd
          cases hd with
          | node lt => exact lt
        have hkind : m.store.kind r = c.base.kind r := congrArg Prod.fst (hm.base.node r hlt)
        exact ⟨c.base.kind r, hkind ▸ rfl, hliteral⟩
    obtain ⟨s, hs⟩ := exists_write_of_literal hm (hliteral.code hm hd) value held
    rw [hs] at long
    cases long

end

theorem exists_loaded_text (p : Ast.Program) (echo trace : Bool) (inputs : List Tree)
    (typed : String) :
    ∃ c m0, Loaded p.text (Machine.start echo trace inputs typed) c m0 ∧
      c.base = ((Machine.start echo trace inputs typed).store.load p.tree).2 := by
  obtain ⟨hextends, hinputs⟩ := holdsAll_load inputs separate_empty
  obtain ⟨c, m0, hl, -, -, -, hbase, -⟩ := exists_loaded_program p (Ast.parseProgram_of_text p)
    (separate_start echo trace inputs typed) hinputs.exists_tree
  exact ⟨c, m0, hl, hbase⟩

theorem runProgram_text (dialect : Dialect) (p : Ast.Program) :
    runProgram limit (.scoped dialect) p.text = (do
      let _ ← block (Row.main.step dialect limit) (← enterTree p) []
      return ()) := by
  rw [runProgram_eq_enter, enterMain_text]

/-! ## Numbers that are too long -/

/-- With closures, a bound name cannot be set to a number that is too long to be written. -/
theorem exec_closures_of_long {node e d : Datum} (assigns : Assigns m node x e)
    (bound : Assoc.has x scope = true) (value : eval .closures fuel false scope e m = (.ok d, m1))
    (held : Held m1.store d (.int k)) (long : Text.Decimal.write? k = none) :
    exec .closures (fuel + 1) node scope m = (.error (.fault .unprintableInteger), m1) := by
  have hbound : isBound .closures scope x = true := by
    rw [isBound, bound]
    rfl
  have hclosures : Dialect.closures.hasClosures = true := rfl
  rw [assigns.exec_eq, assign_of_bound rfl hbound, bind_apply, bind_apply, shown, bind_of_ok value,
    if_pos hclosures, bind_apply, textOf_of_long held long]

theorem write?_pow (h : Text.Decimal.digitLimit ≤ n) : Text.Decimal.write? (10 ^ n) = none := by
  rw [Text.Decimal.write?, if_pos]
  by_contra hshort
  have hlt := Nat.length_repr_le_iff (by decide) |>.1 (Nat.not_lt.1 hshort)
  have hle : 10 ^ Text.Decimal.digitLimit ≤ (10 ^ n : Int).natAbs := by
    rw [Int.natAbs_pow]
    exact Nat.pow_le_pow_right (by decide) h
  omega

def isNumber (k : Int) (d : Datum) (s : Store) : Bool :=
  match d with
  | .node ref => ref < s.size && s.kind ref == "int" &&
    match s.fields ref with
    | [("val", .int n)] => n == k
    | _ => false
  | _ => false

theorem held_of_isNumber (h : isNumber k d s = true) : Held s d (.int k) := by
  cases d with
  | node ref =>
    simp only [isNumber, Bool.and_eq_true, decide_eq_true_eq, beq_iff_eq] at h
    obtain ⟨⟨hlt, hkind⟩, hfields⟩ := h
    refine ⟨ref, rfl, hlt, Prod.ext hkind ?_⟩
    split at hfields
    · rename_i n hn
      rw [beq_iff_eq] at hfields
      rw [← hfields]
      exact hn
    · cases hfields
  | _ => cases h

/-! ## From the scoped dialect to closures -/

theorem exists_loaded_of_enterMain {echo trace : Bool}
    {P : Ast.Program → Bool} (plain : Ast.TextHas P text)
    (entered : enterMain text (Machine.start echo trace inputs typed) = (.ok statements, m1)) :
    ∃ p c m0, P p = true ∧ Loaded text (Machine.start echo trace inputs typed) c m0 ∧
      c.functions = p.functions ∧ m0.console.inputs = c.inputs := by
  obtain ⟨program, m2, hload, -⟩ := bind_eq_ok.1 entered
  obtain ⟨t, printed, hparse, -⟩ := eq_of_loadProgram hload
  obtain ⟨p, rfl, hp⟩ := plain t printed hparse
  obtain ⟨hextends, hinputs⟩ := holdsAll_load inputs separate_empty
  obtain ⟨c, m0, hloaded, hfunctions, hin, hconsole, -⟩ :=
    exists_loaded_program p hparse (separate_start echo trace inputs typed) hinputs.exists_tree
  exact ⟨p, c, m0, hp, hloaded, hfunctions, hconsole.trans hin.symm⟩

/-- A program without lambdas, reference formals and calls among the arguments of calls of its
functions is run in the scoped dialect, with any inputs. If the run ends well and compares no number
with a truth value, and if no bound name is set to a number that is too long to be written, then the
run with closures ends well too, with the same output, and it has used as many of the inputs. -/
theorem runProgram_closures_of_scoped {limit : Nat} {text typed : String} {echo trace : Bool}
    {inputs : List Tree} {m : Machine} (plain : Ast.TextHas Ast.Program.isFirstOrder text)
    (run : runProgram limit (.scoped .scoped) text (Machine.start echo trace inputs typed) =
    (.ok (), m)) (unmixed :
    ∀ a rest, Running .scoped limit text (Machine.start echo trace inputs typed) (a :: rest) →
      ¬ ComparesMixed a)
    (short : ∀ a rest, Running .scoped limit text (Machine.start echo trace inputs typed)
      (a :: rest) →
      ¬ AssignsLong a) :
    ∃ n, runProgram limit (.scoped .closures) text (Machine.start echo trace inputs typed) =
      (.ok (), n) ∧
      n.console.log = m.console.log ∧ n.console.cursor = m.console.cursor ∧
      n.console.typed = m.console.typed := by
  have hentered := run
  rw [runProgram_eq_enter] at hentered
  obtain ⟨statements, m1, hentered, -⟩ := bind_eq_ok.1 hentered
  obtain ⟨p, c, m0, hp, hloaded, hfunctions, hin⟩ := exists_loaded_of_enterMain plain hentered
  have hfirst : ∀ g ∈ c.functions, g.isFirstOrder = true := by
    rw [hfunctions]
    exact List.all_eq_true.1 hp
  obtain ⟨n, printed', hn, hsame⟩ := exists_run_closures hloaded hfirst hin
    (fun a rest h => ⟨unmixed a rest h, short a rest h⟩) run
  exact ⟨n, hn, by rw [hsame], by rw [hsame], by rw [hsame]⟩

/-- A function that adds up numbers, called for a number that depends on the input. -/
def summing : Ast.Program where
  first := ⟨.of "sum", [⟨.of "n", false⟩],
    .cons (.choice (.binary (.order .less) (.variable "n") (.int (.of 1)))
        (.last (.result (.int (.of 0)))))
      (.last (.result (.binary .add (.variable "n") (.call (.of "sum")
        (.cons (.binary .subtract (.variable "n") (.int (.of 1))) .nil)))))⟩
  rest := [⟨.of "main", [],
    .cons (.assign (.plain (.of "x")) (.int (.of 0)))
      (.cons (.choice (.binary (.order .less)
          (.call (.of "inputi") (.cons (.string (.of "n? ")) .nil)) (.int (.of 10)))
          (.last (.assign (.plain (.of "x")) (.int (.of 3)))))
        (.last (.expr (.call (.of "print")
          (.cons (.call (.of "sum") (.cons (.variable "x") .nil)) .nil)))))⟩]

theorem summing_run :
    (runProgram 1000 (.scoped .scoped) summing.text
      (Machine.start false false [.text "7"] "")).1.toOption = some () ∧
    (runProgram 1000 (.scoped .scoped) summing.text
      (Machine.start false false [.text "7"] "")).2.console.log.toList.map
        (Datum.same (.text "6")) = [false, true] ∧
    (runProgram 1000 (.scoped .scoped) summing.text
      (Machine.start false false [.text "7"] "")).2.console.cursor = 1 := by
  rw [runProgram_text]
  decide +kernel

/-- The function is called in both dialects alike, and the input is used up. -/
theorem runProgram_closures_of_scoped_summing :
    Ast.TextHas Ast.Program.isFirstOrder summing.text ∧
    ∃ m n, runProgram 1000 (.scoped .scoped) summing.text
      (Machine.start false false [.text "7"] "") = (.ok (), m) ∧
      runProgram 1000 (.scoped .closures) summing.text (Machine.start false false [.text "7"] "") =
        (.ok (), n) ∧
      n.console.log.toList.map (Datum.same (.text "6")) = [false, true] ∧ n.console.cursor = 1 := by
  have plain : Ast.TextHas Ast.Program.isFirstOrder summing.text := Ast.textHas_text (by decide)
  obtain ⟨c, m0, hl, hbase⟩ := exists_loaded_text summing false false [.text "7"] ""
  have hcompares : comparesNothing c.base = true := by
    rw [hbase]
    decide +kernel
  have hassigns : assignsLiterals c.base = true := by
    rw [hbase]
    decide +kernel
  obtain ⟨hrun, hlog⟩ := summing_run
  obtain ⟨m, run⟩ := exists_of_toOption hrun
  obtain ⟨n, hn, hlog', hcursor, -⟩ := runProgram_closures_of_scoped plain run
    (fun a rest h => not_comparesMixed hl hcompares h)
    (fun a rest h => not_assignsLong hl hassigns h)
  rw [run] at hlog
  rw [← hlog', ← hcursor] at hlog
  exact ⟨plain, m, n, run, hn, hlog.1, hlog.2⟩

/-- A variable is set to its own 64th power, which is too long to be written. -/
def powers : Ast.Program where
  first := ⟨.of "main", [],
    .cons (.assign (.plain (.of "x")) (.int (.of (10 ^ 70))))
      (.cons (.assign (.plain (.of "y")) (fourth "x"))
        (.cons (.assign (.plain (.of "z")) (fourth "y"))
          (.cons (.assign (.plain (.of "x")) (fourth "z"))
            (.last (.expr (.call (.of "print") (.cons (.string (.of "done")) .nil)))))))⟩
  rest := []
where
  square (e : Ast.Expr) : Ast.Expr := .binary .multiply e e
  fourth (x : String) : Ast.Expr := square (square (.variable x))

theorem powers_run_scoped :
    (runProgram 1000 (.scoped .scoped) powers.text (Machine.start false false [] "")).1.toOption =
      some () ∧
    (runProgram 1000 (.scoped .scoped) powers.text
      (Machine.start false false [] "")).2.console.log.toList.map (Datum.same (.text "done")) =
        [true] := by
  rw [runProgram_text]
  decide +kernel

theorem powers_path :
    (path? .closures 1000 (enterMain powers.text) (Machine.start false false [] "") 3 []).any
      fun r =>
      r.1.fuel == 999 + 1 && r.1.assigns?.any fun p =>
        p.2.2.1 == "x" && Assoc.has "x" p.1 &&
          (eval .closures 999 false p.1 p.2.2.2 r.1.machine).1.toOption.any fun v =>
            isNumber (10 ^ 4480) v (eval .closures 999 false p.1 p.2.2.2 r.1.machine).2.store := by
  rw [enterMain_text]
  decide +kernel

/-- A run that ends well in the scoped dialect, and that compares nothing, stops with closures. -/
theorem powers_stops_with_closures :
    Ast.TextHas Ast.Program.isFirstOrder powers.text ∧
    (∀ a rest, Running .scoped 1000 powers.text (Machine.start false false [] "") (a :: rest) →
      ¬ ComparesMixed a) ∧
    (∃ m, runProgram 1000 (.scoped .scoped) powers.text (Machine.start false false [] "") =
      (.ok (), m) ∧
      m.console.log.toList.map (Datum.same (.text "done")) = [true]) ∧
    ∃ n, runProgram 1000 (.scoped .closures) powers.text (Machine.start false false [] "") =
      (.error (.fault .unprintableInteger), n) := by
  obtain ⟨c, m0, hl, hbase⟩ := exists_loaded_text powers false false [] ""
  have hcompares : comparesNothing c.base = true := by
    rw [hbase]
    decide +kernel
  obtain ⟨hrun, hlog⟩ := powers_run_scoped
  obtain ⟨m, hm⟩ := exists_of_toOption hrun
  rw [hm] at hlog
  refine ⟨Ast.textHas_text (by decide), fun a rest h => not_comparesMixed hl hcompares h,
    ⟨m, hm, hlog⟩, ?_⟩
  have hpowers := powers_path
  simp only [Option.any_eq_true, Bool.and_eq_true, beq_iff_eq] at hpowers
  obtain ⟨⟨⟨_, job, m'⟩, rest⟩, hpath, rfl, ⟨scope, node, _, e⟩, hassigns, ⟨rfl, hbound⟩, v, hv,
    hnumber⟩ := hpowers
  obtain ⟨m1, value⟩ := exists_of_toOption hv
  rw [value] at hnumber
  obtain ⟨rfl, assigns⟩ := Activity.assigns_of_assigns? hassigns
  exact ⟨_, (running_of_path? hpath).runProgram_eq_error
    (exec_closures_of_long assigns hbound value (held_of_isNumber hnumber)
      (write?_pow (by decide)))⟩

end LangKit.Script.Extension
