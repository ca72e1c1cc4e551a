import LangKit.Proofs.Execution.Composition

/-!
# Properties of whole runs

A property that passes from the steps of a run to the evaluators passes to whole runs if it also
holds of the steps that a run makes around the evaluators: printing what the parser has to say,
loading the program, and keeping functions and variables in the state (`InheritsWhole`). So it holds
of a run in every version, the straight-line dialect among them: `InheritsWhole.runProgram`.
-/

namespace LangKit.Script

open Run

variable {name node v : Datum} {ds : List Datum} {text : String}

set_option synthInstance.maxSize 1000000

/-- A property of the steps on the state that passes from parts to the whole, also where functions
and variables are kept. -/
class InheritsWhole (P : ∀ {α : Type}, Run α → Prop) : Prop extends Inherits P where
  keep : ∀ {α : Type} {x : Run α}, (∀ m, (x m).2.store = m.store ∧ (x m).2.console = m.console) →
    P x
  said : ∀ text : String, Has P (onConsole fun _ c => ((), { c with printed := c.printed ++ text }))
  load : ∀ tree : Tree, Has P (onStore fun s => s.load tree)

attribute [instance] InheritsWhole.said InheritsWhole.load

/-! ## Properties of the console -/

theorem Console.print_eq (c : Console) (line : String) :
    c.print line = { c with printed := c.printed ++ (line ++ "\n") } := by
  simp [Console.print, String.push_eq_append, String.append_assoc]

theorem input_machine (m : Machine) : (input m).2 = { m with console := m.console.input.2 } := by
  rw [input_apply]

theorem output_machine (d : Datum) (m : Machine) :
    (output d m).2 = { m with console := (m.console.output m.store d).2 } := by
  rw [output_apply]

theorem inherits_of_console {R : Console → Console → Prop} (refl : ∀ c, R c c)
    (trans : ∀ {c1 c2 c3}, R c1 c2 → R c2 c3 → R c1 c3)
    (printed : ∀ c text, R c { c with printed := c.printed ++ text })
    (report : ∀ c kind text line, R c (c.report kind text line).2) (input : ∀ c, R c c.input.2)
    (output : ∀ c s d, R c (c.output s d).2) :
    InheritsWhole fun x => ∀ m : Machine, R m.console (x m).2.console := by
  have hfree : InheritsFreely fun x => ∀ m : Machine, R m.console (x m).2.console :=
    { look := fun hx m => by
        rw [hx m]
        exact refl _
      bind := fun hx hf m => bind_machine (hx m) fun a m1 _ h1 => trans h1 (hf a m1)
      onStore := fun _ => ⟨fun m => refl _⟩
      report := fun kind text => ⟨fun m => report _ kind (some text) none⟩ }
  have hprint : ∀ (m : Machine) line, R m.console (m.console.print line) := fun m line => by
    rw [Console.print_eq]
    exact printed _ _
  have hall := hfree.inherits (fun line => ⟨fun m => hprint m line⟩)
    ⟨fun m => by rw [input_machine]; exact input _⟩
      fun d => ⟨fun m => by rw [output_machine]; exact output _ _ _⟩
  exact
    { hall with
      keep := fun hx m => by
        rw [(hx m).2]
        exact refl _
      said := fun text => ⟨fun m => printed _ _⟩
      load := fun tree => ⟨fun m => refl _⟩ }

theorem runProgram_straightLine_eq (limit : Nat) (text : String) :
    runProgram limit .straightLine text = enterMain text >>= StraightLine.execAll limit :=
  rfl

/-! ## The straight-line dialect -/

section

variable {P : ∀ {α : Type}, Run α → Prop} [Prints P]

instance (scope : Scope) : Has P (StraightLine.traceVariables scope) := by
  induction scope <;> unfold StraightLine.traceVariables <;> infer_instance

instance : Has Observes StraightLine.globals :=
  ⟨fun _ => rfl⟩

instance (title : String) : Has P (StraightLine.trace title) := by
  unfold StraightLine.trace
  infer_instance

end

section

variable {P : ∀ {α : Type}, Run α → Prop} [Inherits P] {args w : Datum} {fuel : Nat}

instance (op : BinaryOp) : Has P (StraightLine.refuseTexts op v w) := by
  unfold StraightLine.refuseTexts
  infer_instance

instance : Has P (StraightLine.add v w) := by
  unfold StraightLine.add
  infer_instance

instance : Has P (StraightLine.subtract v w) := by
  unfold StraightLine.subtract
  infer_instance

instance : Has P (StraightLine.variableValue node) := by
  refine Has.bind fun name => Has.bind fun scope => ?_
  split <;> infer_instance

section

variable {ev : Datum → Run Datum} [∀ arg, Has P (ev arg)]

instance : Has P (StraightLine.outputLine ev ds text) := by
  induction ds generalizing text with
  | nil => exact inferInstanceAs (Has P (pure text))
  | cons arg rest ih => exact Has.bind fun v => by cases v <;> infer_instance

instance : Has P (StraightLine.printHeader args) := by
  unfold StraightLine.printHeader
  infer_instance

instance : Has P (StraightLine.callWith ev name args) := by
  unfold StraightLine.callWith
  split <;> infer_instance

end

theorem Inherits.straightEvaluators (P : ∀ {α : Type}, Run α → Prop) [Inherits P] (fuel : Nat) :
    (∀ node, Has P (StraightLine.eval fuel node)) ∧
      ∀ name args, Has P (StraightLine.call fuel name args) := by
  induction fuel with
  | zero =>
    exact ⟨fun _ => inferInstanceAs (Has P (throw _)), fun _ _ => inferInstanceAs (Has P (throw _))⟩
  | succ fuel ih =>
    obtain ⟨heval, hcall⟩ := ih
    refine ⟨fun node => ?_, fun name args => inferInstanceAs (Has P (StraightLine.callWith _ _ _))⟩
    unfold StraightLine.eval
    infer_instance

instance : Has P (StraightLine.eval fuel node) :=
  (Inherits.straightEvaluators P fuel).1 node

instance : Has P (StraightLine.call fuel name args) :=
  (Inherits.straightEvaluators P fuel).2 name args

end

section

variable {P : ∀ {α : Type}, Run α → Prop} [InheritsWhole P] {fuel : Nat}

instance (name : String) : Has P (StraightLine.assign name v) :=
  ⟨InheritsWhole.keep fun _ => ⟨rfl, rfl⟩⟩

instance (kind : String) : Has P (StraightLine.perform fuel node kind) := by
  unfold StraightLine.perform
  infer_instance

instance : Has P (StraightLine.execAll fuel ds) := by
  have hexec : ∀ node, Has P (StraightLine.exec fuel node) := by
    intro node
    cases fuel with
    | zero => exact inferInstanceAs (Has P (throw _))
    | succ fuel =>
      rw [StraightLine.exec]
      infer_instance
  induction ds <;> unfold StraightLine.execAll <;> infer_instance

/-! ## Runs -/

instance : Has P (loadProgram text) := by
  have hread (after : Reader → Reader) :
      Has P (modify fun m => { m with reader := after m.reader } : Run PUnit) :=
    ⟨InheritsWhole.keep fun _ => ⟨rfl, rfl⟩⟩
  have := hread fun r => r.after text
  rw [loadProgram_eq]
  infer_instance

instance : Has Observes (findMain ds) := by
  induction ds <;> unfold findMain <;> infer_instance

instance : Has P (enterMain text) := by
  have hkeep : ∀ fs, Has P
      (modify fun m => ⟨m.store, m.console, fs, [], m.contexts, m.reader⟩ : Run PUnit) :=
    fun fs => ⟨InheritsWhole.keep fun _ => ⟨rfl, rfl⟩⟩
  have hmain : ∀ main : Datum, Has P (match main with
      | .null => report .name "No main() function was found"
      | main => do items (← field main "statements")) :=
    fun main => by cases main <;> infer_instance
  unfold enterMain enterLoaded traceMain
  infer_instance

end

theorem InheritsWhole.runProgram {P : ∀ {α : Type}, Run α → Prop} (h : InheritsWhole P)
    (limit : Nat) (version : Version) (text : String) : P (runProgram limit version text) := by
  suffices hrun : Has P (Script.runProgram limit version text) from hrun.holds
  rcases version with _ | _ | dialect
  · exact inferInstanceAs (Has P (pure ()))
  · rw [runProgram_straightLine_eq]
    infer_instance
  · rw [runProgram_eq_enter]
    infer_instance

/-! ## What is under way -/

/-- A step leaves what holds of the state. -/
def Preserves (I : Machine → Prop) {α : Type} (x : Run α) : Prop :=
  ∀ m, I m → I (x m).2

section

variable {I : Machine → Prop} {α : Type} {x : Run α} {m m' : Machine}

instance : Composes (Preserves I) where
  look hx m hm := by rwa [hx m]
  bind hx hf m hm := bind_machine (hx m hm) fun a m1 _ h1 => hf a m1 h1

/-- What does not depend on the store and the console is left by every step that changes only
these. -/
theorem inherits_preserves (h : ∀ m store console, I m → I { m with store, console }) :
    Inherits (Preserves I) :=
  have : InheritsFreely (Preserves I) :=
    { onStore := fun _ => ⟨fun m hm => h m _ _ hm⟩, report := fun _ _ => ⟨fun m hm => h m _ _ hm⟩ }
  InheritsFreely.inherits (fun _ => ⟨fun m hm => h m _ _ hm⟩)
    ⟨fun m hm => by rw [input_machine]; exact h m _ _ hm⟩
      fun d => ⟨fun m hm => by rw [output_machine]; exact h m _ _ hm⟩

theorem Has.preserved [h : Has (Preserves I) x] (hm : I m) (hx : x m = (r, m')) : I m' := by
  have hI := h.holds m hm
  rwa [hx] at hI

theorem Rounds.preserved {body : Run Datum} [Has (Preserves I) test] [Has (Preserves I) body]
    (h : Rounds test body fuel m m') (hm : I m) : I m' := by
  induction h with
  | first => exact hm
  | next go round _ ih => exact ih (Has.preserved (Has.preserved hm go) round)

variable [InheritsWhole (Preserves I)]

theorem Reached.preserved {step : Datum → Scope → Run (Scope × Datum)}
    [∀ s scope, Has (Preserves I) (step s scope)] {scope scope' : Scope}
    (hr : Reached step statements scope m s scope' m') (hm : I m) : I m' := by
  obtain ⟨before, after, -, hbefore⟩ := hr
  exact Has.preserved hm hbefore

theorem Starts.preserved (h : Starts dialect a b) (ha : I a.machine) :
    I b.machine := by
  cases h with
  | right _ _ left => exact Has.preserved ha left
  | branch _ _ answer truth _ _ reached =>
    exact reached.preserved (Has.preserved (Has.preserved ha answer) truth)
  | test _ rounds => exact rounds.preserved ha
  | round _ rounds go _ _ reached =>
    exact reached.preserved (Has.preserved (rounds.preserved ha) go)
  | piece _ header _ earlier => exact Has.preserved (Has.preserved ha header) earlier
  | argument _ _ earlier => exact Has.preserved ha earlier
  | pass _ _ found _ _ _ earlier => exact Has.preserved (Has.preserved ha found) earlier
  | body _ entered reached announced =>
    exact Has.preserved (reached.preserved (Has.preserved ha entered)) announced
  | _ => exact ha

/-- What the steps leave holds whenever something begins in the run of a program, if it held
before. -/
theorem Running.preserved {text : String}
    (h : Running dialect limit text m activities) (hm : I m) : ∀ a ∈ activities, I a.machine := by
  induction h with
  | main starts =>
    cases starts with
    | statement entered reached announced =>
      intro a ha
      obtain rfl := List.mem_singleton.1 ha
      exact Has.preserved (reached.preserved (Has.preserved hm entered)) announced
  | @inner a b rest _ starts ih =>
    intro c hc
    rcases List.mem_cons.1 hc with rfl | hc
    · exact starts.preserved (ih a List.mem_cons_self)
    · exact ih c hc

end

end LangKit.Script
