import LangKit.Proofs.Ast.Texts
import LangKit.Proofs.Objects.Parting

/-!
# Programs without objects in the dialect with objects

A program that says nothing about objects runs in the dialect with objects as it does in the one
with closures, up to the first evaluation of a variable that is not bound: there the run stops.
Everything that is under way at some time of the run with objects is also under way in the run with
closures, in the same state, and if that run never evaluates a variable that is not bound then the
two are the same: `runProgram_objects_until_unbound`.
-/

namespace LangKit.Script.Objects

open Run Store Closures Parallel

variable {a b u : Activity} {m m1 : Machine} {row rest : List Activity}

/-! ## Single activities -/

theorem fuel_of_starts (h : Starts dialect a b) : a.fuel = b.fuel + 1 := by
  cases h <;> rfl

theorem Parted.of_starts (h : StartsBoth a b) (hb : Parted b e m) : Parted a e m := by
  obtain ⟨he, u, ⟨hchain, hu⟩, hm⟩ := hb
  exact ⟨he, u, ⟨.head h hchain, hu⟩, hm⟩

section

variable {g : Region} (ht : g.objects = false)

include ht

theorem EvaluatesUnbound.run_eq (h : EvaluatesUnbound a) (hr : Ready g a) :
    a.run .objects a.machine = (.error (.fault Fault.listIndex), a.machine) := by
  obtain ⟨hfit, -, hnode, -⟩ := hr
  cases h with
  | @lookup fuel byRef scope node x m form called unbound =>
    obtain ⟨y, hy, hplain⟩ := field_name ht hfit hnode called
    obtain rfl := Datum.text.inj hy
    have form' : IsExpression .objects m node .variable := (isExpression_iff ht hfit hnode).2 form
    have hvalue := variableValue_unbound hplain called unbound byRef
    exact bind_of_error ((eval_variable form').trans hvalue)

theorem Alike.tracks {P : Stop → Machine → Prop} (hA : Alike P a) (hr : Ready g a)
    (hb : ¬ EvaluatesUnbound a) : Tracks P a := by
  obtain ⟨fuel, job, m⟩ := a
  cases fuel with
  | zero =>
    left
    cases job <;> rfl
  | succ fuel =>
    cases job with
    | eval byRef scope node => exact tracks_eval.2 (follows_eval ht hA hr hb)
    | exec scope node => exact tracks_exec.2 (follows_exec ht hA hr)
    | call scope name args => exact tracks_call.2 (follows_call hA)

variable (hg : g.closures = true)

include hg

/-- An activity goes the same way in both dialects until it comes, in both, to a variable that is
not bound. -/
theorem Ready.tracks (hr : Ready g a) : Tracks (Parted a) a := by
  -- By induction on the fuel, which every start lowers.
  generalize hfuel : a.fuel = fuel
  induction fuel using Nat.strongRecOn generalizing a with
  | ind fuel ih =>
    by_cases hb : EvaluatesUnbound a
    · exact .stop (hb.run_eq ht hr) ⟨rfl, a, ⟨.refl, hb⟩, rfl⟩
    · refine Alike.tracks ht (fun b hstarts => ?_) hr hb
      have hless : b.fuel < fuel := by
        have := fuel_of_starts hstarts.1
        omega
      exact (ih b.fuel hless (Starts.ready hg hstarts.1 hr).1 rfl).mono
        fun e m => .of_starts hstarts

theorem Ready.alike (hr : Ready g a) : Alike (Parted a) a :=
  fun _ h => (Ready.tracks ht hg (Starts.ready hg h.1 hr).1).mono fun _ _ => .of_starts h

theorem startsBoth_of_objects (hr : Ready g a) (h : Starts .objects a b) : StartsBoth a b := by
  have hA := Ready.alike ht hg hr
  obtain ⟨hfit, hscope, hnode, -⟩ := hr
  refine ⟨?_, h⟩
  cases h with
  | left form operand => exact .left ((isExpression_iff ht hfit hnode).1 form) operand
  | right form first left operand =>
    have form' := (isExpression_iff ht hfit hnode).1 form
    exact .right form' first ((follows_left hA form' form first).ok left) operand
  | operand form operand => exact .operand ((isExpression_iff ht hfit hnode).1 form) operand
  | invoke form called given => exact .invoke ((isExpression_iff ht hfit hnode).1 form) called given
  | invokeMember form on called given =>
    exact .invokeMember ((isExpression_iff ht hfit hnode).1 form) on called given
  | assigned form called spelled right allowed =>
    exact .assigned form called spelled right (by rw [Bool.or_eq_true]; exact .inr rfl)
  | condition form asked => exact .condition form asked
  | branch form asked answer truth chosen row reached =>
    have answer' := (follows_condition hA form asked).ok answer
    have hrow := branch_follows hA form asked answer' answer truth chosen row
    exact .branch form asked answer' truth chosen row (hrow.reached reached)
  | test form rounds asked => exact .test form ((rounds_follow hA form).rounds rounds) asked
  | round form rounds go repeated row reached =>
    have rounds' := (rounds_follow hA form).rounds rounds
    have go' := ((rounds_follow hA form).tests _ rounds' rounds).ok go
    have hrow := round_follows hA form rounds' rounds go' go repeated row
    exact .round form rounds' go' repeated row (hrow.reached reached)
  | result form right given => exact .result form right given
  | perform form called given => exact .perform form called given
  | prompt known reads row => exact .prompt known reads row
  | piece known header row earlier =>
    exact .piece known header row ((follows_line hA known header row).ok earlier)
  | argument own row earlier => exact .argument own row ((follows_arguments hA own row).ok earlier)
  | pass own closures found declared parameters row earlier meant mode =>
    have found' := (follows_findCalled hA own).ok found
    have earlier' := (follows_passed hA own found' found declared parameters row).ok earlier
    exact .pass own rfl found' declared parameters row earlier' meant mode
  | @body _ _ _ _ _ _ row _ _ _ _ _ _ own entered reached announced =>
    have entered' := (follows_enterCall hA own).ok entered
    have reached' := (body_follows hA own entered' entered).reached reached
    exact .body own entered' reached' (announce_eq row _ ▸ announced)

theorem startsBoth_or_parts (hr : Ready g a) (h : Starts .closures a b) :
    StartsBoth a b ∨ ∃ u, Parts a u := by
  have hA := Ready.alike ht hg hr
  obtain ⟨hfit, hscope, hnode, -⟩ := hr
  have hparts : (∃ e m', Parted a e m') → ∃ u, Parts a u := by
    rintro ⟨e, m', -, u, hu, -⟩
    exact ⟨u, hu⟩
  suffices hstarts : Starts .objects a b ∨
    ∃ e m', Parted a e m' from hstarts.imp (fun h' => ⟨h, h'⟩) hparts
  cases h with
  | left form operand => exact .inl (.left ((isExpression_iff ht hfit hnode).2 form) operand)
  | right form first left operand =>
    have form' := (isExpression_iff ht hfit hnode).2 form
    refine ((follows_left hA form form' first).ok_or left).imp_left fun left' => ?_
    exact .right form' first left' operand
  | operand form operand => exact .inl (.operand ((isExpression_iff ht hfit hnode).2 form) operand)
  | invoke form called given =>
    exact .inl (.invoke ((isExpression_iff ht hfit hnode).2 form) called given)
  | invokeMember form on called given =>
    exact .inl (.invokeMember ((isExpression_iff ht hfit hnode).2 form) on called given)
  | assigned form called spelled right allowed =>
    obtain ⟨x, rfl, hx⟩ := field_name ht hfit hnode called
    obtain ⟨rfl, -⟩ := pure_eq_ok.1 spelled
    exact .inl (.assigned form called spelled right (allowed_of_plain hx _))
  | condition form asked => exact .inl (.condition form asked)
  | branch form asked answer truth chosen row reached =>
    rcases (follows_condition hA form asked).ok_or answer with answer' | hP
    · have hrow := branch_follows hA form asked answer answer' truth chosen row
      exact (hrow.reached_or reached).imp_left fun reached' =>
        .branch form asked answer' truth chosen row reached'
    · exact .inr hP
  | test form rounds asked =>
    exact ((rounds_follow hA form).rounds_or rounds).imp_left
      fun rounds' => .test form rounds' asked
  | round form rounds go repeated row reached =>
    rcases (rounds_follow hA form).rounds_or rounds with rounds' | hP
    · rcases ((rounds_follow hA form).tests _ rounds rounds').ok_or go with go' | hP
      · have hrow := round_follows hA form rounds rounds' go go' repeated row
        exact (hrow.reached_or reached).imp_left fun reached' => .round form rounds' go'
          repeated row reached'
      · exact .inr hP
    · exact .inr hP
  | result form right given => exact .inl (.result form right given)
  | perform form called given => exact .inl (.perform form called given)
  | prompt known reads row => exact .inl (.prompt known reads row)
  | piece known header row earlier =>
    exact ((follows_line hA known header row).ok_or earlier).imp_left fun earlier' =>
      .piece known header row earlier'
  | argument own row earlier =>
    exact ((follows_arguments hA own row).ok_or earlier).imp_left
      fun earlier' => .argument own row earlier'
  | pass own closures found declared parameters row earlier meant mode =>
    rcases (follows_findCalled hA own).ok_or found with found' | hP
    · exact ((follows_passed hA own found found' declared parameters row).ok_or earlier).imp_left
        fun earlier' => .pass own rfl found' declared parameters row earlier' meant mode
    · exact .inr hP
  | @body _ _ _ _ _ _ row _ _ _ _ _ _ own entered reached announced =>
    rcases (follows_enterCall hA own).ok_or entered with entered' | hP
    · exact ((body_follows hA own entered entered').reached_or reached).imp_left fun reached' =>
        .body own entered' reached' (announce_eq row _ ▸ announced)
    · exact .inr hP

end

/-! ## Whole runs -/

/-- The activities are under way at the same time in the runs in both dialects. -/
def RunningBoth (limit : Nat) (text : String) (m : Machine) (row : List Activity) : Prop :=
  Running .closures limit text m row ∧ Running .objects limit text m row

def RunParted (limit : Nat) (text : String) (m : Machine) (e : Stop) (m' : Machine) : Prop :=
  e = .fault Fault.listIndex ∧
    ∃ u rest, RunningBoth limit text m (u :: rest) ∧ EvaluatesUnbound u ∧ u.machine = m'

section

variable {limit : Nat} {text printed : String}

theorem RunParted.of_parts (h : RunningBoth limit text m (a :: rest)) (hu : Parts a u) :
    RunParted limit text m (.fault Fault.listIndex) u.machine := by
  obtain ⟨hchain, hu⟩ := hu
  refine ⟨rfl, u, ?_⟩
  induction hchain using Relation.ReflTransGen.head_induction_on generalizing rest with
  | refl => exact ⟨rest, h, hu, rfl⟩
  | head hstarts _ ih => exact ih ⟨.inner h.1 hstarts.1, .inner h.2 hstarts.2⟩

variable {g : Region} (ht : g.objects = false) (hg : g.closures = true)
  (hbegun : Begun (itself g m) m m) (hallows : g.AllowsText text)

include ht hg hbegun hallows

theorem main_follows (limit : Nat) (entered : enterMain text m = (.ok statements, m1)) :
    RowFollows (RunParted limit text m) (Row.main.step .closures limit)
      (Row.main.step .objects limit) statements [] m1 := by
  intro s scope m2 reached reached'
  refine follows_step fun m3 announced announced' => ?_
  have hmain : RunningBoth limit text m [⟨limit, .exec scope s, m3⟩] :=
    ⟨.main (.statement entered reached announced), .main (.statement entered reached' announced')⟩
  have hready := (Running.ready hg hbegun hallows hmain.1).1
  refine (tracks_exec.1 (Ready.tracks ht hg hready)).mono ?_
  rintro e m' ⟨rfl, u, hu, rfl⟩
  exact .of_parts hmain hu

theorem runProgram_follows :
    Follows (RunParted limit text m) m (runProgram limit (.scoped .closures) text)
      (runProgram limit (.scoped .objects) text) := by
  rw [runProgram_eq_enter, runProgram_eq_enter]
  refine .after fun statements m1 entered => ?_
  exact (main_follows ht hg hbegun hallows limit entered).block.before

theorem running_of_objects (h : Running .objects limit text m row) :
    Running .closures limit text m row := by
  induction h with
  | main starts =>
    cases starts with
    | statement entered reached announced =>
      have hrow := main_follows ht hg hbegun hallows limit entered
      exact .main (.statement entered (hrow.reached reached) (announce_eq .main _ ▸ announced))
  | inner _ starts ih =>
    have hready := (Running.ready hg hbegun hallows ih).1
    exact .inner ih (startsBoth_of_objects ht hg hready starts).1

theorem running_or_parted (h : Running .closures limit text m row) :
    RunningBoth limit text m row ∨ ∃ e m', RunParted limit text m e m' := by
  induction h with
  | main starts =>
    cases starts with
    | statement entered reached announced =>
      have hrow := main_follows ht hg hbegun hallows limit entered
      refine (hrow.reached_or reached).imp_left fun reached' => ⟨?_, ?_⟩
      · exact .main (.statement entered reached announced)
      · exact .main (.statement entered reached' (announce_eq .main _ ▸ announced))
  | inner _ starts ih =>
    rcases ih with hboth | hP
    · have hready := (Running.ready hg hbegun hallows hboth.1).1
      rcases startsBoth_or_parts ht hg hready starts with hstarts | ⟨u, hu⟩
      · exact .inl ⟨.inner hboth.1 hstarts.1, .inner hboth.2 hstarts.2⟩
      · exact .inr ⟨_, _, .of_parts hboth hu⟩
    · exact .inr hP

end

/-- A program that says nothing about objects runs in the dialect with objects as in the one with
closures if that run never evaluates a variable that is not bound. If it does then the run with
objects comes to such an evaluation in the same state, and stops there: it evaluates no such
variable in another state, and what has been put out and printed so far is the beginning of what the
run with closures puts out and prints. In either case everything that is under way in the run with
objects is, at the same time and in the same state, under way in the run with closures. -/
theorem runProgram_objects_until_unbound {limit : Nat} {text typed : String} {echo trace : Bool}
    {inputs : List Tree} (free : Ast.TextHas Ast.Program.isObjectFree text) :
    ((¬ ∃ a rest, Running .closures limit text (Machine.start echo trace inputs typed) (a :: rest) ∧
        EvaluatesUnbound a) →
      runProgram limit (.scoped .objects) text (Machine.start echo trace inputs typed) =
        runProgram limit (.scoped .closures) text (Machine.start echo trace inputs typed)) ∧
    ((∃ a rest, Running .closures limit text (Machine.start echo trace inputs typed) (a :: rest) ∧
        EvaluatesUnbound a) →
      ∃ a rest, RunningBoth limit text (Machine.start echo trace inputs typed) (a :: rest) ∧
        EvaluatesUnbound a ∧
        runProgram limit (.scoped .objects) text (Machine.start echo trace inputs typed) =
          (.error (.fault (.outOfRange "list index out of range")), a.machine) ∧
        (∀ b rest', Running .objects limit text (Machine.start echo trace inputs typed)
          (b :: rest') →
          EvaluatesUnbound b → b.machine = a.machine) ∧
        a.machine.console.Before
          (runProgram limit (.scoped .closures) text
            (Machine.start echo trace inputs typed)).2.console) ∧
    ∀ row, Running .objects limit text (Machine.start echo trace inputs typed) row →
      Running .closures limit text (Machine.start echo trace inputs typed) row := by
  generalize hstart : Machine.start echo trace inputs typed = start
  have hformed : start.store.Formed := (hstart ▸ separate_start echo trace inputs typed :
    start.store.Separate).formed
  let g : Region := ⟨start.store.size, start.store.tables.size, true, false⟩
  have hbegun : Begun (itself g start) start start := ⟨rfl, rfl, hformed, rfl, .refl _⟩
  have hallows : g.AllowsText text := by
    intro tree printed hparse
    obtain ⟨p, rfl, hfree⟩ := free tree printed hparse
    exact ⟨p, rfl, fun _ => hfree⟩
  refine ⟨fun hnone => ?_, ?_, fun row => running_of_objects rfl rfl hbegun hallows⟩
  · rcases runProgram_follows rfl rfl hbegun hallows with heq | ⟨e, m', -, -, u, rest, hboth, hu, -⟩
    · exact heq.symm
    · exact absurd ⟨u, rest, hboth.1, hu⟩ hnone
  · rintro ⟨c, rest, running, hc⟩
    have hstops : ∀ b rest', Running .objects limit text start (b :: rest') → EvaluatesUnbound b →
        runProgram limit (.scoped .objects) text start = (.error (.fault Fault.listIndex),
          b.machine) := by
      intro b rest' hb hunbound
      have hb' := running_of_objects rfl rfl hbegun hallows hb
      exact hb.runProgram_eq_error (hunbound.run_eq rfl (Running.ready rfl hbegun hallows hb').1)
    have hparted : ∃ e m', RunParted limit text start e m' := by
      rcases running_or_parted rfl rfl hbegun hallows running with hboth | hparted
      · exact ⟨_, _, rfl, c, rest, hboth, hc, rfl⟩
      · exact hparted
    obtain ⟨e, m', -, u, rest', hboth, hu, -⟩ := hparted
    refine ⟨u, rest', hboth, hu, hstops u rest' hboth.2 hu,
      fun b rest'' hb hunbound => ?_, hboth.1.before⟩
    have hsame := (hstops b rest'' hb hunbound).symm.trans (hstops u rest' hboth.2 hu)
    exact (Prod.mk.inj hsame).2

/-- A function is used as the value of a variable that is not bound. -/
def borrowed : Ast.Program where
  first := ⟨.of "f", [], .last (.result (.int (.of 1)))⟩
  rest := [⟨.of "main", [],
    .cons (.expr (.call (.of "print") (.cons (.int (.of 2)) .nil)))
      (.cons (.assign (.plain (.of "g")) (.variable "f"))
        (.last (.expr (.call (.of "print") (.cons (.int (.of 3)) .nil)))))⟩]

/-- The function is found where there are no objects, and the run goes on behind it. Where there are
objects it stops. -/
theorem runProgram_objects_until_unbound_borrowed :
    Ast.TextHas Ast.Program.isObjectFree borrowed.text ∧
    (∃ a rest, Running .closures 1000 borrowed.text (Machine.start false false [] "") (a :: rest) ∧
      EvaluatesUnbound a) ∧
    (runProgram 1000 (.scoped .closures) borrowed.text
      (Machine.start false false [] "")).1.toOption = some () ∧
    ∃ m, runProgram 1000 (.scoped .objects) borrowed.text (Machine.start false false [] "") =
      (.error (.fault (.outOfRange "list index out of range")), m) := by
  have free : Ast.TextHas Ast.Program.isObjectFree borrowed.text := Ast.textHas_text (by decide)
  have hunbound : ∃ a rest, Running .closures 1000 borrowed.text (Machine.start false false [] "")
    (a :: rest) ∧
      EvaluatesUnbound a := by
    have hrun : (path? .closures 1000 (enterMain borrowed.text) (Machine.start false false [] "") 1
      []).any fun r =>
        r.1.fuel == 999 + 1 && r.1.assigns?.any fun p =>
          decide (p.2.2.1 = "g" ∧ (kindOf p.2.2.2 r.1.machine).1.toOption = some "var") &&
            !Assoc.has "f" p.1 && (field p.2.2.2 "name" r.1.machine).1.toOption.any
              (Datum.same · (.text "f")) := by
      decide +kernel
    simp only [Option.any_eq_true, Bool.and_eq_true, decide_eq_true_eq, beq_iff_eq,
      Bool.not_eq_true', Assoc.has, Option.isSome_eq_false_iff, Option.isNone_iff_eq_none] at hrun
    obtain ⟨⟨⟨_, job, m⟩, rest⟩, hpath, rfl, ⟨scope, node, _, e⟩, hassigns, ⟨⟨rfl, hkind⟩, hnone⟩,
      used, hused, hsame⟩ := hrun
    obtain ⟨rfl, ⟨form, ⟨name, called, spelled⟩, right⟩⟩ := Activity.assigns_of_assigns? hassigns
    obtain rfl := eq_text_of_same hsame
    have allowed := @allowed_of_plain scope "g" (by decide) .closures
    exact ⟨_, _, .inner (running_of_path? hpath) (.assigned form called spelled right allowed),
      .lookup ⟨"var", (observes_kindOf e).of_toOption hkind,
        rfl⟩ ((observes_field e _).of_toOption hused) hnone⟩
  obtain ⟨-, hstops, -⟩ :=
    @runProgram_objects_until_unbound 1000 borrowed.text "" false false [] free
  obtain ⟨a, rest, -, -, hrun, -, -⟩ := hstops hunbound
  exact ⟨free, hunbound, by decide +kernel, a.machine, hrun⟩

end LangKit.Script.Objects
