import LangKit.Proofs.Scoping.Agreement

/-!
# The mark of an assigned nil

No step of the plain semantics takes back that nil was assigned to a bound name: `latches_all`. Only
`assign` touches the mark, and all else is put together from steps that keep it.
-/

namespace LangKit.Script.Stacked

open Ast

section

variable {α : Type}

@[simp] theorem latches_fail (f : Fault) : Latches (fail f : Act α) :=
  latches_throw _

@[simp] theorem latches_lift (r : Except Fault α) : Latches (lift r) := by
  cases r with
  | ok a => exact latches_pure a
  | error f => exact latches_fail f

@[simp] theorem latches_onConsole (f : Console → α × Console) : Latches (onConsole f) :=
  fun _ h => h

@[simp] theorem latches_report (kind : ErrorKind) (text : String) :
    Latches (report kind text : Act α) :=
  latches_bind (latches_onConsole _) fun f => latches_fail f

@[simp] theorem latches_inFrame {frame : List (String × Value)} {body : Act α} (h : Latches body) :
    Latches (inFrame frame body) :=
  latches_bind (fun _ hw => hw) fun _ => latches_bind h fun a =>
    latches_bind (fun _ hw => hw) fun _ => latches_pure a

end

@[simp] theorem latches_assign (x : String) (v : Value) : Latches (assign x v) := by
  intro w hw
  change (w.assign x v).nilAssigned = true
  unfold World.assign
  split
  · simp [hw]
  · exact hw

@[simp] theorem latches_variableValue (x : String) : Latches (variableValue x) := by
  refine latches_bind (fun _ hw => hw) fun w => ?_
  split <;> simp

@[simp] theorem latches_contents (v : Value) : Latches (contents v) := by
  unfold contents
  split <;> simp

@[simp] theorem latches_applyBinary (op : BinaryOp) (a b : Value) :
    Latches (applyBinary op a b) := by
  unfold applyBinary
  split
  case h_5 => split <;> simp
  all_goals simp [misfit]

@[simp] theorem latches_applyUnary (op : UnaryOp) (a : Value) : Latches (applyUnary op a) := by
  unfold applyUnary
  split <;> simp [misfit]

@[simp] theorem latches_conditionTruth (title : String) (v : Value) :
    Latches (conditionTruth title v) := by
  unfold conditionTruth
  split <;> simp

@[simp] theorem latches_input : Latches input := by
  simp [input]

@[simp] theorem latches_outputPiece (v : Value) : Latches (outputPiece v) := by
  cases v <;> simp [outputPiece]

@[simp] theorem latches_output (host : Store) (d : Datum) : Latches (output host d) := by
  simp [output]

section

variable {eval : Expr → Act Value} (heval : ∀ e, Latches (eval e))

include heval

theorem latches_outputLine (args : Args) (line : String) : Latches (outputLine eval args line) := by
  cases args with
  | nil => exact latches_pure line
  | cons e rest =>
    exact latches_bind (heval e) fun v => latches_bind (latches_outputPiece v) fun piece =>
      latches_outputLine rest (line ++ piece)

theorem latches_promptWith (host : Store) (title : String) (args : Args) :
    Latches (promptWith host title eval args) := by
  match args with
  | .nil => exact latches_pure ()
  | .cons e .nil =>
    exact latches_bind (heval e) fun v => latches_bind (latches_contents v) fun d =>
      latches_output host d
  | .cons _ (.cons _ _) => exact latches_report _ _

theorem latches_callBuiltin (host : Store) (args : Args) (builtin : Builtin) :
    Latches (callBuiltin host eval args builtin) := by
  cases builtin with
  | readInt | readText =>
    refine latches_bind (latches_promptWith heval host _ args) fun _ => ?_
    exact latches_bind latches_input fun d => latches_bind (latches_lift _) fun _ => latches_pure _
  | print => simp [callBuiltin, latches_outputLine heval]

theorem latches_evalAll (args : Args) : Latches (evalAll eval args) := by
  cases args with
  | nil => exact latches_pure []
  | cons e rest =>
    exact latches_bind (heval e) fun v => latches_bind (latches_evalAll rest)
      fun vs => latches_pure _

end

theorem latches_runBlock {exec : Stmt → Act (Option Value)} (h : ∀ s, Latches (exec s))
    (b : Block) :
    Latches (runBlock exec b) := by
  cases b with
  | last s => exact h s
  | cons s rest =>
    refine latches_bind (h s) fun result => ?_
    cases result with
    | none => exact latches_runBlock h rest
    | some v => exact latches_pure _

theorem latches_repeatWhile {body : Act (Option Value)} (ht : Latches test)
    (hb : Latches body) (fuel : Nat) : Latches (repeatWhile test body fuel) := by
  induction fuel with
  | zero => exact latches_throw _
  | succ fuel ih =>
    refine latches_bind ht fun go => ?_
    cases go with
    | false => exact latches_pure _
    | true =>
      refine latches_bind hb fun result => ?_
      cases result with
      | none => exact ih
      | some v => exact latches_pure _

section

variable (functions : List Function) (host : Store)

theorem latches_all (fuel : Nat) :
    (∀ e, Latches (eval functions host fuel e)) ∧ (∀ s, Latches (exec functions host fuel s)) ∧
      ∀ f args, Latches (call functions host fuel f args) := by
  induction fuel with
  | zero => exact ⟨fun _ => latches_throw _, fun _ => latches_throw _, fun _ _ => latches_throw _⟩
  | succ fuel ih =>
    obtain ⟨heval, hexec, hcall⟩ := ih
    have hblock := latches_runBlock hexec
    refine ⟨fun e => ?_, fun s => ?_, fun f args => ?_⟩
    · cases e <;> simp [eval, heval, hcall]
    · cases s with
      | expr e => cases e <;> simp [exec, hcall]
      | loop condition body =>
        refine latches_repeatWhile ?_ (latches_inFrame (hblock body)) fuel
        simp [heval]
      | choice condition body | choiceElse condition body other =>
        refine latches_bind (heval condition) fun v => latches_bind (latches_conditionTruth "if" v)
          fun go => ?_
        cases go <;> simp [hblock]
      | _ => simp [exec, heval]
    · unfold call
      split
      · exact latches_callBuiltin heval host args _
      · refine latches_bind (latches_evalAll heval args) fun values => ?_
        split
        · exact latches_inFrame (hblock _)
        · exact latches_report _ _

end

end LangKit.Script.Stacked
