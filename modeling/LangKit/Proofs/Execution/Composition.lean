import LangKit.Proofs.Execution.Forms

/-!
# Properties of all steps

Some properties of steps pass from parts to the whole: if looking at the state, the few ways to
change the store and the steps on the console have the property, and one step after another has it
when both do, then every step of a run has it. `Inherits` says this of a property, and
`Inherits.evaluators` draws the conclusion for the three evaluators. Operators and variables only
add nodes and report errors, so less has to be known of a property that they are to have
(`InheritsQuietly`). Often a property does not depend on how the store is changed at all
(`InheritsFreely`).

That a step has a property is a class (`Has`), so it is found from the way the step is put together.
-/

namespace LangKit.Script

open Run

variable {β α : Type} {name value : Datum} {values fs : List Datum}
  {scope : Scope} {dialect : Dialect} {byRef : Bool} {fuel : Nat}

set_option synthInstance.maxSize 1000000

class Has (P : ∀ {α : Type}, Run α → Prop) {α : Type} (x : Run α) : Prop where
  holds : P x

/-- A property that passes from parts to the whole and that every step has that only looks. -/
class Composes (P : ∀ {α : Type}, Run α → Prop) : Prop where
  look : ∀ {α : Type} {x : Run α}, Observes x → P x
  bind : ∀ {α β : Type} {x : Run α} {f : α → Run β}, P x → (∀ a, P (f a)) → P (x >>= f)

section

variable {P : ∀ {α : Type}, Run α → Prop} {x y : Run α} {f : α → Run β}

theorem Has.bind [Composes P] [hx : Has P x] (hf : ∀ a, Has P (f a)) : Has P (x >>= f) :=
  ⟨Composes.bind hx.holds fun a => (hf a).holds⟩

instance [Composes P] [Has P x] [hf : ∀ a, Has P (f a)] : Has P (x >>= f) :=
  Has.bind hf

instance (priority := low) [Composes P] [hx : Has Observes x] : Has P x :=
  ⟨Composes.look hx.holds⟩

instance {p : Prop} [Decidable p] [hx : Has P x] [hy : Has P y] : Has P (if p then x else y) := by
  split
  · exact hx
  · exact hy

end

/-! ## Steps that only look -/

section

variable {f d : Datum} {formals : List Datum}

instance : Composes Observes :=
  ⟨id, Observes.bind⟩

theorem Has.eq [h : Has Observes x] (hx : x m = (r, m')) : m = m' :=
  h.holds.eq hx

theorem look_eq_ok {f : α → Run β} [Has Observes x]
    (h : (x >>= f) m = (.ok b, m')) : ∃ a, x m = (.ok a, m) ∧ f a m = (.ok b, m') := by
  obtain ⟨a, m1, hx, hf⟩ := bind_eq_ok.1 h
  obtain rfl := Has.eq hx
  exact ⟨a, hx, hf⟩

instance (a : α) : Has Observes (pure a : Run α) :=
  ⟨observes_pure a⟩

instance (e : Stop) : Has Observes (throw e : Run α) :=
  ⟨fun _ => rfl⟩

instance (e : Fault) : Has Observes (fail e : Run α) :=
  ⟨fun _ => rfl⟩

instance (r : Except Fault α) : Has Observes (lift r) :=
  ⟨observes_lift r⟩

instance : Has Observes (kindOf d) :=
  ⟨observes_kindOf d⟩

instance : Has Observes (textOf d) :=
  ⟨observes_textOf d⟩

instance (name : String) : Has Observes (field? d name) :=
  ⟨observes_field? d name⟩

instance (name : String) : Has Observes (field d name) :=
  ⟨observes_field d name⟩

instance : Has Observes (contents d) :=
  ⟨observes_field d "val"⟩

instance : Has Observes (items d) :=
  ⟨observes_items d⟩

instance : Has Observes (size d) :=
  ⟨observes_size d⟩

instance : Has Observes (nameText d) :=
  ⟨observes_nameText d⟩

instance : Has Observes (showScope scope) :=
  ⟨observes_lift _⟩

instance : Has Observes functions :=
  ⟨fun _ => rfl⟩

instance : Has Observes tracing :=
  ⟨fun _ => rfl⟩

instance : Has Observes store :=
  ⟨fun _ => rfl⟩

instance : Has Observes (capturedEntries d) := by
  cases d <;> exact ⟨fun _ => rfl⟩

instance : Has Observes (fieldNode d) := by
  cases d <;> exact ⟨fun _ => rfl⟩

instance : Has Observes (kindNode d) := by
  cases d <;> exact ⟨fun _ => rfl⟩

instance : Has Observes (formalNames formals) := by
  induction formals <;> unfold formalNames <;> infer_instance

instance (dialect : Dialect) (copies : Scope) :
    Has Observes (captured dialect formals scope copies) := by
  induction copies <;> unfold captured <;> infer_instance

instance : Has Observes (bindFormals scope formals values) := by
  induction formals generalizing scope values with
  | nil => exact inferInstanceAs (Has Observes (pure scope))
  | cons f rest ih =>
    cases values with
    | nil => exact inferInstanceAs (Has Observes (fail _))
    | cons => rw [bindFormals_cons]; infer_instance

instance (arity : Nat) : Has Observes (findCallee name arity fs) := by
  induction fs <;> unfold findCallee <;> infer_instance

instance (entries : List (Datum × Datum)) : Has Observes (bindCaptured scope entries) := by
  induction entries generalizing scope with
  | nil => exact inferInstanceAs (Has Observes (pure scope))
  | cons e rest ih =>
    obtain ⟨name, value⟩ := e
    cases value with
    | null => exact ih
    | _ => exact Has.bind (x := nameText name) fun x => ih

/-- Once the values of the arguments are there, nothing more happens before the body. -/
instance (named : Bool) : Has Observes (enterBody scope name f named values) := by
  unfold enterBody
  infer_instance

/-- The node that an assignment changes is found without looking at kinds. -/
class Finds (target : Run Datum) : Prop extends Has Observes target where
  stable : ∀ m ref kind, (target { m with store := m.store.setKind ref kind }).1 = (target m).1

instance (name : String) : Finds (bound scope name) := by
  unfold bound
  split <;> exact ⟨fun _ _ _ => rfl⟩

instance (name : String) : Finds (boundMember scope name) := by
  unfold boundMember
  split
  · rename_i object member _ _
    refine ⟨fun m ref kind => ?_⟩
    rw [bound]
    split
    · rename_i v _
      cases v with
      | node r =>
        have hfield : (m.store.setKind ref kind).field? r member = m.store.field? r member := by
          rw [Store.field?, Store.fields_setKind, Store.field?]
        rw [bind_of_ok (pure_apply _ _), bind_of_ok (pure_apply _ _), field_node,
          field_node, hfield]
      | _ => rfl
    · rfl
  · exact ⟨fun _ _ _ => rfl⟩

end

/-! ## Properties that pass from parts to the whole -/

/-- A property of the steps that add nodes, and of reports, that passes from parts to the whole. A
sum and a lambda change a node that they have just made. -/
class InheritsQuietly (P : ∀ {α : Type}, Run α → Prop) : Prop extends Composes P where
  report : ∀ {α : Type} kind text, Has P (report kind text : Run α)
  make : ∀ kind fields, Has P (make kind fields)
  copy : ∀ d, Has P (copy d)
  amend : ∀ f a b, Has P (amend f a b)
  lambdaValue : ∀ dialect scope node, Has P (lambdaValue dialect scope node)

/-- A property of all that is printed that passes from parts to the whole. -/
class Prints (P : ∀ {α : Type}, Run α → Prop) : Prop extends Composes P where
  print : ∀ line, Has P (print line)

/-- A property of the steps on the state that passes from parts to the whole. -/
class Inherits (P : ∀ {α : Type}, Run α → Prop) : Prop extends InheritsQuietly P, Prints P where
  input : Has P input
  output : ∀ d, Has P (output d)
  overwrite : ∀ dialect target value [Finds target], Has P (overwrite dialect target value)

/-- A property that passes from parts to the whole and that every change of the store has. -/
class InheritsFreely (P : ∀ {α : Type}, Run α → Prop) : Prop extends Composes P where
  onStore : ∀ {α : Type} (f : Store → α × Store), Has P (onStore f)
  report : ∀ {α : Type} kind text, Has P (report kind text : Run α)

attribute [instance] InheritsQuietly.report InheritsQuietly.make InheritsQuietly.copy
  InheritsQuietly.amend InheritsQuietly.lambdaValue Prints.print Inherits.input Inherits.output
    Inherits.overwrite InheritsFreely.onStore

section

variable {P : ∀ {α : Type}, Run α → Prop}

instance [InheritsFreely P] (d : Datum) (name : String) (value : Datum) :
    Has P (setField d name value) := by
  unfold setField
  infer_instance

instance [InheritsFreely P] : InheritsQuietly P where
  report := InheritsFreely.report
  make _ _ := InheritsFreely.onStore _
  copy _ := InheritsFreely.onStore _
  amend _ _ _ := by
    have hcopy : ∀ d, Has P (copy d) := fun d => InheritsFreely.onStore _
    unfold amend
    infer_instance
  lambdaValue _ _ _ := by
    have hcopy : ∀ d, Has P (copy d) := fun d => InheritsFreely.onStore _
    unfold lambdaValue
    infer_instance

theorem InheritsFreely.inherits [InheritsFreely P] (print : ∀ line, Has P (print line))
    (input : Has P input) (output : ∀ d, Has P (output d)) : Inherits P where
  print := print
  input := input
  output := output
  overwrite _ _ _ := by
    unfold overwrite setKind shareTable
    infer_instance

end

section

variable {P : ∀ {α : Type}, Run α → Prop} [InheritsQuietly P] {title : String} {kinds : List String}
  {op : BinaryOp} {node object a b : Datum} {found : Option Datum}

/-! ## Operators -/

instance {α : Type} : Has P (misfit title : Run α) :=
  InheritsQuietly.report _ _

instance (truth : Bool) : Has P (makeBool truth) :=
  InheritsQuietly.make _ _

instance (n : Int) : Has P (makeInt n) :=
  InheritsQuietly.make _ _

instance : Has P makeNil :=
  InheritsQuietly.make _ _

instance : Has P (require1 title kinds a) := by
  unfold require1
  infer_instance

instance : Has P (require2 title kinds a b) := by
  unfold require2
  infer_instance

instance (f : Datum → Datum → Except Fault Datum) : Has P (arithmetic dialect op f a b) := by
  unfold arithmetic
  infer_instance

instance : Has P (equality dialect a b) := by
  unfold equality
  infer_instance

instance (decides : Bool) : Has P (connective dialect op decides a b) := by
  unfold connective
  infer_instance

instance : Has P (applyBinary dialect op a b) := by
  cases op <;> unfold applyBinary <;> first | infer_instance | unfold bothTexts; infer_instance

instance (op : UnaryOp) : Has P (applyUnary dialect op a) := by
  cases op <;> unfold applyUnary <;> infer_instance

instance : Has P (conditionTruth dialect title value) := by
  unfold conditionTruth
  infer_instance

/-! ## Variables and lambdas -/

instance : Has P (deliver dialect byRef value) := by
  unfold deliver
  infer_instance

instance : Has P (findFunction name fs found) := by
  induction fs generalizing found with
  | nil => exact inferInstanceAs (Has P (pure found))
  | cons f rest ih => cases found <;> unfold findFunction <;> infer_instance

instance (member : String) (fuel : Nat) : Has P (prototypeMember byRef member fuel object) := by
  induction fuel generalizing object with
  | zero => cases object <;> unfold prototypeMember <;> infer_instance
  | succ fuel ih =>
    cases object <;> unfold prototypeMember
    case null => infer_instance
    all_goals exact Has.bind fun v => by cases v <;> infer_instance

instance : Has P (memberValue byRef scope name) := by
  unfold memberValue
  split
  · split
    · split
      · infer_instance
      · exact Has.bind fun v => by cases v <;> infer_instance
    · infer_instance
  · infer_instance

instance : Has P (variableValue dialect byRef scope node) := by
  refine Has.bind fun name => ?_
  dsimp only
  split
  · infer_instance
  · split <;> refine Has.bind fun found => ?_ <;> cases found <;> dsimp only <;> try infer_instance
    all_goals
      split
      · exact Has.bind fun fs => Has.bind fun function => by cases function <;> infer_instance
      · exact Has.bind fun function => by cases function <;> infer_instance

end

section

variable {P : ∀ {α : Type}, Run α → Prop} [Prints P]

/-! ## What is printed -/

instance : Has P (traceScope scope) := by
  induction scope <;> unfold traceScope <;> infer_instance

instance (outer : Scope) : Has P (traceCall scope outer) := by
  unfold traceCall
  infer_instance

instance (args : Datum) : Has P (printHeader scope args) := by
  unfold printHeader
  infer_instance

instance (row : Row) (dialect : Dialect) : Has P (row.announce dialect scope) := by
  cases row <;> unfold Row.announce <;> infer_instance

instance (row : Row) (dialect : Dialect) : Has P (row.finish dialect scope) := by
  cases row <;> unfold Row.finish <;> infer_instance

end

section

variable {P : ∀ {α : Type}, Run α → Prop} [Inherits P]
  {title line : String} {node f args arg body : Datum} {ds statements : List Datum} {row : Row}

instance (name : String) (value : Run Datum) [Has P value] :
    Has P (assign dialect scope name value) := by
  unfold assign
  infer_instance

/-! ## Calls -/

instance : Has P (outputPiece value) := by
  cases value <;> unfold outputPiece <;> infer_instance

instance (builtin : Builtin) : Has P (readInput builtin) := by
  cases builtin <;> unfold readInput <;> infer_instance

instance : Has P (putLine line) := by
  unfold putLine traceLine
  infer_instance

section

variable {ev : Datum → Run Datum} [∀ arg, Has P (ev arg)]

instance : Has P (outputLine ev ds line) := by
  induction ds generalizing line <;> unfold outputLine <;> infer_instance

instance : Has P (promptWith title ev args) := by
  unfold promptWith
  infer_instance

instance (builtin : Builtin) : Has P (callBuiltin ev scope args builtin) := by
  cases builtin <;> unfold callBuiltin <;> infer_instance

end

def argValue (dialect : Dialect) (ev : Bool → Datum → Run Datum) (formals : Option (List Datum))
    (i : Nat) (arg : Datum) : Run Datum :=
  match formals with
  | none => do
    let v ← ev false arg
    if dialect.hasClosures then copy v else pure v
  | some fs =>
    match fs[i]? with
    | none => fail Fault.listIndex
    | some formal => do
      let kind ← kindOf formal
      let v ← ev (kind == "refarg") arg
      if kind == "refarg" then pure v else copy v

theorem argValues_cons (dialect : Dialect) (ev : Bool → Datum → Run Datum)
    (formals : Option (List Datum)) (i : Nat) (arg : Datum) (rest : List Datum) :
    argValues dialect ev formals i (arg :: rest) = (do
      let value ← argValue dialect ev formals i arg
      let values ← argValues dialect ev formals (i + 1) rest
      return value :: values) := by
  cases formals with
  | none =>
    cases hc : dialect.hasClosures <;> simp [argValues, argValue, hc]
  | some fs =>
    rw [argValues, argValue]
    cases fs[i]? with
    | none => rfl
    | some formal =>
      simp only [bind_assoc]
      refine bind_congr fun kind => ?_
      cases kind == "refarg" <;> simp

section

variable {ev : Bool → Datum → Run Datum} [∀ byRef arg, Has P (ev byRef arg)]
  {formals : Option (List Datum)} {i : Nat}

instance : Has P (argValue dialect ev formals i arg) := by
  unfold argValue
  repeat' split
  all_goals infer_instance

instance : Has P (argValues dialect ev formals i ds) := by
  induction ds generalizing i with
  | nil => exact inferInstanceAs (Has P (pure []))
  | cons arg rest ih =>
    rw [argValues_cons]
    infer_instance

end

instance : Has P (chooseCalled dialect scope name values) := by
  refine Has.bind fun fs => Has.bind fun found => ?_
  cases found with
  | some f => infer_instance
  | none =>
    dsimp only
    split <;> infer_instance

/-! ## Rows of statements -/

instance {κ : Type} (step : Datum → κ → Run (κ × Datum)) [∀ s c, Has P (step s c)] (c : κ) :
    Has P (block step statements c) := by
  induction statements generalizing c with
  | nil => exact inferInstanceAs (Has P (pure _))
  | cons s rest ih =>
    refine Has.bind fun r => ?_
    obtain ⟨scope', d⟩ := r
    cases d <;> infer_instance

instance (test : Run Bool) (body : Run Datum) [Has P test] [Has P body] (fuel : Nat) :
    Has P (repeatWhile test body fuel) := by
  induction fuel with
  | zero => exact inferInstanceAs (Has P (throw _))
  | succ fuel ih =>
    have hround : ∀ d : Datum, Has P (match d with
        | .null => repeatWhile test body fuel
        | result => pure result) := fun d => by cases d <;> infer_instance
    unfold repeatWhile
    infer_instance

section

variable {κ : Type} {h : Handling κ} {ev : Bool → κ → Datum → Run Datum}
  {ex : Datum → κ → Run (κ × Datum)} {ca : κ → Datum → Datum → Run Datum}
  {c inner : κ} [∀ byRef c node, Has P (ev byRef c node)]

instance : Has P (callValue value) := by
  cases value <;> unfold callValue <;> infer_instance

instance : Has P (Handling.loopTest dialect ev c node) := by
  unfold Handling.loopTest
  infer_instance

instance (right : Datum) : Has P (Handling.resultValue dialect ev c right) := by
  cases right <;> unfold Handling.resultValue <;> infer_instance

instance (form : ExprForm) [∀ c, Has P (h.scope c)] [∀ c, Has P (h.fork c)]
    [∀ c name args, Has P (ca c name args)] :
    Has P (h.evalForm dialect ev ca c node byRef form) := by
  cases form <;> unfold Handling.evalForm <;> infer_instance

variable [∀ s c, Has P (ex s c)]

instance : Has P (Handling.carryOut ex c inner body) := by
  unfold Handling.carryOut
  infer_instance

instance : Has P (Handling.carryOutElse ex c inner body) := by
  cases body <;> unfold Handling.carryOutElse <;> infer_instance

instance [∀ c, Has P (h.fork c)] : Has P (h.loopBody ex c node) := by
  unfold Handling.loopBody
  infer_instance

end

instance : Has Observes (Handling.value.scope scope) :=
  inferInstanceAs (Has Observes (pure scope))

instance : Has Observes (Handling.value.fork scope) :=
  inferInstanceAs (Has Observes (pure scope))

instance (name : String) (v : Run Datum) [Has P v] :
    Has P (Handling.value.assign dialect scope name v) :=
  inferInstanceAs (Has P (assign dialect scope name v))

section

variable [∀ s scope, Has P (exec dialect fuel s scope)]

instance (s : Datum) : Has P (row.step dialect fuel s scope) := by
  unfold Row.step Row.stepWith
  infer_instance

instance (r : Row × List Datum × Scope) : Has P (runBody dialect fuel r) := by
  unfold runBody
  infer_instance

instance : Has P (loopBody dialect fuel scope node) := by
  unfold loopBody
  infer_instance

instance : Has P (carryOut dialect fuel scope body) := by
  unfold carryOut
  infer_instance

instance : Has P (carryOutElse dialect fuel scope body) := by
  unfold carryOutElse
  infer_instance

end

section

variable [∀ byRef scope node, Has P (eval dialect fuel byRef scope node)]

instance : Has P (argument dialect fuel scope byRef arg) := by
  unfold argument
  infer_instance

instance : Has P (findCalled dialect fuel scope name args) := by
  rw [findCalled]
  infer_instance

instance (r : Datum × List Datum × Bool) : Has P (enterFound dialect fuel scope name args r) := by
  unfold enterFound
  infer_instance

instance : Has P (enterCall dialect fuel scope name args) := by
  rw [enterCall]
  infer_instance

instance : Has P (loopTest dialect fuel scope node) := by
  unfold loopTest
  infer_instance

end

theorem Inherits.evaluators (P : ∀ {α : Type}, Run α → Prop) [Inherits P]
    (dialect : Dialect) (fuel : Nat) :
    (∀ byRef scope node, Has P (eval dialect fuel byRef scope node)) ∧
      (∀ node scope, Has P (exec dialect fuel node scope)) ∧
      ∀ scope name args, Has P (call dialect fuel scope name args) := by
  induction fuel with
  | zero => exact ⟨fun _ _ _ => inferInstanceAs (Has P (throw _)),
      fun _ _ => inferInstanceAs (Has P (throw _)), fun _ _ _ => inferInstanceAs (Has P (throw _))⟩
  | succ fuel ih =>
    obtain ⟨heval, hexec, hcall⟩ := ih
    refine ⟨fun byRef scope node => ?_, fun node scope => ?_, fun scope name args => ?_⟩
    · rw [eval_succ]
      infer_instance
    · rw [exec_succ]
      refine Has.bind fun kind => ?_
      cases statementForm kind <;> rw [Handling.execForm] <;> infer_instance
    · cases hname : Builtin.ofName? name with
      | some builtin =>
        rw [call_builtin hname]
        infer_instance
      | none =>
        rw [call_own hname]
        infer_instance

instance : Has P (eval dialect fuel byRef scope node) :=
  (Inherits.evaluators P dialect fuel).1 _ _ _

instance : Has P (exec dialect fuel node scope) :=
  (Inherits.evaluators P dialect fuel).2.1 _ _

instance : Has P (call dialect fuel scope name args) :=
  (Inherits.evaluators P dialect fuel).2.2 _ _ _

end

end LangKit.Script
