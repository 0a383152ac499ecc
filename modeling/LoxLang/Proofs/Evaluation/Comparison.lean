/-
# Comparing evaluations

Two evaluations of the same tree may differ in what the language does not see: in the
lines its tokens are on, in the fuel they are given, in the room that is left in their
outputs. They take the same steps, until one of them is cut off for want of fuel or of
room. What the other goes on to do is not compared any more, but it is known where its
output then stands.

A comparison states how the two differ and that writing a line leaves them in step or
cuts the first off. That evaluation as a whole does the same is shown here, once for all
comparisons.
-/

import LoxLang.Proofs.Evaluation.Discipline
import LoxLang.Proofs.Evaluation.Renumbering

namespace LoxLang

/-- How a first evaluation compares to a second. -/
structure Comparison where
  /-- The line that a token is on for the first, by the line it is on for the second. -/
  line : Nat → Nat
  /-- The fuel that the second has more than the first. -/
  spare : Nat
  /-- The outputs of the two as long as they are in step. -/
  InStep : Sink → Sink → Prop
  /-- The outputs of the two once the first was cut off, by a fault or for want of fuel. -/
  CutOff : Option Fault → Sink → Sink → Prop
  /-- How the output of the second comes on, and whether it fails in the end. -/
  Leads : Sink → Option SinkFault → Sink → Prop
  refl (output : Sink) : Leads output none output
  trans {before middle after : Sink} {fault : Option SinkFault} :
    Leads before none middle → Leads middle fault after → Leads before fault after
  written (output : Sink) (text : String) :
    Leads output (output.writeLine text).1 (output.writeLine text).2
  flushed (output : Sink) : Leads output output.flush.1 output.flush.2
  /-- Nothing that the second goes on to do undoes that the first was cut off. -/
  cutOff_leads {cause : Option Fault} {first second after : Sink} {fault : Option SinkFault} :
    CutOff cause first second → Leads second fault after → CutOff cause first after
  lines {first second : Sink} (text : String) : InStep first second →
    ((first.writeLine text).1 = (second.writeLine text).1 ∧
      InStep (first.writeLine text).2 (second.writeLine text).2) ∨
    ∃ fault, (first.writeLine text).1 = some fault ∧
      CutOff (some (.sink fault)) (first.writeLine text).2 (second.writeLine text).2
  flushes {first second : Sink} : InStep first second →
    first.flush.1 = second.flush.1 ∧ InStep first.flush.2 second.flush.2
  /-- With as much fuel the two run out together. Otherwise it does not matter what the
  second does with what it has left. -/
  spared : spare = 0 ∨
    (∀ first second, CutOff none first second) ∧ ∀ before fault after, Leads before fault after

/-- The end of what was stopped by a fault or for want of fuel. -/
def Exit.stopped {ε α : Type} : Option ε → Exit ε α
  | none => .outOfFuel
  | some cause => .fault cause

/-- The failure of the output, if it is what an action ended with. -/
def Exit.sinkFault? {α : Type} : Exit Fault α → Option SinkFault
  | .fault (.sink cause) => some cause
  | _ => none

namespace Comparison

variable (c : Comparison) {α β γ δ : Type} {f : α → β} {g : γ → δ}

/-- The machine that the first has while the second has the given one. -/
def image (machine : Machine) (output : Sink) : Machine :=
  { machine.renumber c.line with output := output }

theorem image_of_line {c : Comparison} (h : c.line = id) (machine : Machine) (output : Sink) :
    c.image machine output = { machine with output := output } := by
  rw [image, h, Machine.renumber_id]

/-- How the first ends when the second ends as told. -/
inductive Ends (f : α → β) : Exit Fault β × Machine → Exit Fault α × Machine → Prop
  | inStep (exit : Exit Fault α) {after : Machine} {output : Sink} :
      c.InStep output after.output →
      Ends f (exit.map (Fault.renumber c.line) f, c.image after output) (exit, after)
  | cutOff (cause : Option Fault) {after other : Machine} {exit : Exit Fault α} :
      c.CutOff cause after.output other.output →
      Ends f (Exit.stopped cause, after) (exit, other)

/-- While the two are in step, the first action does what the second does, or is cut
off. -/
structure Follows (f : α → β) (first : Action β) (second : Action α) : Prop where
  ends {machine : Machine} {output : Sink} : c.InStep output machine.output →
    c.Ends f (first (c.image machine output)) (second machine)
  leads (machine : Machine) :
    c.Leads machine.output (second machine).1.sinkFault? (second machine).2.output

variable {c}

/-! ## Actions that follow each other -/

/-- Actions that have nothing to do with the output follow each other if they do the
same. -/
theorem Follows.of_eq {first : Action β} {second : Action α}
    (heq : ∀ machine output, first (c.image machine output) =
      ((second machine).1.map (Fault.renumber c.line) f, c.image (second machine).2 output))
    (hsecond : ∀ machine, (second machine).1.sinkFault? = none ∧
      (second machine).2.output = machine.output) :
    c.Follows f first second := by
  constructor
  · intro machine output hstep
    rw [heq]
    rw [← (hsecond machine).2] at hstep
    exact .inStep _ hstep
  · intro machine
    obtain ⟨hfault, houtput⟩ := hsecond machine
    rw [hfault, houtput]
    exact c.refl _

theorem follows_pure (result : α) : c.Follows f (pure (f result)) (pure result) :=
  .of_eq (fun _ _ => rfl) fun _ => ⟨rfl, rfl⟩

theorem follows_outOfFuel : c.Follows f .outOfFuel .outOfFuel :=
  .of_eq (fun _ _ => rfl) fun _ => ⟨rfl, rfl⟩

/-- The first has no fuel. The second has none either, or it may do what it does. -/
theorem follows_of_spare {second : Action α} (h : c.spare = 0 → second = .outOfFuel) :
    c.Follows f .outOfFuel second := by
  rcases c.spared with hspare | ⟨hcut, hleads⟩
  · rw [h hspare]
    exact follows_outOfFuel
  · exact ⟨fun _ => .cutOff none (hcut _ _), fun _ => hleads _ _ _⟩

theorem follows_raise (token : Token) (fault : RuntimeFault) :
    c.Follows f (.raise (token.renumber c.line) fault) (.raise token fault) :=
  .of_eq (fun _ _ => rfl) fun _ => ⟨rfl, rfl⟩

theorem Follows.bind {first : Action β} {second : Action α} {next : β → Action δ}
    {later : α → Action γ} (h : c.Follows f first second)
    (hnext : ∀ result, c.Follows g (next (f result)) (later result)) :
    c.Follows g (first >>= next) (second >>= later) := by
  constructor
  · intro machine output hstep
    have hends := h.ends hstep
    show c.Ends g (Action.bind first next _) (Action.bind second later _)
    rw [Action.bind, Action.bind]
    revert hends
    generalize first (c.image machine output) = reached
    generalize second machine = other
    intro hends
    cases hends with
    | inStep exit hafter =>
        cases exit with
        | value result => exact (hnext result).ends hafter
        | fault cause => exact .inStep (.fault cause) hafter
        | outOfFuel => exact .inStep .outOfFuel hafter
    | @cutOff cause after other exit hcut =>
        have hlast : c.CutOff cause after.output
            (Action.bind (fun _ => (exit, other)) later other).2.output := by
          cases exit with
          | value result => exact c.cutOff_leads hcut ((hnext result).leads other)
          | fault _ => exact hcut
          | outOfFuel => exact hcut
        cases cause with
        | none => exact .cutOff none hlast
        | some cause => exact .cutOff (some cause) hlast
  · intro machine
    have hfirst := h.leads machine
    show c.Leads _ (Action.bind second later machine).1.sinkFault?
      (Action.bind second later machine).2.output
    rw [Action.bind]
    revert hfirst
    rcases second machine with ⟨result | cause | _, after⟩
    · intro hfirst
      exact c.trans hfirst ((hnext result).leads after)
    · cases cause <;> exact id
    · exact id

theorem Follows.ite {condition : Prop} [Decidable condition] {first : Action β} {second : Action α}
    {other : Action β} {another : Action α} (hthen : c.Follows f first second)
    (helse : c.Follows f other another) :
    c.Follows f (if condition then first else other) (if condition then second else another) := by
  split
  · exact hthen
  · exact helse

theorem follows_ofExcept (token : Token) (outcome : Except RuntimeFault α) :
    c.Follows f (.ofExcept (token.renumber c.line) (outcome.map f)) (.ofExcept token outcome) := by
  cases outcome with
  | ok result => exact follows_pure result
  | error fault => exact follows_raise token fault

theorem search_image (machine : Machine) (output : Sink) (name : String) :
    (c.image machine output).environment.search (c.image machine output).current name =
      (machine.environment.search machine.current name).map (Value.renumber c.line) :=
  Environment.search_map _ _ _ _

theorem follows_lookUp (name : Token) :
    c.Follows (Value.renumber c.line) (.lookUp (name.renumber c.line)) (.lookUp name) := by
  apply Follows.of_eq
  · intro machine output
    rw [Action.lookUp, Action.lookUp, Token.lexeme_renumber, search_image]
    cases machine.environment.search machine.current name.lexeme <;> rfl
  · intro machine
    rw [Action.lookUp]
    cases machine.environment.search machine.current name.lexeme <;> exact ⟨rfl, rfl⟩

theorem image_define (machine : Machine) (output : Sink) (scope : ScopeId) (name : String)
    (value : Value) :
    c.image { machine with environment := machine.environment.define scope name value } output =
      { c.image machine output with
        environment := (c.image machine output).environment.define scope name
          (value.renumber c.line) } := by
  rw [image, Machine.renumber, Environment.map_define]
  rfl

theorem follows_overwrite (name : Token) (value : Value) :
    c.Follows id (.overwrite (name.renumber c.line) (value.renumber c.line))
      (.overwrite name value) := by
  apply Follows.of_eq
  · intro machine output
    rw [Action.overwrite, Action.overwrite, Token.lexeme_renumber, search_image]
    cases machine.environment.search machine.current name.lexeme with
    | found scope held => exact congrArg _ (image_define machine output scope _ value).symm
    | unbound => rfl
    | endless => rfl
  · intro machine
    rw [Action.overwrite]
    cases machine.environment.search machine.current name.lexeme <;> exact ⟨rfl, rfl⟩

theorem follows_declare (name : Token) (value : Value) :
    c.Follows id (.declare (name.renumber c.line) (value.renumber c.line))
      (.declare name value) := by
  apply Follows.of_eq
  · intro machine output
    exact congrArg _ (image_define machine output machine.current name.lexeme value).symm
  · intro machine
    exact ⟨rfl, rfl⟩

theorem follows_makeFunction (name : Token) (parameters : List Token) (body : List Stmt) :
    c.Follows (Value.renumber c.line)
      (.makeFunction (name.renumber c.line) (parameters.map (Token.renumber c.line))
        (Stmt.renumberEach c.line body))
      (.makeFunction name parameters body) :=
  .of_eq (fun _ _ => rfl) fun _ => ⟨rfl, rfl⟩

theorem follows_runBuiltin (builtin : Builtin) :
    c.Follows (Value.renumber c.line) (.runBuiltin builtin) (.runBuiltin builtin) := by
  cases builtin with
  | clock => exact .of_eq (fun _ _ => rfl) fun _ => ⟨rfl, rfl⟩

theorem follows_request {work : Sink → Option SinkFault × Sink}
    (hworks : ∀ {first second : Sink}, c.InStep first second →
      ((work first).1 = (work second).1 ∧ c.InStep (work first).2 (work second).2) ∨
      ∃ fault, (work first).1 = some fault ∧
        c.CutOff (some (.sink fault)) (work first).2 (work second).2)
    (hleads : ∀ output : Sink, c.Leads output (work output).1 (work output).2) :
    c.Follows id (.request work) (.request work) := by
  constructor
  · intro machine output hstep
    have houtput : (c.image machine output).output = output := rfl
    rw [Action.request, Action.request, houtput]
    have hworked := hworks hstep
    revert hworked
    generalize work output = worked
    generalize work machine.output = other
    obtain ⟨fault, output⟩ := worked
    obtain ⟨held, after⟩ := other
    intro hworked
    rcases hworked with ⟨hfault, hafter⟩ | ⟨cause, hfault, hcut⟩
    · replace hafter : c.InStep output (Machine.output { machine with output := after }) := hafter
      cases hfault
      cases fault with
      | none => exact .inStep (.value ()) hafter
      | some fault => exact .inStep (.fault (.sink fault)) hafter
    · replace hcut : c.CutOff (some (.sink cause)) output after := hcut
      cases hfault
      cases held with
      | none => exact .cutOff (some (.sink cause)) hcut
      | some held => exact .cutOff (some (.sink cause)) hcut
  · intro machine
    have hworked := hleads machine.output
    rw [Action.request]
    revert hworked
    rcases work machine.output with ⟨_ | fault, output⟩
    · exact id
    · exact id

/-- Only a line that is written can cut the first off. -/
theorem follows_print (value : Value) :
    c.Follows id (.print (value.renumber c.line)) (.print value) := by
  rw [Action.print, Value.text_renumber]
  exact follows_request (c.lines value.text) fun output => c.written output value.text

theorem follows_flush : c.Follows id .flush .flush :=
  follows_request (fun hstep => .inl (c.flushes hstep)) c.flushed

/-! ## Scopes and calls -/

/-- A change to the machine that leaves the output alone and has nothing to do with lines
can be made to both. -/
theorem Ends.change {first : Exit Fault β × Machine} {second : Exit Fault α × Machine}
    (h : c.Ends f first second) (change : Machine → Machine)
    (himage : ∀ machine output, c.image (change machine) output = change (c.image machine output))
    (houtput : ∀ machine, (change machine).output = machine.output) :
    c.Ends f (first.1, change first.2) (second.1, change second.2) := by
  cases h with
  | inStep exit hafter =>
      rw [← himage]
      apply Ends.inStep
      rw [houtput]
      exact hafter
  | cutOff cause hcut =>
      apply Ends.cutOff
      rw [houtput, houtput]
      exact hcut

theorem image_enter (machine : Machine) (output : Sink) (enclosing : ScopeId) (names : List Token)
    (values : List Value) :
    (c.image machine output).enter enclosing (names.map (Token.renumber c.line))
        (values.map (Value.renumber c.line)) =
      c.image (machine.enter enclosing names values) output := by
  have hnames : (names.map (Token.renumber c.line)).map Token.lexeme = names.map Token.lexeme := by
    rw [List.map_map]
    rfl
  rw [Machine.enter, hnames, image, image, Machine.renumber, Machine.renumber, Machine.enter,
    Environment.map_defineAll, Environment.map_push, Environment.next_map]

theorem leave_image (machine inner : Machine) (output : Sink) :
    (c.image machine output).leave inner = machine.leave inner := by
  rw [Machine.leave, Machine.leave]
  show Machine.mk (inner.environment.pop (machine.environment.map _).next) .. = _
  rw [Environment.next_map]
  rfl

theorem image_leave (machine inner : Machine) (output : Sink) :
    c.image (machine.leave inner) output = machine.leave (c.image inner output) := by
  rw [image, Machine.renumber, Machine.leave, Environment.map_pop]
  rfl

theorem Follows.inScope {first : Action β} {second : Action α} (h : c.Follows f first second)
    (enclosing : ScopeId) (names : List Token) (values : List Value) :
    c.Follows f
      (.inScope enclosing (names.map (Token.renumber c.line)) (values.map (Value.renumber c.line))
        first)
      (.inScope enclosing names values second) := by
  constructor
  · intro machine output hstep
    have hentered : c.InStep output (machine.enter enclosing names values).output := hstep
    rw [Action.inScope_apply, Action.inScope_apply, image_enter, leave_image]
    exact (h.ends hentered).change machine.leave (image_leave machine) fun _ => rfl
  · intro machine
    exact h.leads (machine.enter enclosing names values)

theorem Follows.inBlock {first : Action β} {second : Action α} (h : c.Follows f first second) :
    c.Follows f (.inBlock first) (.inBlock second) := by
  constructor
  · intro machine output hstep
    exact (h.inScope machine.current [] []).ends hstep
  · intro machine
    exact (h.inScope machine.current [] []).leads machine

theorem Follows.inCall {first : Action β} {second : Action α} (h : c.Follows f first second)
    (limit : Option Nat) (paren : Token) :
    c.Follows f (.inCall limit (paren.renumber c.line) first) (.inCall limit paren second) := by
  constructor
  · intro machine output hstep
    rw [Action.inCall, Action.inCall]
    show c.Ends f (if limit.any (· ≤ machine.callDepth) then _ else _) _
    split
    · exact (follows_raise paren .stackOverflow).ends hstep
    · have hdeeper : c.InStep output
          (Machine.output { machine with callDepth := machine.callDepth + 1 }) := hstep
      exact (h.ends hdeeper).change
        (fun inner => { inner with callDepth := inner.callDepth - 1 }) (fun _ _ => rfl) fun _ => rfl
  · intro machine
    rw [Action.inCall]
    split
    · exact c.refl _
    · exact h.leads { machine with callDepth := machine.callDepth + 1 }

end Comparison

/-! ## Evaluation -/

namespace Eval

open Comparison

variable (c : Comparison) (limit : Option Nat)

/-- Given so much fuel, all of evaluation follows what it does with the fuel to spare. -/
structure FollowsWith (fuel : Nat) : Prop where
  expression (node : Expr) : c.Follows (Value.renumber c.line)
    (Eval.expression limit fuel (node.renumber c.line))
    (Eval.expression limit (c.spare + fuel) node)
  each (nodes : List Expr) : c.Follows (List.map (Value.renumber c.line))
    (Eval.each limit fuel (Expr.renumberEach c.line nodes))
    (Eval.each limit (c.spare + fuel) nodes)
  call (function : Callable) (values : List Value) : c.Follows (Value.renumber c.line)
    (Eval.call limit fuel (function.renumber c.line) (values.map (Value.renumber c.line)))
    (Eval.call limit (c.spare + fuel) function values)
  statement (node : Stmt) : c.Follows (Flow.renumber c.line)
    (Eval.statement limit fuel (node.renumber c.line))
    (Eval.statement limit (c.spare + fuel) node)
  body (nodes : List Stmt) : c.Follows (Flow.renumber c.line)
    (Eval.body limit fuel (Stmt.renumberEach c.line nodes))
    (Eval.body limit (c.spare + fuel) nodes)

variable {c limit} {fuel : Nat}

theorem FollowsWith.expression_succ (h : FollowsWith c limit fuel) (node : Expr) :
    c.Follows (Value.renumber c.line) (Eval.expression limit (fuel + 1) (node.renumber c.line))
      (Eval.expression limit (c.spare + fuel + 1) node) := by
  cases node with
  | literal value =>
      have hsame : (Value.ofLiteral value).renumber c.line = .ofLiteral value :=
        Value.renumber_of_callable? c.line (Discipline.callable?_ofLiteral value)
      have hvalue : c.Follows (Value.renumber c.line) _ _ := follows_pure (.ofLiteral value)
      rw [hsame] at hvalue
      exact hvalue
  | grouping inner => exact h.expression inner
  | unary operator operand =>
      simp only [Expr.renumber, Eval.expression]
      apply (h.expression operand).bind
      intro value
      rw [Value.applyUnary_renumber]
      exact follows_ofExcept operator _
  | binary left operator right =>
      simp only [Expr.renumber, Eval.expression]
      apply (h.expression left).bind
      intro first
      apply (h.expression right).bind
      intro second
      rw [Value.applyBinary_renumber]
      exact follows_ofExcept operator _
  | logical left operator right =>
      simp only [Expr.renumber, Eval.expression]
      apply (h.expression left).bind
      intro value
      rw [Value.decides_renumber]
      exact (follows_pure value).ite (h.expression right)
  | «variable» name => exact follows_lookUp name
  | assign name value =>
      simp only [Expr.renumber, Eval.expression]
      apply (h.expression value).bind
      intro result
      exact (follows_overwrite name result).bind fun _ => follows_pure result
  | call callee paren arguments =>
      simp only [Expr.renumber, Eval.expression]
      apply (h.expression callee).bind
      intro value
      rw [Value.callable?_renumber]
      cases value.callable? with
      | none => exact follows_raise paren .notCallable
      | some function =>
          apply (h.each arguments).bind
          intro values
          rw [List.length_map, Callable.arity_renumber]
          exact ((h.call function values).inCall limit paren).ite (follows_raise paren _)

theorem FollowsWith.each_succ (h : FollowsWith c limit fuel) (nodes : List Expr) :
    c.Follows (List.map (Value.renumber c.line))
      (Eval.each limit (fuel + 1) (Expr.renumberEach c.line nodes))
      (Eval.each limit (c.spare + fuel + 1) nodes) := by
  cases nodes with
  | nil => exact follows_pure []
  | cons first others =>
      simp only [Expr.renumberEach, Eval.each]
      apply (h.expression first).bind
      intro value
      exact (h.each others).bind fun values => follows_pure (value :: values)

theorem FollowsWith.call_succ (h : FollowsWith c limit fuel) (function : Callable)
    (values : List Value) :
    c.Follows (Value.renumber c.line)
      (Eval.call limit (fuel + 1) (function.renumber c.line) (values.map (Value.renumber c.line)))
      (Eval.call limit (c.spare + fuel + 1) function values) := by
  cases function with
  | native builtin identity => exact follows_runBuiltin builtin
  | declared function =>
      have hbody := (h.body function.body).inScope function.closure function.parameters values
      simp only [Callable.renumber, Eval.call]
      apply hbody.bind
      intro flow
      rw [Flow.result_renumber]
      exact follows_pure flow.result

theorem FollowsWith.orNil (h : FollowsWith c limit fuel) (node : Option Expr) :
    c.Follows (Value.renumber c.line) (Eval.orNil limit fuel (node.map (Expr.renumber c.line)))
      (Eval.orNil limit (c.spare + fuel) node) := by
  cases node with
  | none => exact follows_pure Value.nil
  | some node => exact h.expression node

theorem FollowsWith.statement_succ (h : FollowsWith c limit fuel) (node : Stmt) :
    c.Follows (Flow.renumber c.line) (Eval.statement limit (fuel + 1) (node.renumber c.line))
      (Eval.statement limit (c.spare + fuel + 1) node) := by
  have hnormal : c.Follows (Flow.renumber c.line) (pure .normal) (pure .normal) :=
    follows_pure Flow.normal
  cases node with
  | expression value =>
      simp only [Stmt.renumber, Eval.statement]
      exact (h.expression value).bind fun _ => hnormal
  | print value =>
      simp only [Stmt.renumber, Eval.statement]
      apply (h.expression value).bind
      intro result
      exact (follows_print result).bind fun _ => hnormal
  | var name initial =>
      rw [Stmt.renumber, Eval.statement_var, Eval.statement_var]
      apply (h.orNil initial).bind
      intro value
      exact (follows_declare name value).bind fun _ => hnormal
  | block statements => exact (h.body statements).inBlock
  | branch condition consequent alternative =>
      cases alternative with
      | none =>
          simp only [Stmt.renumber, Eval.statement]
          apply (h.expression condition).bind
          intro value
          rw [Value.isTruthy_renumber]
          exact (h.statement consequent).ite hnormal
      | some alternative =>
          simp only [Stmt.renumber, Eval.statement]
          apply (h.expression condition).bind
          intro value
          rw [Value.isTruthy_renumber]
          exact (h.statement consequent).ite (h.statement alternative)
  | loop condition repeated =>
      simp only [Stmt.renumber, Eval.statement]
      apply (h.expression condition).bind
      intro value
      rw [Value.isTruthy_renumber]
      refine Follows.ite ?_ hnormal
      apply (h.statement repeated).bind
      intro flow
      cases flow with
      | normal => exact h.statement (.loop condition repeated)
      | returned value => exact follows_pure (Flow.returned value)
  | function name parameters statements =>
      simp only [Stmt.renumber, Eval.statement]
      apply (follows_makeFunction name parameters statements).bind
      intro function
      exact (follows_declare name function).bind fun _ => hnormal
  | ret keyword value =>
      rw [Stmt.renumber, Eval.statement_ret, Eval.statement_ret]
      exact (h.orNil value).bind fun result => follows_pure (Flow.returned result)

theorem FollowsWith.body_succ (h : FollowsWith c limit fuel) (nodes : List Stmt) :
    c.Follows (Flow.renumber c.line)
      (Eval.body limit (fuel + 1) (Stmt.renumberEach c.line nodes))
      (Eval.body limit (c.spare + fuel + 1) nodes) := by
  cases nodes with
  | nil => exact follows_pure Flow.normal
  | cons first others =>
      simp only [Stmt.renumberEach, Eval.body]
      apply (h.statement first).bind
      intro flow
      cases flow with
      | normal => exact h.body others
      | returned value => exact follows_pure (Flow.returned value)

variable (c limit)

/-- All of evaluation follows what it does with the fuel to spare. -/
theorem follows (fuel : Nat) : FollowsWith c limit fuel := by
  induction fuel with
  | zero =>
      constructor
      · intro node
        rw [Eval.expression]
        apply follows_of_spare
        intro hspare
        rw [hspare, Eval.expression]
      · intro nodes
        rw [Eval.each]
        apply follows_of_spare
        intro hspare
        rw [hspare, Eval.each]
      · intro function values
        rw [Eval.call]
        apply follows_of_spare
        intro hspare
        rw [hspare, Eval.call]
      · intro node
        rw [Eval.statement]
        apply follows_of_spare
        intro hspare
        rw [hspare, Eval.statement]
      · intro nodes
        rw [Eval.body]
        apply follows_of_spare
        intro hspare
        rw [hspare, Eval.body]
  | succ fuel ih =>
      exact ⟨ih.expression_succ, ih.each_succ, ih.call_succ, ih.statement_succ, ih.body_succ⟩

theorem follows_program (fuel : Nat) (nodes : Program) :
    c.Follows id (Eval.program limit fuel (Stmt.renumberEach c.line nodes))
      (Eval.program limit (c.spare + fuel) nodes) := by
  rw [Eval.program, Eval.program]
  exact ((follows c limit fuel).body nodes).bind fun _ => follows_flush

end Eval

end LoxLang
