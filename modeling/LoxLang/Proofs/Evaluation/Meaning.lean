/-
# What programs mean

The language told by rules, with nothing of how it is run. A rule derives how an
expression or a statement ends, with a result or with a fault, and the setting it leaves.
In a setting the names in sight are maps: a block puts an empty one in front and drops it
at its end, a call has the map of its parameters for its only local one. There are no
scopes to open and to release, no addresses, and no fuel: what has no derivation goes on
for ever.
-/

import LoxLang.Evaluation.Basic
import LoxLang.Proofs.Environment.Names

namespace LoxLang

/-- All that a program can see and change. -/
structure Setting where
  /-- The names in sight. -/
  names : Names Value
  /-- How many calls are in progress. -/
  callDepth : Nat
  /-- The identity of the next function made. -/
  supply : Identity
  /-- Where the time of day is read. -/
  clock : Clock
  /-- Where printing goes. -/
  output : Sink

namespace Meaning

/-- The fault of a program at a token. -/
def blame (token : Token) (fault : RuntimeFault) : Fault :=
  .program ⟨fault, token.line⟩

variable (limit : Option Nat)

mutual

/-- The expression, in the first setting, ends with the result and leaves the second. -/
inductive Evaluates : Expr → Setting → Except Fault Value → Setting → Prop
  | literal {value : Literal} {before : Setting} :
      Evaluates (.literal value) before (.ok (.ofLiteral value)) before
  | grouping {inner : Expr} {before after : Setting} {result : Except Fault Value} :
      Evaluates inner before result after → Evaluates (.grouping inner) before result after
  | unary {operator : Token} {operand : Expr} {before after : Setting}
      {result : Except Fault Value} :
      Evaluates operand before result after →
      Evaluates (.unary operator operand) before
        (result.bind fun value => (value.applyUnary operator.kind).mapError (blame operator)) after
  | leftFault {left right : Expr} {operator : Token} {before after : Setting} {fault : Fault} :
      Evaluates left before (.error fault) after →
      Evaluates (.binary left operator right) before (.error fault) after
  | binary {left right : Expr} {operator : Token} {before middle after : Setting} {first : Value}
      {result : Except Fault Value} :
      Evaluates left before (.ok first) middle → Evaluates right middle result after →
      Evaluates (.binary left operator right) before
        (result.bind fun second =>
          (first.applyBinary operator.kind second).mapError (blame operator)) after
  | logicalFault {left right : Expr} {operator : Token} {before after : Setting} {fault : Fault} :
      Evaluates left before (.error fault) after →
      Evaluates (.logical left operator right) before (.error fault) after
  | decided {left right : Expr} {operator : Token} {before after : Setting} {value : Value} :
      Evaluates left before (.ok value) after → value.decides operator.kind = true →
      Evaluates (.logical left operator right) before (.ok value) after
  | undecided {left right : Expr} {operator : Token} {before middle after : Setting}
      {value : Value} {result : Except Fault Value} :
      Evaluates left before (.ok value) middle → value.decides operator.kind = false →
      Evaluates right middle result after →
      Evaluates (.logical left operator right) before result after
  | bound {name : Token} {before : Setting} {value : Value} :
      before.names.find? name.lexeme = some value →
      Evaluates (.variable name) before (.ok value) before
  | unbound {name : Token} {before : Setting} :
      before.names.find? name.lexeme = none →
      Evaluates (.variable name) before
        (.error (blame name (.undefinedVariable name.lexeme))) before
  | assignFault {name : Token} {value : Expr} {before after : Setting} {fault : Fault} :
      Evaluates value before (.error fault) after →
      Evaluates (.assign name value) before (.error fault) after
  | assigned {name : Token} {value : Expr} {before after : Setting} {result : Value}
      {names : Names Value} :
      Evaluates value before (.ok result) after →
      after.names.assign name.lexeme result = some names →
      Evaluates (.assign name value) before (.ok result) { after with names := names }
  | unassigned {name : Token} {value : Expr} {before after : Setting} {result : Value} :
      Evaluates value before (.ok result) after → after.names.assign name.lexeme result = none →
      Evaluates (.assign name value) before
        (.error (blame name (.undefinedVariable name.lexeme))) after
  | calleeFault {callee : Expr} {paren : Token} {arguments : List Expr} {before after : Setting}
      {fault : Fault} :
      Evaluates callee before (.error fault) after →
      Evaluates (.call callee paren arguments) before (.error fault) after
  | notCallable {callee : Expr} {paren : Token} {arguments : List Expr} {before after : Setting}
      {value : Value} :
      Evaluates callee before (.ok value) after → value.callable? = none →
      Evaluates (.call callee paren arguments) before (.error (blame paren .notCallable)) after
  | argumentsFault {callee : Expr} {paren : Token} {arguments : List Expr}
      {before middle after : Setting} {value : Value} {function : Callable} {fault : Fault} :
      Evaluates callee before (.ok value) middle → value.callable? = some function →
      EvaluatesAll arguments middle (.error fault) after →
      Evaluates (.call callee paren arguments) before (.error fault) after
  | wrongArity {callee : Expr} {paren : Token} {arguments : List Expr}
      {before middle after : Setting} {value : Value} {function : Callable} {values : List Value} :
      Evaluates callee before (.ok value) middle → value.callable? = some function →
      EvaluatesAll arguments middle (.ok values) after → values.length ≠ function.arity →
      Evaluates (.call callee paren arguments) before
        (.error (blame paren (.wrongArity function.arity values.length))) after
  | stackOverflow {callee : Expr} {paren : Token} {arguments : List Expr}
      {before middle after : Setting} {value : Value} {function : Callable} {values : List Value} :
      Evaluates callee before (.ok value) middle → value.callable? = some function →
      EvaluatesAll arguments middle (.ok values) after → values.length = function.arity →
      limit.any (· ≤ after.callDepth) = true →
      Evaluates (.call callee paren arguments) before (.error (blame paren .stackOverflow)) after
  | call {callee : Expr} {paren : Token} {arguments : List Expr}
      {before middle ready after : Setting} {value : Value} {function : Callable}
      {values : List Value} {result : Except Fault Value} :
      Evaluates callee before (.ok value) middle → value.callable? = some function →
      EvaluatesAll arguments middle (.ok values) ready → values.length = function.arity →
      limit.any (· ≤ ready.callDepth) = false →
      Applies function values { ready with callDepth := ready.callDepth + 1 } result after →
      Evaluates (.call callee paren arguments) before result
        { after with callDepth := ready.callDepth }

/-- The expressions, from left to right, end with the values, or one of them with a fault. -/
inductive EvaluatesAll : List Expr → Setting → Except Fault (List Value) → Setting → Prop
  | nil {before : Setting} : EvaluatesAll [] before (.ok []) before
  | firstFault {first : Expr} {others : List Expr} {before after : Setting} {fault : Fault} :
      Evaluates first before (.error fault) after →
      EvaluatesAll (first :: others) before (.error fault) after
  | cons {first : Expr} {others : List Expr} {before middle after : Setting} {value : Value}
      {result : Except Fault (List Value)} :
      Evaluates first before (.ok value) middle → EvaluatesAll others middle result after →
      EvaluatesAll (first :: others) before (result.map (value :: ·)) after

/-- The function, applied to the values, ends with the result. -/
inductive Applies : Callable → List Value → Setting → Except Fault Value → Setting → Prop
  | clock {identity : Identity} {values : List Value} {before : Setting} :
      Applies (.native .clock identity) values before
        (.ok (.number before.clock.seconds)) { before with clock := before.clock.read }
  | /-- The only local names are the parameters. The caller's are back afterwards. -/
    declared {function : Function} {values : List Value} {before after : Setting}
      {result : Except Fault Flow} :
      Proceeds function.body
        { before with
          names := ⟨[.bindAll (function.parameters.map Token.lexeme) values []],
            before.names.globals⟩ } result after →
      Applies (.declared function) values before (result.map Flow.result)
        { after with names := ⟨before.names.locals, after.names.globals⟩ }

/-- The statement, in the first setting, ends so and leaves the second. -/
inductive Executes : Stmt → Setting → Except Fault Flow → Setting → Prop
  | expression {value : Expr} {before after : Setting} {result : Except Fault Value} :
      Evaluates value before result after →
      Executes (.expression value) before (result.map fun _ => .normal) after
  | printFault {value : Expr} {before after : Setting} {fault : Fault} :
      Evaluates value before (.error fault) after →
      Executes (.print value) before (.error fault) after
  | printed {value : Expr} {before after : Setting} {result : Value} {output : Sink} :
      Evaluates value before (.ok result) after →
      after.output.writeLine result.text = (none, output) →
      Executes (.print value) before (.ok .normal) { after with output := output }
  | unprinted {value : Expr} {before after : Setting} {result : Value} {output : Sink}
      {fault : SinkFault} :
      Evaluates value before (.ok result) after →
      after.output.writeLine result.text = (some fault, output) →
      Executes (.print value) before (.error (.sink fault)) { after with output := output }
  | varBare {name : Token} {before : Setting} :
      Executes (.var name none) before (.ok .normal)
        { before with names := before.names.declare name.lexeme .nil }
  | varFault {name : Token} {initial : Expr} {before after : Setting} {fault : Fault} :
      Evaluates initial before (.error fault) after →
      Executes (.var name (some initial)) before (.error fault) after
  | var {name : Token} {initial : Expr} {before after : Setting} {value : Value} :
      Evaluates initial before (.ok value) after →
      Executes (.var name (some initial)) before (.ok .normal)
        { after with names := after.names.declare name.lexeme value }
  | /-- However the block ends, its own map is dropped. -/
    block {statements : List Stmt} {before after : Setting} {result : Except Fault Flow} :
      Proceeds statements { before with names := before.names.inner [] } result after →
      Executes (.block statements) before result { after with names := after.names.outer }
  | branchFault {condition : Expr} {consequent : Stmt} {alternative : Option Stmt}
      {before after : Setting} {fault : Fault} :
      Evaluates condition before (.error fault) after →
      Executes (.branch condition consequent alternative) before (.error fault) after
  | consequent {condition : Expr} {consequent : Stmt} {alternative : Option Stmt}
      {before middle after : Setting} {value : Value} {result : Except Fault Flow} :
      Evaluates condition before (.ok value) middle → value.isTruthy = true →
      Executes consequent middle result after →
      Executes (.branch condition consequent alternative) before result after
  | alternative {condition : Expr} {consequent alternative : Stmt} {before middle after : Setting}
      {value : Value} {result : Except Fault Flow} :
      Evaluates condition before (.ok value) middle → value.isTruthy = false →
      Executes alternative middle result after →
      Executes (.branch condition consequent (some alternative)) before result after
  | neither {condition : Expr} {consequent : Stmt} {before after : Setting} {value : Value} :
      Evaluates condition before (.ok value) after → value.isTruthy = false →
      Executes (.branch condition consequent none) before (.ok .normal) after
  | loopFault {condition : Expr} {repeated : Stmt} {before after : Setting} {fault : Fault} :
      Evaluates condition before (.error fault) after →
      Executes (.loop condition repeated) before (.error fault) after
  | loopDone {condition : Expr} {repeated : Stmt} {before after : Setting} {value : Value} :
      Evaluates condition before (.ok value) after → value.isTruthy = false →
      Executes (.loop condition repeated) before (.ok .normal) after
  | /-- A return or a fault ends the loop. -/
    loopLeft {condition : Expr} {repeated : Stmt} {before middle after : Setting} {value : Value}
      {result : Except Fault Flow} :
      Evaluates condition before (.ok value) middle → value.isTruthy = true →
      Executes repeated middle result after → result ≠ .ok .normal →
      Executes (.loop condition repeated) before result after
  | loopAgain {condition : Expr} {repeated : Stmt} {before middle later after : Setting}
      {value : Value} {result : Except Fault Flow} :
      Evaluates condition before (.ok value) middle → value.isTruthy = true →
      Executes repeated middle (.ok .normal) later →
      Executes (.loop condition repeated) later result after →
      Executes (.loop condition repeated) before result after
  | function {name : Token} {parameters : List Token} {body : List Stmt} {before : Setting} :
      Executes (.function name parameters body) before (.ok .normal)
        { before with
          names := before.names.declare name.lexeme
            (.callable (.declared ⟨name, parameters, body, .global, before.supply⟩))
          supply := before.supply + 1 }
  | retBare {keyword : Token} {before : Setting} :
      Executes (.ret keyword none) before (.ok (.returned .nil)) before
  | ret {keyword : Token} {value : Expr} {before after : Setting} {result : Except Fault Value} :
      Evaluates value before result after →
      Executes (.ret keyword (some value)) before (result.map .returned) after

/-- The statements, in order, end so. -/
inductive Proceeds : List Stmt → Setting → Except Fault Flow → Setting → Prop
  | nil {before : Setting} : Proceeds [] before (.ok .normal) before
  | /-- What comes after a return or a fault is not executed. -/
    stop {first : Stmt} {others : List Stmt} {before after : Setting}
      {result : Except Fault Flow} :
      Executes first before result after → result ≠ .ok .normal →
      Proceeds (first :: others) before result after
  | cons {first : Stmt} {others : List Stmt} {before middle after : Setting}
      {result : Except Fault Flow} :
      Executes first before (.ok .normal) middle → Proceeds others middle result after →
      Proceeds (first :: others) before result after

end

/-- The program ends so. Unless it fails, its output is flushed. -/
inductive Runs : Program → Setting → Except Fault Unit → Setting → Prop
  | failed {program : Program} {before after : Setting} {fault : Fault} :
      Proceeds limit program before (.error fault) after →
      Runs program before (.error fault) after
  | flushed {program : Program} {before after : Setting} {flow : Flow} {output : Sink} :
      Proceeds limit program before (.ok flow) after → after.output.flush = (none, output) →
      Runs program before (.ok ()) { after with output := output }
  | unflushed {program : Program} {before after : Setting} {flow : Flow} {output : Sink}
      {fault : SinkFault} :
      Proceeds limit program before (.ok flow) after → after.output.flush = (some fault, output) →
      Runs program before (.error (.sink fault)) { after with output := output }

end Meaning

end LoxLang
