/-
# Programs without loops end

Between one call and the next an evaluation only goes down its tree, and only so many
calls may be in progress at once. So a program without loops ends, however its functions
call each other and whatever they are passed, stored or replaced by.

The measure is the number of calls that may still be begun, and then the size of the
tree. What a call executes is no part of that tree: it is the body of a function that is
found in the scopes. So it has to be known of all functions in sight that their bodies
are without loops, and this is carried along.

An end is shown to be meant, case by case of the tree. The machine comes to it then,
given enough fuel.
-/

import LoxLang.Proofs.Evaluation.Refinement

namespace LoxLang

/-! ## Trees and values without loops -/

/-- No loop stands in the statement, and none in the functions that it declares. A
counting loop is a loop. -/
inductive Stmt.LoopFree : Stmt → Prop
  | expression {value : Expr} : LoopFree (.expression value)
  | print {value : Expr} : LoopFree (.print value)
  | var {name : Token} {initial : Option Expr} : LoopFree (.var name initial)
  | block {body : List Stmt} : (∀ node ∈ body, LoopFree node) → LoopFree (.block body)
  | branch {condition : Expr} {consequent : Stmt} {alternative : Option Stmt} :
      LoopFree consequent → (∀ node ∈ alternative, LoopFree node) →
      LoopFree (.branch condition consequent alternative)
  | function {name : Token} {parameters : List Token} {body : List Stmt} :
      (∀ node ∈ body, LoopFree node) → LoopFree (.function name parameters body)
  | ret {keyword : Token} {value : Option Expr} : LoopFree (.ret keyword value)

/-- No loop stands in the body of the function. -/
def Callable.LoopFree : Callable → Prop
  | .declared function => ∀ node ∈ function.body, node.LoopFree
  | .native _ _ => True

/-- The value, if it is a function, has no loop in its body. -/
def Value.LoopFree : Value → Prop
  | .callable function => function.LoopFree
  | _ => True

theorem Value.loopFree_of_callable? {value : Value} (h : value.callable? = none) :
    value.LoopFree := by
  cases value with
  | callable function => cases h
  | _ => trivial

theorem Value.loopFree_callable {value : Value} {function : Callable} (h : value.LoopFree)
    (hcallable : value.callable? = some function) : function.LoopFree := by
  cases value <;> cases hcallable
  exact h

/-- A return is of a value without loops. -/
def Flow.LoopFree (flow : Flow) : Prop :=
  flow.result.LoopFree

/-- The functions in sight are without loops, and so many calls are in progress. -/
structure Setting.LoopFree (depth : Nat) (setting : Setting) : Prop where
  stored {value : Value} : setting.names.Stores value → value.LoopFree
  callDepth : setting.callDepth = depth

namespace Setting.LoopFree

variable {depth : Nat} {setting : Setting} {name : String} {value : Value} {names : Names Value}
  {bindings : Bindings Value}

/-- What else there is to a setting makes no difference. -/
theorem withNames (h : setting.LoopFree depth)
    (hnames : ∀ value, names.Stores value → setting.names.Stores value ∨ value.LoopFree)
    (supply : Nat) (clock : Clock) (output : Sink) :
    LoopFree depth ⟨names, setting.callDepth, supply, clock, output⟩ :=
  ⟨fun hstored => (hnames _ hstored).elim h.stored id, h.callDepth⟩

theorem declare (h : setting.LoopFree depth) (hvalue : value.LoopFree) (supply : Nat) :
    LoopFree depth
      { setting with names := setting.names.declare name value, supply := supply } := by
  apply h.withNames
  intro held hheld
  rcases hheld.of_declare with hbefore | rfl
  · exact .inl hbefore
  · exact .inr hvalue

theorem assign (h : setting.LoopFree depth) (hvalue : value.LoopFree)
    (hassign : setting.names.assign name value = some names) :
    LoopFree depth { setting with names := names } := by
  apply h.withNames
  intro held hheld
  rcases hheld.of_assign hassign with hbefore | rfl
  · exact .inl hbefore
  · exact .inr hvalue

theorem inner (h : setting.LoopFree depth) :
    LoopFree depth { setting with names := setting.names.inner [] } :=
  h.withNames (fun _ hstored => hstored.of_inner.imp_right (by simp)) _ _ _

theorem outer (h : setting.LoopFree depth) :
    LoopFree depth { setting with names := setting.names.outer } :=
  h.withNames (fun _ hstored => .inl hstored.of_outer) _ _ _

end Setting.LoopFree

namespace Meaning

variable {α : Type} {P : α → Prop} {depth : Nat} {meant : Except Fault α → Setting → Prop}
  {after : Setting}

/-! ## Ends that are meant -/

/-- An end is meant, with a fault or with a result as told. No loop comes to be stored
by then, and as many calls are in progress as there were. -/
inductive Ends (P : α → Prop) (depth : Nat) (meant : Except Fault α → Setting → Prop) : Prop
  | fault {cause : Fault} {after : Setting} :
      meant (.error cause) after → after.LoopFree depth → Ends P depth meant
  | result {value : α} {after : Setting} :
      meant (.ok value) after → P value → after.LoopFree depth → Ends P depth meant

theorem ends_mapError {token : Token} {outcome : Except RuntimeFault α}
    (hmeant : meant (outcome.mapError (blame token)) after)
    (hvalue : ∀ value, outcome = .ok value → P value) (hafter : after.LoopFree depth) :
    Ends P depth meant := by
  cases outcome with
  | ok value => exact .result hmeant (hvalue value rfl) hafter
  | error cause => exact .fault hmeant hafter

variable {limit : Nat}

/-- With `depth` calls in progress, any further call that the limit allows comes to an
end. -/
def CallsEnd (limit depth : Nat) : Prop :=
  depth < limit → ∀ {function : Callable} {values : List Value} {before : Setting},
    function.LoopFree → (∀ value ∈ values, value.LoopFree) → before.LoopFree (depth + 1) →
      Ends Value.LoopFree (depth + 1) (Applies (some limit) function values before)

/-! ## Expressions -/

/-- Once the function and the arguments are known, a call is refused or begun. -/
theorem application_ends (hcalls : CallsEnd limit depth) {callee : Expr} {paren : Token}
    {arguments : List Expr} {before middle ready : Setting} {value : Value} {function : Callable}
    {values : List Value} (hcallee : Evaluates (some limit) callee before (.ok value) middle)
    (hcallable : value.callable? = some function)
    (harguments : EvaluatesAll (some limit) arguments middle (.ok values) ready)
    (hfunction : function.LoopFree) (hvalues : ∀ value ∈ values, value.LoopFree)
    (hready : ready.LoopFree depth) :
    Ends Value.LoopFree depth (Evaluates (some limit) (.call callee paren arguments) before) := by
  by_cases harity : values.length = function.arity
  · by_cases hlimit : limit ≤ depth
    · have hrefused : (some limit).any (· ≤ ready.callDepth) = true := by
        simpa [hready.callDepth] using hlimit
      exact .fault (.stackOverflow hcallee hcallable harguments harity hrefused) hready
    · have hbegun : (some limit).any (· ≤ ready.callDepth) = false := by
        simpa [hready.callDepth] using hlimit
      have hdeeper : Setting.LoopFree (depth + 1)
          { ready with callDepth := ready.callDepth + 1 } :=
        ⟨hready.stored, congrArg (· + 1) hready.callDepth⟩
      have hback {after : Setting} (hafter : after.LoopFree (depth + 1)) :
          Setting.LoopFree depth { after with callDepth := ready.callDepth } :=
        ⟨hafter.stored, hready.callDepth⟩
      cases hcalls (Nat.lt_of_not_le hlimit) hfunction hvalues hdeeper with
      | fault happlies hafter =>
          exact .fault (.call hcallee hcallable harguments harity hbegun happlies) (hback hafter)
      | result happlies hresult hafter =>
          exact .result (.call hcallee hcallable harguments harity hbegun happlies) hresult
            (hback hafter)
  · exact .fault (.wrongArity hcallee hcallable harguments harity) hready

mutual

/-- The evaluation of an expression descends into its parts until it comes to a call. -/
theorem expression_ends (hcalls : CallsEnd limit depth) : ∀ (node : Expr) {before : Setting},
    before.LoopFree depth → Ends Value.LoopFree depth (Evaluates (some limit) node before)
  | .literal value, _, h =>
      .result .literal (Value.loopFree_of_callable? (Discipline.callable?_ofLiteral value)) h
  | .grouping inner, _, h => by
      cases expression_ends hcalls inner h with
      | fault hmeant hafter => exact .fault (.grouping hmeant) hafter
      | result hmeant hvalue hafter => exact .result (.grouping hmeant) hvalue hafter
  | .unary _ operand, _, h => by
      cases expression_ends hcalls operand h with
      | fault hmeant hafter => exact .fault (.unary hmeant) hafter
      | result hmeant _ hafter =>
          refine ends_mapError (.unary hmeant) (fun result hresult => ?_) hafter
          exact Value.loopFree_of_callable? (Discipline.callable?_of_applyUnary hresult)
  | .binary left _ right, _, h => by
      cases expression_ends hcalls left h with
      | fault hmeant hafter => exact .fault (.leftFault hmeant) hafter
      | result hleft _ hmiddle =>
          cases expression_ends hcalls right hmiddle with
          | fault hmeant hafter => exact .fault (.binary hleft hmeant) hafter
          | result hmeant _ hafter =>
              refine ends_mapError (.binary hleft hmeant) (fun result hresult => ?_) hafter
              exact Value.loopFree_of_callable? (Discipline.callable?_of_applyBinary hresult)
  | .logical left operator right, _, h => by
      cases expression_ends hcalls left h with
      | fault hmeant hafter => exact .fault (.logicalFault hmeant) hafter
      | @result value _ hleft hvalue hmiddle =>
          cases hdecides : value.decides operator.kind with
          | true => exact .result (.decided hleft hdecides) hvalue hmiddle
          | false =>
              cases expression_ends hcalls right hmiddle with
              | fault hmeant hafter => exact .fault (.undecided hleft hdecides hmeant) hafter
              | result hmeant hresult hafter =>
                  exact .result (.undecided hleft hdecides hmeant) hresult hafter
  | .variable name, before, h => by
      cases hfind : before.names.find? name.lexeme with
      | none => exact .fault (.unbound hfind) h
      | some value => exact .result (.bound hfind) (h.stored (.of_find? hfind)) h
  | .assign name value, _, h => by
      cases expression_ends hcalls value h with
      | fault hmeant hafter => exact .fault (.assignFault hmeant) hafter
      | @result result after hmeant hresult hafter =>
          cases hassign : after.names.assign name.lexeme result with
          | none => exact .fault (.unassigned hmeant hassign) hafter
          | some names =>
              exact .result (.assigned hmeant hassign) hresult (hafter.assign hresult hassign)
  | .call callee paren arguments, _, h => by
      cases expression_ends hcalls callee h with
      | fault hmeant hafter => exact .fault (.calleeFault hmeant) hafter
      | @result value _ hcallee hvalue hmiddle =>
          cases hcallable : value.callable? with
          | none => exact .fault (.notCallable hcallee hcallable) hmiddle
          | some function =>
              cases each_ends hcalls arguments hmiddle with
              | fault hmeant hafter =>
                  exact .fault (.argumentsFault hcallee hcallable hmeant) hafter
              | result harguments hvalues hready =>
                  exact application_ends hcalls hcallee hcallable harguments
                    (Value.loopFree_callable hvalue hcallable) hvalues hready

theorem each_ends (hcalls : CallsEnd limit depth) : ∀ (nodes : List Expr) {before : Setting},
    before.LoopFree depth →
      Ends (fun values => ∀ value ∈ values, value.LoopFree) depth
        (EvaluatesAll (some limit) nodes before)
  | [], _, h => .result .nil nofun h
  | first :: others, _, h => by
      cases expression_ends hcalls first h with
      | fault hmeant hafter => exact .fault (.firstFault hmeant) hafter
      | result hfirst hvalue hmiddle =>
          cases each_ends hcalls others hmiddle with
          | fault hmeant hafter => exact .fault (.cons hfirst hmeant) hafter
          | result hmeant hvalues hafter =>
              exact .result (.cons hfirst hmeant) (List.forall_mem_cons.mpr ⟨hvalue, hvalues⟩)
                hafter

end

/-! ## Statements -/

/-- If all of the statements end, so does their sequence. -/
theorem sequence_ends {nodes : List Stmt} {before : Setting}
    (hnodes : ∀ node ∈ nodes, ∀ {before : Setting}, before.LoopFree depth →
      Ends Flow.LoopFree depth (Executes (some limit) node before))
    (h : before.LoopFree depth) :
    Ends Flow.LoopFree depth (Proceeds (some limit) nodes before) := by
  induction nodes generalizing before with
  | nil => exact .result .nil trivial h
  | cons first others ih =>
      obtain ⟨hfirst, hothers⟩ := List.forall_mem_cons.mp hnodes
      cases hfirst h with
      | fault hmeant hafter => exact .fault (.stop hmeant nofun) hafter
      | @result flow _ hmeant hflow hmiddle =>
          cases flow with
          | returned value => exact .result (.stop hmeant nofun) hflow hmiddle
          | normal =>
              cases ih hothers hmiddle with
              | fault hlater hafter => exact .fault (.cons hmeant hlater) hafter
              | result hlater hflow hafter => exact .result (.cons hmeant hlater) hflow hafter

/-- Of a statement without loops only parts are executed, and none of them twice. -/
theorem statement_ends (hcalls : CallsEnd limit depth) {node : Stmt} (hnode : node.LoopFree)
    {before : Setting} (h : before.LoopFree depth) :
    Ends Flow.LoopFree depth (Executes (some limit) node before) := by
  have hnormal : Flow.LoopFree .normal := trivial
  induction hnode generalizing before with
  | @expression value =>
      cases expression_ends hcalls value h with
      | fault hmeant hafter => exact .fault (.expression hmeant) hafter
      | result hmeant _ hafter => exact .result (.expression hmeant) hnormal hafter
  | @print value =>
      cases expression_ends hcalls value h with
      | fault hmeant hafter => exact .fault (.printFault hmeant) hafter
      | @result result after hmeant _ hafter =>
          have hwritten (output : Sink) : Setting.LoopFree depth { after with output := output } :=
            ⟨hafter.stored, hafter.callDepth⟩
          rcases hline : after.output.writeLine result.text with ⟨_ | cause, output⟩
          · exact .result (.printed hmeant hline) hnormal (hwritten output)
          · exact .fault (.unprinted hmeant hline) (hwritten output)
  | @var name initial =>
      cases initial with
      | none =>
          have hnil : Value.LoopFree .nil := trivial
          exact .result .varBare hnormal (h.declare hnil _)
      | some initial =>
          cases expression_ends hcalls initial h with
          | fault hmeant hafter => exact .fault (.varFault hmeant) hafter
          | result hmeant hvalue hafter =>
              exact .result (.var hmeant) hnormal (hafter.declare hvalue _)
  | block _ ih =>
      cases sequence_ends ih h.inner with
      | fault hmeant hafter => exact .fault (.block hmeant) hafter.outer
      | result hmeant hflow hafter => exact .result (.block hmeant) hflow hafter.outer
  | @branch condition _ alternative _ _ ihconsequent ihalternative =>
      cases expression_ends hcalls condition h with
      | fault hmeant hafter => exact .fault (.branchFault hmeant) hafter
      | @result value _ hcondition _ hmiddle =>
          cases htruthy : value.isTruthy with
          | true =>
              cases ihconsequent hmiddle with
              | fault hmeant hafter => exact .fault (.consequent hcondition htruthy hmeant) hafter
              | result hmeant hflow hafter =>
                  exact .result (.consequent hcondition htruthy hmeant) hflow hafter
          | false =>
              cases alternative with
              | none => exact .result (.neither hcondition htruthy) hnormal hmiddle
              | some alternative =>
                  cases ihalternative alternative rfl hmiddle with
                  | fault hmeant hafter =>
                      exact .fault (.alternative hcondition htruthy hmeant) hafter
                  | result hmeant hflow hafter =>
                      exact .result (.alternative hcondition htruthy hmeant) hflow hafter
  | @function name parameters body hbody _ =>
      have hmade : Value.LoopFree
          (.callable (.declared ⟨name, parameters, body, .global, before.supply⟩)) := hbody
      exact .result .function hnormal (h.declare hmade _)
  | @ret keyword value =>
      cases value with
      | none => exact .result .retBare trivial h
      | some value =>
          cases expression_ends hcalls value h with
          | fault hmeant hafter => exact .fault (.ret hmeant) hafter
          | result hmeant hvalue hafter => exact .result (.ret hmeant) hvalue hafter

/-! ## Calls -/

/-- A call ends if those that its body begins end, one level deeper. -/
theorem callsEnd_of_succ (h : CallsEnd limit (depth + 1)) : CallsEnd limit depth := by
  intro _ function values before hfunction hvalues hbefore
  cases function with
  | native builtin identity =>
      cases builtin with
      | clock => exact .result .clock trivial ⟨hbefore.stored, hbefore.callDepth⟩
  | declared function =>
      have hentered : Setting.LoopFree (depth + 1)
          { before with
            names := ⟨[.bindAll (function.parameters.map Token.lexeme) values []],
              before.names.globals⟩ } := by
        apply hbefore.withNames
        rintro value ⟨bindings, hbindings, name, hmem⟩
        rcases List.mem_cons.mp hbindings with rfl | hlocal
        · exact .inl ⟨_, List.mem_cons_self, name, hmem⟩
        · rw [List.mem_singleton.mp hlocal] at hmem
          exact .inr (hvalues value ((Bindings.of_mem_bindAll hmem).resolve_left nofun))
      have hback {after : Setting} (hafter : after.LoopFree (depth + 1)) :
          Setting.LoopFree (depth + 1)
            { after with names := ⟨before.names.locals, after.names.globals⟩ } := by
        apply hafter.withNames
        rintro value ⟨bindings, hbindings, bound⟩
        rcases List.mem_cons.mp hbindings with rfl | hlocal
        · exact .inl ⟨_, List.mem_cons_self, bound⟩
        · exact .inr (hbefore.stored ⟨bindings, List.mem_cons_of_mem _ hlocal, bound⟩)
      have hbody :=
        sequence_ends (fun node hmem _ => statement_ends h (hfunction node hmem)) hentered
      cases hbody with
      | fault hmeant hafter => exact .fault (.declared hmeant) (hback hafter)
      | result hmeant hflow hafter => exact .result (.declared hmeant) hflow (hback hafter)

/-- All calls end. The induction is on how many more may be begun inside each other. -/
theorem callsEnd (limit depth : Nat) : CallsEnd limit depth := by
  induction hleft : limit - depth generalizing depth with
  | zero =>
      intro hlt
      omega
  | succ left ih => exact callsEnd_of_succ (ih (depth + 1) (by omega))

/-- So a program without loops ends, where no function in sight has any. -/
theorem exists_runs (limit : Nat) {program : Program} (hprogram : ∀ node ∈ program, node.LoopFree)
    {before : Setting} (h : before.LoopFree depth) :
    ∃ result after, Runs (some limit) program before result after := by
  have hends : Ends Flow.LoopFree depth (Proceeds (some limit) program before) :=
    sequence_ends (fun node hmem _ => statement_ends (callsEnd limit depth) (hprogram node hmem)) h
  cases hends with
  | fault hmeant _ => exact ⟨_, _, .failed hmeant⟩
  | @result _ after hmeant _ _ =>
      cases hflush : after.output.flush with
      | mk outcome output =>
          cases outcome with
          | none => exact ⟨_, _, .flushed hmeant hflush⟩
          | some cause => exact ⟨_, _, .unflushed hmeant hflush⟩

end Meaning

namespace Eval

/-- A program without loops ends on every machine whose stored functions have none, with
success or with a fault, however many calls are in progress there and whatever the limit
on them. The end does not depend on the fuel, once there is enough of it. -/
theorem program_ends_of_loopFree (limit : Nat) {machine : Machine} (hm : machine.Standing)
    (hstored : ∀ value, machine.environment.Stores value → value.LoopFree) {nodes : Program}
    (hnodes : ∀ node ∈ nodes, node.LoopFree) :
    ∃ enough result after, ∀ fuel ≥ enough,
      program (some limit) fuel nodes machine = (.ofResult result, after) := by
  have hview : machine.view.LoopFree machine.callDepth :=
    ⟨fun hseen => hstored _ (.of_names hseen), rfl⟩
  obtain ⟨result, shown, hruns⟩ := Meaning.exists_runs limit hnodes hview
  obtain ⟨enough, after, -, hsettled⟩ := hruns.settles hm
  exact ⟨enough, result, after, hsettled⟩

/-- A function that calls itself for ever is declared and called: this comes to an end. -/
theorem program_ends_of_loopFree_recursion :
    ∃ enough result after, ∀ fuel ≥ enough,
      program (some maxCallDepth) fuel
        [.function ⟨.identifier, "f", none, 1⟩ [] [.ret ⟨.keyword .return, "return", none, 1⟩
          (some (.call (.variable ⟨.identifier, "f", none, 1⟩) ⟨.rightParen, ")", none, 1⟩ []))],
          .expression
            (.call (.variable ⟨.identifier, "f", none, 1⟩) ⟨.rightParen, ")", none, 1⟩ [])]
        (Machine.start (.ticking 0) .unlimited) = (.ofResult result, after) := by
  apply program_ends_of_loopFree maxCallDepth (Machine.standing_start (.ticking 0) .unlimited)
  · intro value hstored
    rw [Machine.eq_clock_of_stores_start hstored]
    trivial
  · intro node hnode
    rcases List.mem_cons.mp hnode with rfl | hlast
    · refine .function fun inner hinner => ?_
      rw [List.mem_singleton.mp hinner]
      exact .ret
    · rw [List.mem_singleton.mp hlast]
      exact .expression

end Eval

end LoxLang
