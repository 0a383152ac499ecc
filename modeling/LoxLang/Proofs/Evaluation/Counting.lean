/-
# Counting loops

A counting loop is read as blocks and a loop. Here it is told directly, as it is meant: the
initial part is executed once, in a scope of the loop's own that there is only if there is
an initial part. Then, as long as the condition holds, the body is executed and the step
evaluated, both in that scope. A body that returns or fails ends the loop without the step.

Executing what is read does the same. It ends exactly if the direct loop ends, with the same
result or fault, and leaves the very same machine. The block that is around body and step in
every round makes no difference, because no statement that can stand as a body declares a
name.

Both run on fuel, and what is read takes more of it. So each of the two is shown to
approximate the other with fuel to spare.
-/

import LoxLang.Proofs.Evaluation.Approximation
import LoxLang.Proofs.Evaluation.Binding
import LoxLang.Proofs.Evaluation.EmptyScope
import LoxLang.Proofs.Grammar.StatementSound

namespace LoxLang

/-- What a round of the loop that is read consists of. -/
def Stmt.withStep (step : Option Expr) (repeated : Stmt) : Stmt :=
  match step with
  | none => repeated
  | some step => .block [repeated, .expression step]

theorem Stmt.counting_none (condition step : Option Expr) (repeated : Stmt) :
    Stmt.counting none condition step repeated =
      .loop (condition.getD (.literal (.bool true))) (.withStep step repeated) := by
  cases step <;> rfl

theorem Stmt.counting_some (initial : Stmt) (condition step : Option Expr) (repeated : Stmt) :
    Stmt.counting (some initial) condition step repeated =
      .block [initial, .loop (condition.getD (.literal (.bool true))) (.withStep step repeated)] := by
  cases step <;> rfl

namespace Eval

open LoxLang.Action Machine

variable (limit : Option Nat)

/-! ## The direct loop -/

/-- The value of a condition. One that is absent holds. -/
def orTrue (fuel : Nat) : Option Expr → Action Value
  | none => Pure.pure (.bool true)
  | some condition => expression limit fuel condition

/-- Evaluate the step, if there is one. -/
def advance (fuel : Nat) : Option Expr → Action Unit
  | none => Pure.pure ()
  | some step => do
    let _ ← expression limit fuel step

/-- The rounds of a counting loop, all in the current scope. -/
def rounds (condition step : Option Expr) (repeated : Stmt) : Nat → Action Flow
  | 0 => .outOfFuel
  | fuel + 1 => do
    let holds ← orTrue limit fuel condition
    if holds.isTruthy then
      match ← statement limit fuel repeated with
      | .normal => do
        advance limit fuel step
        rounds condition step repeated fuel
      | .returned value => Pure.pure (.returned value)
    else Pure.pure .normal

/-- A counting loop. There is a scope of its own only for an initial part. -/
def counting (fuel : Nat) (clauses : Grammar.Clauses) (repeated : Stmt) : Action Flow :=
  match clauses.initial with
  | none => rounds limit clauses.condition clauses.step repeated fuel
  | some initial => .inBlock do
    let _ ← statement limit fuel initial
    rounds limit clauses.condition clauses.step repeated fuel

variable {limit} {fuel : Nat}

/-! ## One round -/

/-- One round: the body and then, unless it returned, the step. -/
def turn (limit : Option Nat) (fuel : Nat) (step : Option Expr) (repeated : Stmt) : Action Flow :=
  (statement limit fuel repeated).followedBy (advance limit fuel step >>= fun _ => Pure.pure .normal)

theorem rounds_succ (condition step : Option Expr) (repeated : Stmt) :
    rounds limit condition step repeated (fuel + 1) =
      orTrue limit fuel condition >>= fun holds =>
        if holds.isTruthy then
          (turn limit fuel step repeated).followedBy (rounds limit condition step repeated fuel)
        else Pure.pure .normal := by
  rw [rounds, turn, followedBy_bind]
  rfl

theorem keeps_advance (step : Option Expr) :
    framing.Keeps .evaluating (fun _ => True) (advance limit fuel step) := by
  cases step with
  | none => exact Discipline.keeps_pure trivial
  | some step =>
      exact ((framing.kept limit fuel).expression step).bind fun _ _ => Discipline.keeps_pure trivial

theorem keeps_turn (step : Option Expr) (repeated : Stmt) :
    framing.Keeps .executing framing.FitFlow (turn limit fuel step repeated) := by
  apply ((framing.kept limit fuel).statement repeated).bind
  intro flow hflow
  cases flow with
  | normal => exact (keeps_advance step).executing.bind fun _ _ => Discipline.keeps_pure trivial
  | returned value => exact Discipline.keeps_pure hflow

theorem turn_none (repeated : Stmt) :
    turn limit fuel none repeated = statement limit fuel repeated :=
  followedBy_normal _

theorem turn_some (step : Expr) (repeated : Stmt) :
    turn limit fuel (some step) repeated =
      (statement limit fuel repeated).followedBy
        (statement limit (fuel + 1) (.expression step)) := by
  rw [turn, advance, bind_bind, statement]
  rfl

/-- The block around body and step is not noticed. -/
theorem withStep_approximates {repeated : Stmt} (hrepeated : repeated.Contained)
    (step : Option Expr) :
    (statement limit fuel (.withStep step repeated)).Approximates
      (turn limit fuel step repeated) := by
  cases step with
  | none =>
      rw [turn_none]
      exact approximates_refl _
  | some step =>
      cases fuel with
      | zero =>
          rw [statement]
          exact approximates_outOfFuel _
      | succ fuel =>
          have hcontained : ∀ node ∈ [repeated, .expression step], node.Contained :=
            List.forall_mem_cons.mpr ⟨hrepeated, List.forall_mem_singleton.mpr trivial⟩
          have hblock : (statement limit (fuel + 1)
              (.block [repeated, .expression step])).Approximates
                (body limit fuel [repeated, .expression step]) :=
            approximates_of_eq fun machine hm => (block_of_contained hm hcontained).symm
          rw [turn_some]
          apply (hblock.trans (body_pair_approximates _ _)).trans
          exact (statement_approximates repeated (Nat.le_succ fuel)).followedBy
            ((framing.kept limit fuel).statement repeated)
            (statement_approximates _ (Nat.le_add_right fuel 2))

theorem approximates_withStep {repeated : Stmt} (hrepeated : repeated.Contained)
    (step : Option Expr) :
    (turn limit fuel step repeated).Approximates
      (statement limit (fuel + 4) (.withStep step repeated)) := by
  cases step with
  | none =>
      rw [turn_none]
      exact statement_approximates repeated (Nat.le_add_right fuel 4)
  | some step =>
      have hcontained : ∀ node ∈ [repeated, .expression step], node.Contained :=
        List.forall_mem_cons.mpr ⟨hrepeated, List.forall_mem_singleton.mpr trivial⟩
      have hblock : (body limit (fuel + 3) [repeated, .expression step]).Approximates
          (statement limit (fuel + 4) (.block [repeated, .expression step])) :=
        approximates_of_eq fun machine hm => block_of_contained hm hcontained
      rw [turn_some]
      refine Approximates.trans ?_ ((approximates_body_pair _ _).trans hblock)
      exact (statement_approximates repeated (Nat.le_succ fuel)).followedBy
        ((framing.kept limit fuel).statement repeated) (approximates_refl _)

/-! ## All rounds -/

theorem statement_loop (condition : Expr) (repeated : Stmt) :
    statement limit (fuel + 1) (.loop condition repeated) =
      expression limit fuel condition >>= fun holds =>
        if holds.isTruthy then
          (statement limit fuel repeated).followedBy
            (statement limit fuel (.loop condition repeated))
        else Pure.pure .normal := by
  rw [statement]
  rfl

theorem condition_approximates (condition : Option Expr) :
    (expression limit fuel (condition.getD (.literal (.bool true)))).Approximates
      (orTrue limit fuel condition) := by
  cases condition with
  | none =>
      cases fuel with
      | zero =>
          rw [expression]
          exact approximates_outOfFuel _
      | succ fuel =>
          show (expression limit (fuel + 1) (.literal (.bool true))).Approximates _
          rw [expression]
          exact approximates_refl _
  | some condition => exact approximates_refl _

theorem approximates_condition (condition : Option Expr) :
    (orTrue limit fuel condition).Approximates
      (expression limit (fuel + 1) (condition.getD (.literal (.bool true)))) := by
  cases condition with
  | none =>
      show Approximates _ (expression limit (fuel + 1) (.literal (.bool true)))
      rw [expression]
      exact approximates_refl _
  | some condition => exact expression_approximates condition (Nat.le_succ fuel)

theorem keeps_orTrue (condition : Option Expr) :
    framing.Keeps .evaluating Value.Closed (orTrue limit fuel condition) := by
  cases condition with
  | none => exact Discipline.keeps_pure trivial
  | some condition => exact (framing.kept limit fuel).expression condition

theorem loop_approximates {repeated : Stmt} (hrepeated : repeated.Contained)
    (condition step : Option Expr) (fuel : Nat) :
    (statement limit fuel (.loop (condition.getD (.literal (.bool true)))
      (.withStep step repeated))).Approximates (rounds limit condition step repeated fuel) := by
  induction fuel with
  | zero =>
      rw [statement]
      exact approximates_outOfFuel _
  | succ fuel ih =>
      rw [statement_loop, rounds_succ]
      apply (condition_approximates condition).bind ((framing.kept limit fuel).expression _)
      intro holds
      apply Approximates.ite _ (approximates_refl _)
      exact (withStep_approximates hrepeated step).followedBy
        ((framing.kept limit fuel).statement _) ih

theorem approximates_loop {repeated : Stmt} (hrepeated : repeated.Contained)
    (condition step : Option Expr) (fuel : Nat) :
    (rounds limit condition step repeated fuel).Approximates
      (statement limit (fuel + 4) (.loop (condition.getD (.literal (.bool true)))
        (.withStep step repeated))) := by
  induction fuel with
  | zero => exact approximates_outOfFuel _
  | succ fuel ih =>
      rw [statement_loop, rounds_succ]
      apply ((approximates_condition condition).trans
        (expression_approximates _ (Nat.le_add_right (fuel + 1) 3))).bind (keeps_orTrue condition)
      intro holds
      apply Approximates.ite _ (approximates_refl _)
      exact (approximates_withStep hrepeated step).followedBy (keeps_turn step repeated) ih

/-! ## The initial part -/

theorem followedBy_of_gives {action next : Action Flow} (h : Gives (· = .normal) action) :
    action.followedBy next = action >>= fun _ => next := by
  funext machine
  show Action.bind action _ machine = Action.bind action _ machine
  rw [Action.bind, Action.bind]
  rcases heq : action machine with ⟨flow | cause | _, after⟩
  · obtain rfl := h heq
    rfl
  · rfl
  · rfl

variable {clauses : Grammar.Clauses} {repeated : Stmt}

/-- What is read for the clauses and a body that declares no name ends as the direct loop. -/
theorem counting_approximates (hrepeated : repeated.Contained)
    (hinitial : ∀ node ∈ clauses.initial, node.Regular false) (fuel : Nat) :
    (statement limit fuel (.counting clauses.initial clauses.condition clauses.step
      repeated)).Approximates (counting limit fuel clauses repeated) := by
  obtain ⟨initial, condition, step⟩ := clauses
  cases initial with
  | none =>
      rw [Stmt.counting_none]
      exact loop_approximates hrepeated condition step fuel
  | some initial =>
      rw [Stmt.counting_some]
      cases fuel with
      | zero =>
          rw [statement]
          exact approximates_outOfFuel _
      | succ fuel =>
          have hgives : Gives (· = .normal) (statement limit (fuel + 1) initial) :=
            (gives_normal limit (fuel + 1)).1 (hinitial initial rfl)
          have hsequence : ((statement limit fuel initial).followedBy (statement limit fuel
              (.loop (condition.getD (.literal (.bool true))) (.withStep step repeated)))).Approximates
                ((statement limit (fuel + 1) initial).followedBy
                  (rounds limit condition step repeated (fuel + 1))) :=
            (statement_approximates initial (Nat.le_succ fuel)).followedBy
              ((framing.kept limit fuel).statement initial)
              ((statement_approximates _ (Nat.le_succ fuel)).trans
                (loop_approximates hrepeated condition step (fuel + 1)))
          rw [followedBy_of_gives hgives] at hsequence
          rw [statement]
          exact ((body_pair_approximates initial _).trans hsequence).inBlock

theorem approximates_counting (hrepeated : repeated.Contained)
    (hinitial : ∀ node ∈ clauses.initial, node.Regular false) (fuel : Nat) :
    (counting limit fuel clauses repeated).Approximates
      (statement limit (fuel + 7) (.counting clauses.initial clauses.condition clauses.step
        repeated)) := by
  obtain ⟨initial, condition, step⟩ := clauses
  cases initial with
  | none =>
      rw [Stmt.counting_none]
      exact (approximates_loop hrepeated condition step fuel).trans
        (statement_approximates _ (Nat.le_add_right (fuel + 4) 3))
  | some initial =>
      have hgives : Gives (· = .normal) (statement limit fuel initial) :=
        (gives_normal limit fuel).1 (hinitial initial rfl)
      have hbody := ((statement_approximates initial (Nat.le_add_right fuel 4)).followedBy
        ((framing.kept limit fuel).statement initial)
        (approximates_loop hrepeated condition step fuel)).trans (approximates_body_pair _ _)
      rw [followedBy_of_gives hgives] at hbody
      rw [Stmt.counting_some, statement]
      exact hbody.inBlock

/-! ## Names bound afterwards -/

/-- A statement that declares no name in the current scope binds none in any scope, however
it ends. -/
theorem boundAt_of_contained {machine : Machine} (hm : machine.Standing) {node : Stmt}
    (hcontained : node.Contained) (fuel : Nat) (scope : ScopeId) :
    (statement limit fuel node machine).2.environment.boundAt scope =
      machine.environment.boundAt scope := by
  cases fuel with
  | zero =>
      rw [statement]
      rfl
  | succ fuel =>
      have halone : statement limit (fuel + 3) (.block [node]) machine =
          statement limit (fuel + 1) node machine := by
        rw [block_of_contained hm (List.forall_mem_singleton.mpr hcontained), body_cons, body,
          followedBy_normal]
      have hblock := ((naming.kept limit (fuel + 2)).body [node]).inBlock machine
        hm.wellFormed.current_live
      rw [← halone, statement]
      exact hblock.2.1.boundAt (.inl rfl)

end Eval

/-! ## Loops that are read -/

namespace Grammar

variable {eof word : Token} {inside : Bool} {tokens rest : List Token} {node : Stmt}
  {reading : Reading}

theorem contained_unrolled {initial : Option Stmt} {condition step : Option Expr} {body : Stmt}
    (hbody : body.Contained) : (unrolled initial condition step body).Contained := by
  cases initial with
  | none =>
      cases step with
      | none => exact hbody
      | some step => trivial
  | some initial => trivial

/-- No statement declares a name in the scope that it stands in, only a declaration does. -/
theorem Statement.contained {ended : Bool} {node : Stmt}
    (h : Statement reading inside ended tokens node) : node.Contained := by
  -- what a block declares it declares in its own scope, so nothing is asked of declarations
  induction h using @Statement.rec reading _ (fun _ _ _ _ => True) (fun _ _ _ _ => True) with
  | loop _ _ _ hbody => exact hbody
  | counting _ _ _ hbody => exact contained_unrolled hbody
  | branch _ _ _ hconsequent => exact hconsequent
  | branchElse _ _ _ _ _ hconsequent halternative => exact ⟨hconsequent, halternative⟩
  | _ => trivial

theorem contained_of_statement {left : rest.length + true.toNat ≤ tokens.length}
    (h : statement eof inside tokens = .ok node rest [] left) : node.Contained := by
  have hsound : (statement eof inside tokens).Sound .strict (IsStatement .strict inside) :=
    (sound_statementRules eof).2.1 inside tokens
  rw [h] at hsound
  obtain ⟨_, _, _, hderived, _⟩ := hsound rfl
  exact hderived.contained

theorem regular_of_clauses {clauses : Clauses} {left : rest.length + true.toNat ≤ tokens.length}
    (h : Grammar.clauses eof tokens = .ok clauses rest [] left) :
    ∀ node ∈ clauses.initial, node.Regular false := by
  have hsound : (Grammar.clauses eof tokens).Sound .strict fun used parts _ =>
      Parts .strict used parts.initial parts.condition parts.step := sound_clauses eof
  rw [h] at hsound
  obtain ⟨_, _, hparts⟩ := hsound rfl
  generalize clauses.initial = initial at hparts
  cases hparts with
  | intro _ hinitial _ _ _ _ => exact hinitial.regular

/-- A statement that starts with the word of a counting loop is its clauses and then its
body, put together. -/
theorem counting_of_statement {left : rest.length + true.toNat ≤ (word :: tokens).length}
    (hword : word.kind = .keyword .for)
    (h : statement eof inside (word :: tokens) = .ok node rest [] left) :
    ∃ clauses middle repeated,
      (∃ left, Grammar.clauses eof tokens = .ok clauses middle [] left) ∧
      (∃ left, statement eof inside middle = .ok repeated rest [] left) ∧
      node = .counting clauses.initial clauses.condition clauses.step repeated := by
  rw [statement] at h
  simp only [hword] at h
  rw [countingLoop] at h
  rcases hclauses : Grammar.clauses eof tokens with ⟨clauses, middle, early, hmiddle⟩ | _
  · rw [hclauses] at h
    rcases hbody : statement eof inside middle with ⟨repeated, unread, later, hunread⟩ | _
    · simp only [Attempt.andThen, hbody, Attempt.map, Attempt.afterToken, Attempt.ok.injEq] at h
      obtain ⟨rfl, rfl, herrors⟩ := h
      obtain ⟨rfl, rfl⟩ := List.append_eq_nil_iff.mp herrors
      exact ⟨clauses, middle, repeated, ⟨hmiddle, rfl⟩, ⟨hunread, hbody⟩, rfl⟩
    · simp [Attempt.andThen, hbody, Attempt.map, Attempt.afterToken] at h
  · rw [hclauses] at h
    cases h

end Grammar

namespace Eval

open LoxLang.Action Machine

variable {eof word : Token} {inside : Bool} {tokens rest : List Token} {node : Stmt}

/-- A statement that is read from the word of a counting loop, its clauses and a body ends
exactly if the direct loop over these ends, on every machine that is well formed and whose
scopes lead outwards to the global one. It ends with the same result or fault and leaves the
same machine. Afterwards no scope binds a name that it did not bind before, and so the
variable of the loop is gone. -/
theorem ends_iff_counting (limit : Option Nat) (hword : word.kind = .keyword .for)
    {left : rest.length + true.toNat ≤ (word :: tokens).length}
    (hread : Grammar.statement eof inside (word :: tokens) = .ok node rest [] left) :
    ∃ clauses middle repeated,
      (∃ left, Grammar.clauses eof tokens = .ok clauses middle [] left) ∧
      (∃ left, Grammar.statement eof inside middle = .ok repeated rest [] left) ∧
      ∀ machine : Machine, machine.Standing →
        (∀ result after, (∃ fuel, statement limit fuel node machine = (.ofResult result, after)) ↔
          ∃ fuel, counting limit fuel clauses repeated machine = (.ofResult result, after)) ∧
        ∀ fuel scope, (statement limit fuel node machine).2.environment.boundAt scope =
          machine.environment.boundAt scope := by
  obtain ⟨clauses, middle, repeated, ⟨hmiddle, hclauses⟩, ⟨hrest, hrepeated⟩, rfl⟩ :=
    Grammar.counting_of_statement hword hread
  have hcontained : repeated.Contained := Grammar.contained_of_statement hrepeated
  have hinitial : ∀ node ∈ clauses.initial, node.Regular false :=
    Grammar.regular_of_clauses hclauses
  refine ⟨clauses, middle, repeated, ⟨hmiddle, hclauses⟩, ⟨hrest, hrepeated⟩, ?_⟩
  intro machine hm
  refine ⟨fun result after => ⟨?_, ?_⟩, ?_⟩
  · rintro ⟨fuel, heq⟩
    exact ⟨fuel, (counting_approximates hcontained hinitial fuel).ends hm heq⟩
  · rintro ⟨fuel, heq⟩
    exact ⟨fuel + 7, (approximates_counting hcontained hinitial fuel).ends hm heq⟩
  · exact boundAt_of_contained hm (Grammar.contained_of_statement hread)

/-- The loop `for (var a; a; a) a;` ends at once, and leaves no `a`. -/
theorem ends_iff_counting_once : ∃ clauses repeated fuel after,
    counting (some maxCallDepth) fuel clauses repeated (.start (.ticking 0) .unlimited) =
        (.ofResult (.ok .normal), after) ∧
      after.environment.boundAt .global = ["clock"] := by
  have hread : Grammar.statement (Token.eof 1) false
      [⟨.keyword .for, "for", none, 1⟩, ⟨.leftParen, "(", none, 1⟩, ⟨.keyword .var, "var", none, 1⟩,
        ⟨.identifier, "a", none, 1⟩, ⟨.semicolon, ";", none, 1⟩, ⟨.identifier, "a", none, 1⟩,
        ⟨.semicolon, ";", none, 1⟩, ⟨.identifier, "a", none, 1⟩, ⟨.rightParen, ")", none, 1⟩,
        ⟨.identifier, "a", none, 1⟩, ⟨.semicolon, ";", none, 1⟩] =
      .ok (.block [.var ⟨.identifier, "a", none, 1⟩ none,
        .loop (.variable ⟨.identifier, "a", none, 1⟩)
          (.block [.expression (.variable ⟨.identifier, "a", none, 1⟩),
            .expression (.variable ⟨.identifier, "a", none, 1⟩)])]) [] [] (by decide) := by
    cbv
  obtain ⟨clauses, _, repeated, _, _, hloop⟩ := ends_iff_counting (some maxCallDepth) rfl hread
  obtain ⟨hends, hbound⟩ :=
    hloop (.start (.ticking 0) .unlimited) (standing_start (.ticking 0) .unlimited)
  obtain ⟨after, hafter⟩ : ∃ after, statement (some maxCallDepth) 9
      (.block [.var ⟨.identifier, "a", none, 1⟩ none,
        .loop (.variable ⟨.identifier, "a", none, 1⟩)
          (.block [.expression (.variable ⟨.identifier, "a", none, 1⟩),
            .expression (.variable ⟨.identifier, "a", none, 1⟩)])])
      (.start (.ticking 0) .unlimited) = (.ofResult (.ok .normal), after) := ⟨_, rfl⟩
  obtain ⟨fuel, hcounting⟩ := (hends (.ok .normal) after).mp ⟨9, hafter⟩
  have hnames := hbound 9 .global
  rw [hafter] at hnames
  exact ⟨clauses, repeated, fuel, after, hcounting, hnames⟩

end Eval

end LoxLang
