import Horizon.Verif.AmlExecutor

/-!
# Which method bodies the executor carries out

By induction on the derivations: an execution of `Handled` is carried out with enough fuel
(`handled_completes`), and every execution of `Big` either is one of `Handled` or makes the executor
stop (`big_handled_or_fails`). Both are stated for a `While` over `whileRounds` and for any other
statement over `execute`.
-/

namespace Horizon.Aml

variable {scope : Scope} {memory final : Memory} {flow : Flow} {block : Block}

/-- With enough fuel, `execute` on the bytecode of `block` ends as `flow` in `final`. -/
def ExecuteEnds (scope : Scope) (block : Block) (memory : Memory) (flow : Flow)
    (final : Memory) : Prop :=
  ∃ enough, ∀ fuel, enough ≤ fuel → ∃ result,
    execute fuel (scope.context memory.objects) block.encode
        = .ok (result, scope.context final.objects)
      ∧ SameFlow (scope.context final.objects) flow result

/-- The rounds of a loop, with enough fuel and enough rounds, end in a `Return`. -/
def RoundsEnd (scope : Scope) (payload : Bytecode) (memory : Memory) (flow : Flow)
    (final : Memory) : Prop :=
  ∃ enough, ∀ fuel rounds, enough ≤ fuel → enough ≤ rounds → ∃ data,
    whileRounds (evaluateInteger fuel) (execute fuel) payload rounds
        (scope.context memory.objects)
      = .ok (.leave (.returned data), scope.context final.objects)
      ∧ SameFlow (scope.context final.objects) flow (.leave (.returned data))

/-- `block` is carried out; a loop, in its rounds. -/
def Completes (scope : Scope) (block : Block) (memory : Memory) (flow : Flow)
    (final : Memory) : Prop :=
  match block with
  | .whileLoop predicate body _ =>
    RoundsEnd scope (predicate.encode ++ body.encode) memory flow final
  | block => ExecuteEnds scope block memory flow final

variable {ctx : Context} {result : ControlFlow}

theorem executeEnds_succ (enough : Nat)
    (ends : ∀ fuel, enough ≤ fuel → ∃ result, execute (fuel + 1) (scope.context memory.objects)
      block.encode = .ok (result, scope.context final.objects) ∧
      SameFlow (scope.context final.objects) flow result) :
    ExecuteEnds scope block memory flow final := by
  refine ⟨enough + 1, fun fuel above => ?_⟩
  obtain ⟨below, rfl⟩ : ∃ below, fuel = below + 1 := ⟨fuel - 1, by omega⟩
  exact ends below (by omega)

theorem Completes.execute (completes : Completes scope block memory flow final) :
    ExecuteEnds scope block memory flow final := by
  cases block with
  | whileLoop predicate body rest =>
    obtain ⟨enough, ends⟩ := completes
    apply executeEnds_succ enough
    intro fuel above
    obtain ⟨data, rounds, same⟩ := ends fuel fuel above above
    refine ⟨.leave (.returned data), ?_, same⟩
    rw [execute_while, rounds]
    rfl
  | _ => exact completes

theorem sameFlow_returned {value : Object} (same : SameFlow ctx (.returned value) result) :
    ∃ data, result = .leave (.returned data) ∧ data.read ctx = value := by
  rcases result with _ | _ | _ | _
  case leave.returned data => exact ⟨data, rfl, same⟩
  all_goals exact absurd same id

theorem sameFlow_continued (same : SameFlow ctx .continued result) :
    result = .leave .continued := by
  rcases result with _ | _ | _ | _
  case leave.continued => rfl
  all_goals exact absurd same id

theorem sameFlow_broken (same : SameFlow ctx .broken result) : result = .leave .broken := by
  rcases result with _ | _ | _ | _
  case leave.broken => rfl
  all_goals exact absurd same id

/-- The executor can read `predicate`, as `n`. -/
structure Reads (scope : Scope) (memory : Memory) (predicate : Term) (n : Nat) : Prop where
  handled : predicate.handled = true
  wellFormed : predicate.WellFormed
  denotes : predicate.integer scope memory = some n

variable {predicate : Term} {n : Nat}

theorem Reads.gives (reads : Reads scope memory predicate n) :
    Gives (evaluateInteger · (scope.context memory.objects)) predicate.encode n :=
  evaluateInteger_handled predicate reads.handled reads.wellFormed reads.denotes

/-- With enough fuel, executing `block` goes on with `rest` in the memory `after`. -/
def GoesOn (scope : Scope) (block rest : Block) (memory after : Memory) : Prop :=
  ∃ enough, ∀ fuel, enough ≤ fuel →
    execute (fuel + 1) (scope.context memory.objects) block.encode =
      execute fuel (scope.context after.objects) rest.encode

variable {branch elseBlock rest thenBlock : Block} {after stored : Memory} {value : Object}
  {target : Target}

theorem GoesOn.ends (goesOn : GoesOn scope block rest memory after)
    (ends : ExecuteEnds scope rest after flow final) :
    ExecuteEnds scope block memory flow final := by
  obtain ⟨enough, steps⟩ := goesOn
  obtain ⟨enoughRest, ends⟩ := ends
  refine executeEnds_succ (max enough enoughRest) fun fuel above => ?_
  rw [steps fuel (by omega)]
  exact ends fuel (by omega)

theorem GoesOn.stops (goesOn : GoesOn scope block rest memory after)
    (stops : ExecuteStops scope rest after) : ExecuteStops scope block memory := by
  obtain ⟨enough, steps⟩ := goesOn
  obtain ⟨enoughRest, stops⟩ := stops
  refine executeStops_succ (max enough enoughRest) fun fuel above => ?_
  rw [steps fuel (by omega)]
  exact stops fuel (by omega)

theorem store_goesOn {source : Term} (rest : Block) (sourceHandled : source.handled = true)
    (targetHandled : target.handled = true) (sourceWellFormed : source.WellFormed)
    (targetWellFormed : target.WellFormed) (denotes : source.value scope memory = some value)
    (written : target.write scope memory value = some stored) (noLocals : memory.NoLocals) :
    stored.NoLocals ∧ GoesOn scope (.store source target rest) rest memory stored := by
  obtain ⟨sameLocals, enough, stores⟩ := executeStore_handled sourceHandled targetHandled
    sourceWellFormed targetWellFormed denotes written
  refine ⟨sameLocals.trans noLocals, enough, fun fuel above => ?_⟩
  have storing := stores fuel above
  dsimp only at storing
  rw [execute_store, ← List.append_assoc, storing]
  rfl

theorem incDec_goesOn {up : Bool} (rest : Block) (handled : target.handled = true)
    (wellFormed : target.WellFormed) (holds : target.read scope memory = some value)
    (written : target.write scope memory (value.incDec up) = some stored)
    (noLocals : memory.NoLocals) :
    stored.NoLocals ∧ GoesOn scope (.incDec up target rest) rest memory stored := by
  obtain ⟨sameLocals, steps⟩ := executeIncDec_handled handled wellFormed holds written rest.encode
  refine ⟨sameLocals.trans noLocals, 0, fun fuel _ => ?_⟩
  rw [execute_incDec, steps]
  rfl

theorem ifThen_goesOn (thenBlock rest : Block) (reads : Reads scope memory predicate 0) :
    GoesOn scope (.ifThen predicate thenBlock rest) rest memory memory := by
  obtain ⟨enough, runs⟩ := reads.gives
  refine ⟨enough, fun fuel above => ?_⟩
  rw [Block.encode, execute_if, executeIfElse_package (execute fuel) thenBlock.encode rest.encode
    (runs fuel above _), executeElse_rest, if_pos rfl]
  rfl

/-- With enough fuel, executing the `If` in `block` executes `branch` and then what is behind. -/
def Branches (scope : Scope) (block branch rest : Block) (memory : Memory) : Prop :=
  ∃ enough, ∀ fuel, enough ≤ fuel →
    execute (fuel + 1) (scope.context memory.objects) block.encode = (do
      let outcome ← execute fuel (scope.context memory.objects) branch.encode
      afterIf fuel (outcome.1, outcome.2, rest.encode))

theorem ifThen_branches (thenBlock rest : Block) (reads : Reads scope memory predicate n)
    (nonzero : n ≠ 0) :
    Branches scope (.ifThen predicate thenBlock rest) thenBlock rest memory := by
  obtain ⟨enough, runs⟩ := reads.gives
  refine ⟨enough, fun fuel above => ?_⟩
  rw [Block.encode, execute_if, executeIfElse_package (execute fuel) thenBlock.encode rest.encode
    (runs fuel above _), if_neg nonzero]
  cases execute fuel (scope.context memory.objects) thenBlock.encode with
  | error stop => rfl
  | ok outcome =>
    change (executeElse (execute fuel) true outcome.1 outcome.2 rest.encode >>= afterIf fuel) = _
    rw [executeElse_rest]
    rfl

theorem ifElse_branches (thenBlock elseBlock rest : Block)
    (reads : Reads scope memory predicate n) :
    Branches scope (.ifElse predicate thenBlock elseBlock rest)
      (if n = 0 then elseBlock else thenBlock) rest memory := by
  obtain ⟨enough, runs⟩ := reads.gives
  refine ⟨enough, fun fuel above => ?_⟩
  rw [Block.encode, execute_if, executeIfElse_package (execute fuel) thenBlock.encode _
    (runs fuel above _)]
  by_cases zero : n = 0
  · rw [if_pos zero, if_pos zero, executeElse_else]
    cases execute fuel (scope.context memory.objects) elseBlock.encode with
    | error | ok => rfl
  · rw [if_neg zero, if_neg zero]
    cases execute fuel (scope.context memory.objects) thenBlock.encode with
    | error stop => rfl
    | ok outcome =>
      change (executeElse (execute fuel) true outcome.1 outcome.2
        (0xA1 :: (package elseBlock.encode ++ rest.encode)) >>= afterIf fuel) = _
      rw [executeElse_else]
      rfl

theorem ifElse_branch_wellFormed (n : Nat)
    (wellFormed : (Block.ifElse predicate thenBlock elseBlock rest).WellFormed) :
    (if n = 0 then elseBlock else thenBlock).WellFormed := by
  split
  · exact wellFormed.2.2.1
  · exact wellFormed.2.1

theorem Branches.returned (branches : Branches scope block branch rest memory)
    (ends : ExecuteEnds scope branch memory (.returned value) final) :
    ExecuteEnds scope block memory (.returned value) final := by
  obtain ⟨enough, steps⟩ := branches
  obtain ⟨enoughBranch, ends⟩ := ends
  refine executeEnds_succ (max enough enoughBranch) fun fuel above => ?_
  obtain ⟨result, executed, same⟩ := ends fuel (by omega)
  obtain ⟨data, isReturn, _⟩ := sameFlow_returned same
  refine ⟨result, ?_, same⟩
  rw [steps fuel (by omega), executed, isReturn]
  rfl

/-- What a loop does with the result of a round, `again` being its next rounds. -/
def afterRound (again : Context → Executed) : ControlFlow × Context → Executed
  | (.leave .continued, ctx) => again ctx
  | (.leave .broken, ctx) => .ok (.proceed, ctx)
  | (.leave (.returned value), ctx) => .ok (.leave (.returned value), ctx)
  | (.proceed, ctx) => again ctx

theorem whileRounds_succ (body : Block) (reads : Reads scope memory predicate n) (nonzero : n ≠ 0) :
    ∃ enough, ∀ fuel, enough ≤ fuel → ∀ rounds,
      whileRounds (evaluateInteger fuel) (execute fuel) (predicate.encode ++ body.encode)
          (rounds + 1) (scope.context memory.objects) =
        (execute fuel (scope.context memory.objects) body.encode >>= afterRound
          (whileRounds (evaluateInteger fuel) (execute fuel) (predicate.encode ++ body.encode)
            rounds)) := by
  obtain ⟨enough, runs⟩ := reads.gives
  refine ⟨enough, fun fuel above rounds => ?_⟩
  have read := runs fuel above body.encode
  dsimp only at read
  rw [whileRounds, read]
  change (if n = 0 then _ else _) = _
  rw [if_neg nonzero]
  cases execute fuel (scope.context memory.objects) body.encode with
  | error stop => rfl
  | ok outcome =>
    obtain ⟨result, ctx⟩ := outcome
    cases result with
    | proceed => rfl
    | leave kind => cases kind <;> rfl

theorem handled_completes (run : Handled scope block memory flow final)
    (wellFormed : block.WellFormed) (noLocals : memory.NoLocals) :
    final.NoLocals ∧ Completes scope block memory flow final := by
  induction run with
  | @store _ _ rest _ _ _ _ _ sourceHandled targetHandled denotes written _ ih =>
    obtain ⟨storedLocals, goesOn⟩ := store_goesOn rest sourceHandled targetHandled wellFormed.1
      wellFormed.2.1 denotes written noLocals
    obtain ⟨finalLocals, completes⟩ := ih wellFormed.2.2 storedLocals
    exact ⟨finalLocals, goesOn.ends completes.execute⟩
  | @incDec _ _ rest _ _ _ _ _ handled holds written _ ih =>
    obtain ⟨storedLocals, goesOn⟩ := incDec_goesOn rest handled wellFormed.1 holds written noLocals
    obtain ⟨finalLocals, completes⟩ := ih wellFormed.2 storedLocals
    exact ⟨finalLocals, goesOn.ends completes.execute⟩
  | @ifThenSkipped _ thenBlock rest _ _ _ handled denotes _ ih =>
    obtain ⟨finalLocals, completes⟩ := ih wellFormed.2.2.1 noLocals
    exact ⟨finalLocals,
      (ifThen_goesOn thenBlock rest ⟨handled, wellFormed.1, denotes⟩).ends completes.execute⟩
  | @ifThenReturned _ thenBlock rest _ _ _ _ handled denotes nonzero _ ih =>
    obtain ⟨finalLocals, completes⟩ := ih wellFormed.2.1 noLocals
    have branches := ifThen_branches thenBlock rest ⟨handled, wellFormed.1, denotes⟩ nonzero
    exact ⟨finalLocals, branches.returned completes.execute⟩
  | @ifElseReturned _ thenBlock elseBlock rest _ n _ _ handled denotes _ ih =>
    obtain ⟨finalLocals, completes⟩ := ih (ifElse_branch_wellFormed n wellFormed) noLocals
    have branches := ifElse_branches thenBlock elseBlock rest ⟨handled, wellFormed.1, denotes⟩
    exact ⟨finalLocals, branches.returned completes.execute⟩
  | @whileNext _ body _ _ _ _ _ _ handled denotes nonzero _ _ bodyIh ih =>
    obtain ⟨betweenLocals, bodyCompletes⟩ := bodyIh wellFormed.2.1 noLocals
    obtain ⟨finalLocals, enoughRest, roundsEnd⟩ := ih wellFormed betweenLocals
    obtain ⟨enoughBody, ends⟩ := bodyCompletes.execute
    obtain ⟨enoughRead, round⟩ := whileRounds_succ body ⟨handled, wellFormed.1, denotes⟩ nonzero
    -- one more round than the rest of the loop needs
    refine ⟨finalLocals, max (max enoughRest enoughBody) enoughRead + 1,
      fun fuel rounds fuelAbove roundsAbove => ?_⟩
    obtain ⟨below, rfl⟩ : ∃ below, rounds = below + 1 := ⟨rounds - 1, by omega⟩
    obtain ⟨result, executed, same⟩ := ends fuel (by omega)
    rw [round fuel (by omega), executed, sameFlow_continued same]
    exact roundsEnd fuel below (by omega) (by omega)
  | @whileReturned _ body _ _ _ _ _ handled denotes nonzero _ ih =>
    obtain ⟨finalLocals, completes⟩ := ih wellFormed.2.1 noLocals
    obtain ⟨enoughBody, ends⟩ := completes.execute
    obtain ⟨enoughRead, round⟩ := whileRounds_succ body ⟨handled, wellFormed.1, denotes⟩ nonzero
    refine ⟨finalLocals, max enoughBody enoughRead + 1, fun fuel rounds fuelAbove roundsAbove => ?_⟩
    obtain ⟨below, rfl⟩ : ∃ below, rounds = below + 1 := ⟨rounds - 1, by omega⟩
    obtain ⟨result, executed, same⟩ := ends fuel (by omega)
    obtain ⟨data, isReturn, _⟩ := sameFlow_returned same
    rw [isReturn] at same executed
    rw [round fuel (by omega), executed]
    exact ⟨data, rfl, same⟩
  | returned handled denotes =>
    obtain ⟨data, readsValue, enough, reads⟩ :=
      evaluateSource_handled _ handled wellFormed.1 denotes
    refine ⟨noLocals, executeEnds_succ enough fun fuel above => ?_⟩
    have read := reads fuel above
    refine ⟨.leave (.returned data), ?_, readsValue⟩
    dsimp only at read
    rw [execute_returned, read]
    rfl
  | broken => exact ⟨noLocals, executeEnds_succ 0 fun _ _ => ⟨.leave .broken, rfl, trivial⟩⟩
  | continued => exact ⟨noLocals, executeEnds_succ 0 fun _ _ => ⟨.leave .continued, rfl, trivial⟩⟩

/-- The rounds of a loop, with enough fuel and enough rounds, end without a result or leave the
loop for the statements behind it. -/
def RoundsFail (scope : Scope) (payload : Bytecode) (memory : Memory) : Prop :=
  ∃ enough, ∀ fuel rounds, enough ≤ fuel → enough ≤ rounds → ∀ result ctx,
    whileRounds (evaluateInteger fuel) (execute fuel) payload rounds
        (scope.context memory.objects) = .ok (result, ctx) → result = .proceed

/-- `block` is given up; a loop, in its rounds or behind them. -/
def Fails (scope : Scope) (block : Block) (memory : Memory) : Prop :=
  match block with
  | .whileLoop predicate body _ => RoundsFail scope (predicate.encode ++ body.encode) memory
  | block => ExecuteStops scope block memory

theorem Fails.execute (fails : Fails scope block memory) : ExecuteStops scope block memory := by
  cases block with
  | whileLoop predicate body rest =>
    obtain ⟨enough, proceeds⟩ := fails
    apply executeStops_succ enough
    intro fuel above
    have leaves := proceeds fuel fuel above above
    rw [execute_while]
    cases rounds : whileRounds (evaluateInteger fuel) (Aml.execute fuel)
        (predicate.encode ++ body.encode) fuel (scope.context memory.objects) with
    | error stop => exact stops_error stop
    | ok outcome =>
      have proceed := leaves outcome.1 outcome.2 rounds
      change Stops (afterWhile fuel (outcome.1, outcome.2))
      rw [proceed]
      exact execute_nil fuel outcome.2
  | _ => exact fails

theorem handled_ne_normal (run : Handled scope block memory flow final) : flow ≠ .normal := by
  induction run with
  | store _ _ _ _ _ ih | incDec _ _ _ _ ih | ifThenSkipped _ _ _ ih
  | whileNext _ _ _ _ _ _ ih => exact ih
  | _ => exact Flow.noConfusion

theorem afterIf_stops {fuel : Nat} (behind : Bytecode)
    (left : flow = .broken ∨ flow = .continued) (same : SameFlow ctx flow result) :
    Stops (afterIf fuel (result, ctx, behind)) := by
  rcases left with rfl | rfl
  · rw [sameFlow_broken same]
    exact stops_error _
  · rw [sameFlow_continued same]
    exact stops_error _

theorem Branches.handled_or_stops (branches : Branches scope block branch rest memory)
    (wellFormed : branch.WellFormed) (noLocals : memory.NoLocals)
    (given : Handled scope branch memory flow final ∨ Fails scope branch memory) :
    (∃ value, flow = .returned value ∧ Handled scope branch memory flow final)
      ∨ ExecuteStops scope block memory := by
  obtain ⟨enough, steps⟩ := branches
  cases given with
  | inr fails =>
    obtain ⟨enoughBranch, stops⟩ := fails.execute
    refine .inr (executeStops_succ (max enough enoughBranch) fun fuel above => ?_)
    rw [steps fuel (by omega)]
    exact Stops.bind _ (stops fuel (by omega))
  | inl handled =>
    obtain ⟨_, completes⟩ := handled_completes handled wellFormed noLocals
    obtain ⟨enoughBranch, ends⟩ := completes.execute
    cases flow with
    | normal => exact absurd rfl (handled_ne_normal handled)
    | returned value => exact .inl ⟨value, rfl, handled⟩
    | broken | continued =>
      refine .inr (executeStops_succ (max enough enoughBranch) fun fuel above => ?_)
      obtain ⟨result, executed, same⟩ := ends fuel (by omega)
      rw [steps fuel (by omega), executed]
      exact afterIf_stops rest.encode (by simp) same

theorem ifElse_handled_or_fails
    (wellFormed : (Block.ifElse predicate thenBlock elseBlock rest).WellFormed)
    (noLocals : memory.NoLocals) (denotes : predicate.integer scope memory = some n)
    (branchIh : (if n = 0 then elseBlock else thenBlock).WellFormed → memory.NoLocals →
      Handled scope (if n = 0 then elseBlock else thenBlock) memory flow final ∨
      Fails scope (if n = 0 then elseBlock else thenBlock) memory) :
    (flow ≠ .normal ∧ Handled scope (.ifElse predicate thenBlock elseBlock rest) memory flow final)
      ∨ ExecuteStops scope (.ifElse predicate thenBlock elseBlock rest) memory := by
  cases predicateHandled : predicate.handled with
  | false => exact .inr (if_predicate_unhandled rfl predicateHandled wellFormed.1 denotes)
  | true =>
    have branchWellFormed := ifElse_branch_wellFormed n wellFormed
    have branches :=
      ifElse_branches thenBlock elseBlock rest ⟨predicateHandled, wellFormed.1, denotes⟩
    cases branches.handled_or_stops branchWellFormed noLocals
        (branchIh branchWellFormed noLocals) with
    | inl returned =>
      obtain ⟨value, rfl, handled⟩ := returned
      exact .inl ⟨Flow.noConfusion, .ifElseReturned predicateHandled denotes handled⟩
    | inr stops => exact .inr stops

theorem roundsFail_succ {payload : Bytecode} (enough : Nat)
    (fails : ∀ fuel rounds, enough ≤ fuel → enough ≤ rounds →
      ∀ result ctx, whileRounds (evaluateInteger fuel) (execute fuel) payload (rounds + 1)
      (scope.context memory.objects) = .ok (result, ctx) → result = .proceed) :
    RoundsFail scope payload memory := by
  refine ⟨enough + 1, fun fuel rounds fuelAbove roundsAbove => ?_⟩
  obtain ⟨below, rfl⟩ : ∃ below, rounds = below + 1 := ⟨rounds - 1, by omega⟩
  exact fails fuel below (by omega) (by omega)

theorem rounds_predicate_unhandled (body : Bytecode) (unhandled : predicate.handled = false)
    (wellFormed : predicate.WellFormed) (denotes : predicate.integer scope memory = some n) :
    RoundsFail scope (predicate.encode ++ body) memory := by
  obtain ⟨enough, stops⟩ := evaluateInteger_unhandled predicate unhandled wellFormed denotes
  refine roundsFail_succ enough fun fuel rounds above _ result ctx ended => ?_
  obtain ⟨stop, failed⟩ := stops fuel above body
  dsimp only at failed
  rw [whileRounds, failed] at ended
  cases ended

theorem rounds_done (body : Bytecode) (reads : Reads scope memory predicate 0) :
    RoundsFail scope (predicate.encode ++ body) memory := by
  obtain ⟨enough, runs⟩ := reads.gives
  refine roundsFail_succ enough fun fuel rounds above _ result ctx ended => ?_
  have read := runs fuel above body
  dsimp only at read
  rw [whileRounds, read] at ended
  cases ended
  rfl

theorem rounds_body_fails {body : Block} (reads : Reads scope memory predicate n)
    (nonzero : n ≠ 0) (fails : Fails scope body memory) :
    RoundsFail scope (predicate.encode ++ body.encode) memory := by
  obtain ⟨enoughRead, round⟩ := whileRounds_succ body reads nonzero
  obtain ⟨enoughBody, stops⟩ := fails.execute
  refine roundsFail_succ (max enoughRead enoughBody) fun fuel rounds above _ result ctx ended => ?_
  obtain ⟨stop, failed⟩ := stops fuel (by omega)
  rw [round fuel (by omega), failed] at ended
  cases ended

section

variable {body : Block} {between : Memory} (reads : Reads scope memory predicate n)
  (nonzero : n ≠ 0)
include reads nonzero

theorem rounds_broken (completes : Completes scope body memory .broken between) :
    RoundsFail scope (predicate.encode ++ body.encode) memory := by
  obtain ⟨enoughRead, round⟩ := whileRounds_succ body reads nonzero
  obtain ⟨enoughBody, ends⟩ := completes.execute
  refine roundsFail_succ (max enoughRead enoughBody) fun fuel rounds above _ result ctx ended => ?_
  obtain ⟨end_, executed, same⟩ := ends fuel (by omega)
  rw [round fuel (by omega), executed, sameFlow_broken same] at ended
  cases ended
  rfl

theorem rounds_next (completes : Completes scope body memory .continued between)
    (fails : RoundsFail scope (predicate.encode ++ body.encode) between) :
    RoundsFail scope (predicate.encode ++ body.encode) memory := by
  obtain ⟨enoughRead, round⟩ := whileRounds_succ body reads nonzero
  obtain ⟨enoughBody, ends⟩ := completes.execute
  obtain ⟨enoughRest, proceeds⟩ := fails
  refine roundsFail_succ (max (max enoughRead enoughBody) enoughRest)
    fun fuel rounds fuelAbove roundsAbove result ctx ended => ?_
  obtain ⟨end_, executed, same⟩ := ends fuel (by omega)
  rw [round fuel (by omega), executed, sameFlow_continued same] at ended
  exact proceeds fuel rounds (by omega) (by omega) result ctx ended

end

variable {objects : Nat → Object}

theorem while_handled_or_fails {body : Block} (wellFormed : predicate.WellFormed)
    (denotes : predicate.integer scope memory = some n)
    (readable : Reads scope memory predicate n → Handled scope (.whileLoop predicate body rest)
      memory flow final ∨ Fails scope (.whileLoop predicate body rest) memory) :
    Handled scope (.whileLoop predicate body rest) memory flow final
      ∨ Fails scope (.whileLoop predicate body rest) memory := by
  cases handled : predicate.handled with
  | false => exact .inr (rounds_predicate_unhandled body.encode handled wellFormed denotes)
  | true => exact readable ⟨handled, wellFormed, denotes⟩

/-- Every execution of the semantics is handled, or the executor gives the block up. -/
theorem big_handled_or_fails (run : Big scope block memory flow final)
    (wellFormed : block.WellFormed) (noLocals : memory.NoLocals) :
    Handled scope block memory flow final ∨ Fails scope block memory := by
  induction run with
  | done => exact .inr ⟨0, fun fuel _ => execute_nil fuel _⟩
  | @store source target rest _ _ _ _ _ denotes written _ ih =>
    cases sourceHandled : source.handled with
    | false =>
      exact .inr (store_source_unhandled target rest sourceHandled wellFormed.1 denotes)
    | true =>
      cases targetHandled : target.handled with
      | false =>
        exact .inr (store_target_unhandled rest sourceHandled targetHandled wellFormed.1
          wellFormed.2.1 denotes)
      | true =>
        obtain ⟨storedLocals, goesOn⟩ := store_goesOn rest sourceHandled targetHandled
          wellFormed.1 wellFormed.2.1 denotes written noLocals
        cases ih wellFormed.2.2 storedLocals with
        | inl handled => exact .inl (.store sourceHandled targetHandled denotes written handled)
        | inr fails => exact .inr (goesOn.stops fails.execute)
  | @incDec up target rest _ _ _ _ _ holds written _ ih =>
    cases targetHandled : target.handled with
    | false => exact .inr (incDec_unhandled up rest targetHandled wellFormed.1)
    | true =>
      obtain ⟨storedLocals, goesOn⟩ :=
        incDec_goesOn rest targetHandled wellFormed.1 holds written noLocals
      cases ih wellFormed.2 storedLocals with
      | inl handled => exact .inl (.incDec targetHandled holds written handled)
      | inr fails => exact .inr (goesOn.stops fails.execute)
  | @ifThen predicate thenBlock rest _ n _ _ _ denotes branch _ branchIh ih =>
    cases predicateHandled : predicate.handled with
    | false => exact .inr (if_predicate_unhandled rfl predicateHandled wellFormed.1 denotes)
    | true =>
      by_cases zero : n = 0
      · rw [if_pos zero] at branch
        cases branch
        rw [zero] at denotes
        have goesOn := ifThen_goesOn thenBlock rest ⟨predicateHandled, wellFormed.1, denotes⟩
        cases ih wellFormed.2.2.1 noLocals with
        | inl handled => exact .inl (.ifThenSkipped predicateHandled denotes handled)
        | inr fails => exact .inr (goesOn.stops fails.execute)
      · rw [if_neg zero] at branchIh
        have branches :=
          ifThen_branches thenBlock rest ⟨predicateHandled, wellFormed.1, denotes⟩ zero
        cases branches.handled_or_stops wellFormed.2.1 noLocals
            (branchIh wellFormed.2.1 noLocals) with
        | inl returned => obtain ⟨_, notNormal, _⟩ := returned; cases notNormal
        | inr stops => exact .inr stops
  | @ifThenAbrupt predicate thenBlock rest _ n flow _ denotes branch abrupt branchIh =>
    cases predicateHandled : predicate.handled with
    | false => exact .inr (if_predicate_unhandled rfl predicateHandled wellFormed.1 denotes)
    | true =>
      have nonzero : n ≠ 0 := by
        intro zero
        rw [if_pos zero] at branch
        cases branch
        exact abrupt rfl
      rw [if_neg nonzero] at branchIh
      have branches :=
        ifThen_branches thenBlock rest ⟨predicateHandled, wellFormed.1, denotes⟩ nonzero
      cases branches.handled_or_stops wellFormed.2.1 noLocals
          (branchIh wellFormed.2.1 noLocals) with
      | inl returned =>
        obtain ⟨value, rfl, handled⟩ := returned
        exact .inl (.ifThenReturned predicateHandled denotes nonzero handled)
      | inr stops => exact .inr stops
  | ifElse denotes _ _ branchIh _ =>
    cases ifElse_handled_or_fails wellFormed noLocals denotes branchIh with
    | inl returned => exact absurd rfl returned.1
    | inr stops => exact .inr stops
  | ifElseAbrupt denotes _ _ branchIh =>
    exact (ifElse_handled_or_fails wellFormed noLocals denotes branchIh).imp_left And.right
  | @whileDone _ body _ _ _ _ denotes _ _ =>
    refine while_handled_or_fails wellFormed.1 denotes fun reads => ?_
    exact .inr (rounds_done body.encode reads)
  | whileNext denotes nonzero _ goesOn _ bodyIh ih =>
    refine while_handled_or_fails wellFormed.1 denotes fun reads => ?_
    cases bodyIh wellFormed.2.1 noLocals with
    | inr fails =>
      exact .inr (rounds_body_fails reads nonzero fails)
    | inl handled =>
      obtain ⟨betweenLocals, completes⟩ := handled_completes handled wellFormed.2.1 noLocals
      cases goesOn with
      | inl isNormal => exact absurd isNormal (handled_ne_normal handled)
      | inr isContinued =>
        rw [isContinued] at handled completes
        cases ih wellFormed betweenLocals with
        | inl again => exact .inl (.whileNext reads.handled denotes nonzero handled again)
        | inr fails =>
          exact .inr (rounds_next reads nonzero completes fails)
  | whileBroken denotes nonzero _ _ bodyIh _ =>
    refine while_handled_or_fails wellFormed.1 denotes fun reads => .inr ?_
    cases bodyIh wellFormed.2.1 noLocals with
    | inr fails => exact rounds_body_fails reads nonzero fails
    | inl handled =>
      exact rounds_broken reads nonzero
        (handled_completes handled wellFormed.2.1 noLocals).2
  | whileReturned denotes nonzero _ bodyIh =>
    refine while_handled_or_fails wellFormed.1 denotes fun reads => ?_
    cases bodyIh wellFormed.2.1 noLocals with
    | inr fails =>
      exact .inr (rounds_body_fails reads nonzero fails)
    | inl handled => exact .inl (.whileReturned reads.handled denotes nonzero handled)
  | @returned term rest _ _ denotes =>
    cases handled : term.handled with
    | true => exact .inl (.returned handled denotes)
    | false =>
      obtain ⟨enough, stops⟩ := evaluateSource_unhandled term handled wellFormed.1 denotes
      refine .inr (executeStops_succ enough fun fuel above => ?_)
      rw [execute_returned]
      exact Stops.bind _ (stops fuel above rest.encode)
  | broken => exact .inl .broken
  | continued => exact .inl .continued

theorem agrees_of_handled (wellFormed : block.WellFormed)
    (handled : Handled scope block (.start objects) flow final) :
    Agrees scope block objects flow final := by
  obtain ⟨noLocals, completes⟩ := handled_completes handled wellFormed rfl
  obtain ⟨enough, ends⟩ := completes.execute
  refine ⟨enough, fun fuel above => ?_⟩
  obtain ⟨result, executed, same⟩ := ends fuel above
  refine ⟨result, scope.context final.objects, executed, same, rfl, fun index => ?_, rfl⟩
  rw [noLocals]
  rfl

theorem handled_of_agrees (wellFormed : block.WellFormed)
    (run : Big scope block (.start objects) flow final)
    (agrees : Agrees scope block objects flow final) :
    Handled scope block (.start objects) flow final := by
  cases big_handled_or_fails run wellFormed rfl with
  | inl handled => exact handled
  | inr fails =>
    obtain ⟨enoughStops, stops⟩ := fails.execute
    obtain ⟨enoughRuns, runs⟩ := agrees
    obtain ⟨result, ctx, executed, _⟩ := runs (max enoughStops enoughRuns) (by omega)
    obtain ⟨stop, failed⟩ := stops (max enoughStops enoughRuns) (by omega)
    have both : Except.ok (result, ctx) = Except.error stop := executed.symm.trans failed
    cases both

/-- Executing the bytecode of a well-formed method body gives the result of the big-step
semantics exactly when that execution is `Handled`. -/
theorem method_agrees_iff (scope : Scope) (body : Block) (objects : Nat → Object) (flow : Flow)
    (final : Memory) (wellFormed : body.WellFormed)
    (run : Big scope body (.start objects) flow final) :
    Agrees scope body objects flow final ↔ Handled scope body (.start objects) flow final :=
  ⟨handled_of_agrees wellFormed run, agrees_of_handled wellFormed⟩

/-- The name `FOO_`. -/
def foo : Path := .relative 0 [[0x46, 0x4F, 0x4F, 0x5F]]

/-- A method with one argument, in a namespace with the one object `FOO_`. -/
def fooScope : Scope :=
  ⟨fun index => if index = 0 then some 1 else none, fun path => if path = foo then some 0 else none,
    fun path => if path = foo then some 0 else none⟩

def fooObjects : Nat → Object := fun _ => .integer 0

/-- `If (LLess (Arg0, 5)) { Store (7, FOO_) Return (Arg0) } Return (Zero)`. -/
def guardedStore : Block :=
  .ifThen (.compare .less (.arg 0) (.const (.byte 5)))
    (.store (.const (.byte 7)) (.name foo) (.returned (.arg 0) .done))
    (.returned (.const .zero) .done)

/-- The guarded store is carried out: it returns the argument and leaves 7 in `FOO_`. -/
theorem guardedStore_agrees : Agrees fooScope guardedStore fooObjects (.returned (.integer 0))
      ⟨Function.update fooObjects 0 (.integer 7), fun _ => none⟩ :=
  (method_agrees_iff fooScope guardedStore fooObjects (.returned (.integer 0)) _
    (by decide) (.ifThenAbrupt rfl (.store rfl rfl (.returned rfl)) Flow.noConfusion)).mpr
    (.ifThenReturned rfl rfl one_ne_zero (.store rfl rfl rfl rfl (.returned rfl rfl)))

def storeInIf : Block :=
  .ifThen (.const .one) (.store (.const .one) (.name foo) .done) (.returned (.const .one) .done)

/-- `While (Zero) { Break } Return (One)`. -/
def skippedLoop : Block :=
  .whileLoop (.const .zero) (.broken .done) (.returned (.const .one) .done)

/-- `While (One) { If (One) { Break } } Return (One)`. -/
def breakInIf : Block :=
  .whileLoop (.const .one) (.ifThen (.const .one) (.broken .done) .done)
    (.returned (.const .one) .done)

/-- Statements after an `If` whose block runs to its end, after a `While`, and after a `Break` in an
`If` are not executed: each of these methods returns one, and the executor has no result. -/
theorem statements_after_block_lost : (storeInIf.WellFormed
      ∧ Big fooScope storeInIf (.start fooObjects) (.returned (.integer 1))
          ⟨Function.update fooObjects 0 (.integer 1), fun _ => none⟩
      ∧ ¬ Agrees fooScope storeInIf fooObjects (.returned (.integer 1))
          ⟨Function.update fooObjects 0 (.integer 1), fun _ => none⟩) ∧ (skippedLoop.WellFormed
      ∧ Big fooScope skippedLoop (.start fooObjects) (.returned (.integer 1)) (.start fooObjects)
      ∧ ¬ Agrees fooScope skippedLoop fooObjects (.returned (.integer 1)) (.start fooObjects)) ∧
    (breakInIf.WellFormed
      ∧ Big fooScope breakInIf (.start fooObjects) (.returned (.integer 1)) (.start fooObjects)
      ∧ ¬ Agrees fooScope breakInIf fooObjects (.returned (.integer 1)) (.start fooObjects)) := by
  refine ⟨⟨by decide, .ifThen rfl (.store rfl rfl .done) (.returned rfl), ?_⟩,
    ⟨by decide, .whileDone rfl (.returned rfl), ?_⟩,
    ⟨by decide, .whileBroken rfl one_ne_zero (.ifThenAbrupt rfl .broken Flow.noConfusion)
      (.returned rfl), ?_⟩⟩
  · intro agrees
    cases handled_of_agrees (by decide) (.ifThen rfl (.store rfl rfl .done) (.returned rfl)) agrees
      with
    | ifThenSkipped _ isZero _ => cases isZero
    | ifThenReturned _ _ _ inside =>
      cases inside with
      | store _ _ _ _ atEnd => cases atEnd
  · intro agrees
    cases handled_of_agrees (by decide) (.whileDone rfl (.returned rfl)) agrees with
    | whileNext _ isOne nonzero _ _ =>
      cases isOne
      exact nonzero rfl
    | whileReturned _ isOne nonzero _ =>
      cases isOne
      exact nonzero rfl
  · intro agrees
    cases handled_of_agrees (by decide) (.whileBroken rfl one_ne_zero
      (.ifThenAbrupt rfl .broken Flow.noConfusion) (.returned rfl)) agrees with
    | whileNext _ _ _ body _ =>
      cases body with
      | ifThenSkipped _ isZero _ => cases isZero
    | whileReturned _ _ _ body =>
      cases body with
      | ifThenSkipped _ isZero _ => cases isZero
      | ifThenReturned _ _ _ inside => cases inside

end Horizon.Aml
