import Horizon.Verif.AmlOperands

/-!
# The executor against the big-step semantics

`execute` is unfolded once for each statement. The loop is followed inside `whileRounds`, whose
rounds are counted apart from the fuel of the calls it makes.
-/

namespace Horizon.Aml

open List

variable {scope : Scope} {memory final : Memory} {flow : Flow}

section

variable (fuel : Nat) (ctx : Context)
include fuel ctx

theorem execute_nil : Stops (execute fuel ctx []) := by
  cases fuel with
  | zero | succ => exact stops_error _

theorem execute_builtin {behind rest : Bytecode} {opcode : Opcode}
    (parsed : Opcode.parseOk behind = .ok (opcode, rest))
    (builtin : ∃ index, opcode = .arg index ∨ opcode = .local index) :
    Stops (execute fuel ctx behind) := by
  cases fuel with
  | zero => exact stops_error _
  | succ fuel =>
    rw [execute, parsed]
    obtain ⟨index, isArg | isLocal⟩ := builtin
    · rw [isArg]
      exact stops_error _
    · rw [isLocal]
      exact stops_error _

theorem execute_store (source : Term) (target : Target) (rest : Block) :
    execute (fuel + 1) ctx (Block.store source target rest).encode = (do
      let stored ← executeStore fuel ctx (source.encode ++ (target.encode ++ rest.encode))
      execute fuel stored.1 stored.2) := rfl

theorem execute_incDec (up : Bool) (target : Target) (rest : Block) :
    execute (fuel + 1) ctx (Block.incDec up target rest).encode = (do
      let stored ← executeIncDec up ctx (target.encode ++ rest.encode)
      execute fuel stored.1 stored.2) := by
  cases up <;> rfl

theorem execute_returned (value : Term) (rest : Block) :
    execute (fuel + 1) ctx (Block.returned value rest).encode = (do
      let source ← evaluateSource fuel ctx (value.encode ++ rest.encode)
      .ok (.leave (.returned source.1), ctx)) := rfl

end

theorem executeWhile_package (evaluate : Context → Bytecode → Except Stop (Nat × Bytecode))
    (run : Context → Bytecode → Executed) (rounds : Nat) (ctx : Context) (payload rest : Bytecode) :
    executeWhile evaluate run rounds ctx (package payload ++ rest) = (do
      let outcome ← whileRounds evaluate run payload rounds ctx
      .ok (outcome.1, outcome.2, [])) := by
  obtain ⟨pkg, read, length⟩ := fromBytes_encodePkgLength payload.length (payload ++ rest)
  have inside : ¬ (payload ++ rest).length < payload.length := by
    rw [length_append]
    omega
  rw [executeWhile, package, append_assoc, read]
  change (do
    let bodyLen ← pkg.payloadLength
    _) = _
  rw [length]
  change (if (payload ++ rest).length < payload.length then _ else
    whileRounds evaluate run ((payload ++ rest).take payload.length) rounds ctx >>= _) = _
  rw [if_neg inside, take_left]

/-- What `execute` does with the result of a loop, the window behind it being empty. -/
def afterWhile (fuel : Nat) : ControlFlow × Context → Executed
  | (.leave (.returned value), ctx) => .ok (.leave (.returned value), ctx)
  | (.proceed, ctx) => execute fuel ctx []
  | _ => .error .panic

theorem execute_while (fuel : Nat) (ctx : Context) (predicate : Term) (body rest : Block) :
    execute (fuel + 1) ctx (Block.whileLoop predicate body rest).encode =
      (whileRounds (evaluateInteger fuel) (execute fuel) (predicate.encode ++ body.encode) fuel ctx
        >>= afterWhile fuel) := by
  change (executeWhile (evaluateInteger fuel) (execute fuel) fuel ctx
    (package (predicate.encode ++ body.encode) ++ rest.encode) >>= _) = _
  rw [executeWhile_package]
  cases whileRounds (evaluateInteger fuel) (execute fuel) (predicate.encode ++ body.encode) fuel
      ctx with
  | error stop => rfl
  | ok outcome =>
    obtain ⟨result, ctx⟩ := outcome
    cases result with
    | proceed => rfl
    | leave kind => cases kind <;> rfl

section

variable (run : Context → Bytecode → Executed)
include run

theorem executeElse_rest (predicate : Bool) (then_ : ControlFlow) (ctx : Context) (rest : Block) :
    executeElse run predicate then_ ctx rest.encode = .ok (then_, ctx, rest.encode) := by
  cases rest with
  | incDec up target rest => cases up <;> rfl
  | _ => rfl

theorem executeElse_else (predicate : Bool) (then_ : ControlFlow) (ctx : Context)
    (payload rest : Bytecode) :
    executeElse run predicate then_ ctx (0xA1 :: (package payload ++ rest)) =
      if predicate then .ok (then_, ctx, rest) else (do
        let outcome ← run ctx payload
        .ok (outcome.1, outcome.2, rest)) := by
  obtain ⟨pkg, read, length⟩ := fromBytes_encodePkgLength payload.length (payload ++ rest)
  change (PkgLength.fromBytes (package payload ++ rest) >>= _) = _
  rw [package, append_assoc, read]
  change (do
    let sliceLength ← pkg.payloadLength
    _) = _
  rw [length]
  cases predicate with
  | true =>
    change (do
      let bytecode ← Bytecode.skip (payload ++ rest) payload.length
      .ok (then_, ctx, bytecode)) = _
    rw [skip_append]
    rfl
  | false =>
    change (do
      let slice ← Bytecode.slice (payload ++ rest) payload.length
      let outcome ← run ctx slice
      let bytecode ← Bytecode.skip (payload ++ rest) payload.length
      .ok (outcome.1, outcome.2, bytecode)) = _
    rw [slice_append, skip_append]
    rfl

theorem executeThen_append (n : Nat) (ctx : Context) (thenBytes behind : Bytecode) :
    executeThen run n thenBytes.length ctx (thenBytes ++ behind) =
      if n = 0 then executeElse run false .proceed ctx behind else (do
        let outcome ← run ctx thenBytes
        executeElse run true outcome.1 outcome.2 behind) := by
  rw [executeThen, skip_append, slice_append]
  rfl

end

section

variable {evaluate : Context → Bytecode → Except Stop (Nat × Bytecode)}
  (run : Context → Bytecode → Executed) {ctx : Context} {predicate : Bytecode}
  (thenBytes behind : Bytecode)
include run thenBytes behind

theorem executeIfElse_package {n : Nat}
    (read : evaluate ctx (predicate ++ (thenBytes ++ behind)) = .ok (n, thenBytes ++ behind)) :
    executeIfElse evaluate run ctx (package (predicate ++ thenBytes) ++ behind) =
      if n = 0 then executeElse run false .proceed ctx behind else (do
        let outcome ← run ctx thenBytes
        executeElse run true outcome.1 outcome.2 behind) := by
  obtain ⟨pkg, found, length⟩ := fromBytes_encodePkgLength (predicate ++ thenBytes).length
    (predicate ++ (thenBytes ++ behind))
  have consumed : (predicate ++ (thenBytes ++ behind)).length - (thenBytes ++ behind).length
      = predicate.length := by
    rw [length_append]
    omega
  have remaining : (predicate ++ thenBytes).length - predicate.length = thenBytes.length := by
    rw [length_append]
    omega
  have inside : ¬ (predicate ++ thenBytes).length < predicate.length := by
    rw [length_append]
    omega
  rw [← executeThen_append, executeIfElse, package, append_assoc, append_assoc, found]
  change (evaluate ctx (predicate ++ (thenBytes ++ behind)) >>= _) = _
  rw [read]
  rw [length]
  change (if (predicate ++ thenBytes).length
      < (predicate ++ (thenBytes ++ behind)).length - (thenBytes ++ behind).length then _
    else executeThen run n ((predicate ++ thenBytes).length
      - ((predicate ++ (thenBytes ++ behind)).length - (thenBytes ++ behind).length)) ctx
        (thenBytes ++ behind)) = _
  rw [consumed, if_neg inside, remaining]

theorem executeIfElse_stops (stops : Stops (evaluate ctx (predicate ++ (thenBytes ++ behind)))) :
    Stops (executeIfElse evaluate run ctx (package (predicate ++ thenBytes) ++ behind)) := by
  obtain ⟨pkg, found, _⟩ := fromBytes_encodePkgLength (predicate ++ thenBytes).length
    (predicate ++ (thenBytes ++ behind))
  rw [executeIfElse, package, append_assoc, append_assoc, found]
  change Stops (evaluate ctx (predicate ++ (thenBytes ++ behind)) >>= _)
  exact Stops.bind _ stops

end

/-- What `execute` does with the result of an `If`. -/
def afterIf (fuel : Nat) : ControlFlow × Context × Bytecode → Executed
  | (.leave (.returned value), ctx, _) => .ok (.leave (.returned value), ctx)
  | (.proceed, ctx, bytecode) => execute fuel ctx bytecode
  | _ => .error .panic

theorem execute_if (fuel : Nat) (ctx : Context) (bytecode : Bytecode) :
    execute (fuel + 1) ctx (0xA0 :: bytecode) =
      (executeIfElse (evaluateInteger fuel) (execute fuel) ctx bytecode >>= afterIf fuel) := by
  change (executeIfElse (evaluateInteger fuel) (execute fuel) ctx bytecode >>= _) = _
  cases executeIfElse (evaluateInteger fuel) (execute fuel) ctx bytecode with
  | error stop => rfl
  | ok outcome =>
    obtain ⟨result, ctx, bytecode⟩ := outcome
    cases result with
    | proceed => rfl
    | leave kind => cases kind <;> rfl

theorem write_name {path : Path} {object : Object} {stored : Memory}
    (written : (Target.name path).write scope memory object = some stored) :
    ∃ pointer, scope.target path = some pointer
      ∧ (scope.context memory.objects).write pointer object = scope.context stored.objects
      ∧ stored.locals = memory.locals := by
  obtain ⟨pointer, found, result⟩ := Option.map_eq_some_iff.mp written
  refine ⟨pointer, found, ?_, ?_⟩
  · rw [← result]
    rfl
  · rw [← result]
    rfl

variable {target : Target}

variable {block : Block} {stored : Memory} {value : Object} {source : Term}

theorem executeStore_handled (sourceHandled : source.handled = true)
    (targetHandled : target.handled = true) (sourceWellFormed : source.WellFormed)
    (targetWellFormed : target.WellFormed) (denotes : source.value scope memory = some value)
    (written : target.write scope memory value = some stored) :
    stored.locals = memory.locals ∧ Gives (executeStore · (scope.context memory.objects))
      (source.encode ++ target.encode) (scope.context stored.objects) := by
  obtain ⟨data, readsValue, enough, runs⟩ :=
    evaluateSource_handled source sourceHandled sourceWellFormed denotes
  obtain ⟨path, isName, _⟩ := target_handled target [] targetHandled targetWellFormed
  rw [isName] at written
  obtain ⟨pointer, found, result, sameLocals⟩ := write_name written
  refine ⟨sameLocals, enough, fun fuel above rest => ?_⟩
  have sourceRead := runs fuel above (target.encode ++ rest)
  obtain ⟨path', isName', parsed⟩ := target_handled target rest targetHandled targetWellFormed
  rw [isName] at isName'
  injection isName' with samePath
  rw [← samePath] at parsed
  change executeStore fuel _ (source.encode ++ target.encode ++ rest) = _
  dsimp only at sourceRead
  rw [executeStore, append_assoc, sourceRead]
  change (parseSimpleName (target.encode ++ rest) >>= _) = _
  rw [parsed]
  change (do
    let pointer ← orNone (scope.target path)
    .ok ((scope.context memory.objects).write pointer
      (data.read (scope.context memory.objects)), rest)) = _
  rw [found, readsValue]
  change Except.ok ((scope.context memory.objects).write pointer value, rest) = _
  rw [result]

theorem executeIncDec_handled {up : Bool} (handled : target.handled = true)
    (wellFormed : target.WellFormed) (holds : target.read scope memory = some value)
    (written : target.write scope memory (value.incDec up) = some stored) (rest : Bytecode) :
    stored.locals = memory.locals ∧
      executeIncDec up (scope.context memory.objects) (target.encode ++ rest)
        = .ok (scope.context stored.objects, rest) := by
  obtain ⟨path, isName, parsed⟩ := target_handled target rest handled wellFormed
  rw [isName] at written holds
  obtain ⟨pointer, found, result, sameLocals⟩ := write_name written
  obtain ⟨pointer', found', isValue⟩ := Option.map_eq_some_iff.mp holds
  rw [found] at found'
  injection found' with samePointer
  rw [← samePointer] at isValue
  refine ⟨sameLocals, ?_⟩
  rw [executeIncDec, parsed]
  change (do
    let pointer ← orNone (scope.target path)
    .ok ((scope.context memory.objects).write pointer ((memory.objects pointer).incDec up), rest))
      = _
  rw [found]
  change Except.ok ((scope.context memory.objects).write pointer
    ((memory.objects pointer).incDec up), rest) = _
  rw [isValue, result]

/-- With enough fuel, `execute` ends without a result on the bytecode of `block`. -/
def ExecuteStops (scope : Scope) (block : Block) (memory : Memory) : Prop :=
  ∃ enough, ∀ fuel, enough ≤ fuel →
    Stops (execute fuel (scope.context memory.objects) block.encode)

theorem executeStops_succ (enough : Nat)
    (stops : ∀ fuel, enough ≤ fuel → Stops (execute (fuel + 1) (scope.context memory.objects)
      block.encode)) : ExecuteStops scope block memory := by
  refine ⟨enough + 1, fun fuel above => ?_⟩
  obtain ⟨below, rfl⟩ : ∃ below, fuel = below + 1 := ⟨fuel - 1, by omega⟩
  exact stops below (by omega)

theorem store_source_unhandled (target : Target) (rest : Block)
    (unhandled : source.handled = false) (wellFormed : source.WellFormed)
    (denotes : source.value scope memory = some value) :
    ExecuteStops scope (.store source target rest) memory := by
  obtain ⟨enough, stops⟩ := evaluateSource_unhandled source unhandled wellFormed denotes
  apply executeStops_succ enough
  intro fuel above
  rw [execute_store]
  apply Stops.bind
  exact Stops.bind _ (stops fuel above (target.encode ++ rest.encode))

theorem target_unhandled_stops (ctx : Context) (rest : Bytecode) (fuel : Nat)
    (unhandled : target.handled = false) (wellFormed : target.WellFormed) (next : Nat → Context) :
    Stops ((do
      let parsed ← parseSimpleName (target.encode ++ rest)
      let pointer ← evaluateSuperName ctx parsed.1
      .ok (next pointer, parsed.2)) >>= fun result => execute fuel result.1 result.2) := by
  cases target_unhandled target rest unhandled wellFormed with
  | inl stops => exact Stops.bind _ (Stops.bind _ stops)
  | inr found =>
    obtain ⟨dest, behind, opcode, parsed, left, builtin⟩ := found
    rw [parsed]
    change Stops ((do
      let pointer ← evaluateSuperName ctx dest
      .ok (next pointer, behind)) >>= fun result => execute fuel result.1 result.2)
    cases evaluateSuperName ctx dest with
    | error stop => exact stops_error stop
    | ok pointer => exact execute_builtin fuel (next pointer) left builtin

theorem store_target_unhandled (rest : Block) (sourceHandled : source.handled = true)
    (unhandled : target.handled = false) (sourceWellFormed : source.WellFormed)
    (targetWellFormed : target.WellFormed) (denotes : source.value scope memory = some value) :
    ExecuteStops scope (.store source target rest) memory := by
  obtain ⟨data, _, enough, runs⟩ :=
    evaluateSource_handled source sourceHandled sourceWellFormed denotes
  apply executeStops_succ enough
  intro fuel above
  have sourceRead := runs fuel above (target.encode ++ rest.encode)
  dsimp only at sourceRead
  rw [execute_store, executeStore, sourceRead]
  exact target_unhandled_stops _ rest.encode fuel unhandled targetWellFormed _

theorem incDec_unhandled (up : Bool) (rest : Block) (unhandled : target.handled = false)
    (wellFormed : target.WellFormed) : ExecuteStops scope (.incDec up target rest) memory := by
  apply executeStops_succ 0
  intro fuel _
  rw [execute_incDec, executeIncDec]
  exact target_unhandled_stops _ rest.encode fuel unhandled wellFormed _

theorem if_predicate_unhandled {predicate : Term} {thenBlock : Block} {behind : Bytecode} {n : Nat}
    (encoded : block.encode = 0xA0 :: (package (predicate.encode ++ thenBlock.encode) ++ behind))
    (unhandled : predicate.handled = false) (wellFormed : predicate.WellFormed)
    (denotes : predicate.integer scope memory = some n) : ExecuteStops scope block memory := by
  obtain ⟨enough, stops⟩ := evaluateInteger_unhandled predicate unhandled wellFormed denotes
  refine executeStops_succ enough fun fuel above => ?_
  rw [encoded, execute_if]
  apply Stops.bind
  exact executeIfElse_stops (execute fuel) thenBlock.encode behind
    (stops fuel above (thenBlock.encode ++ behind))

end Horizon.Aml
