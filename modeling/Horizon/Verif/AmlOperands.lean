import Horizon.Verif.AmlParse

/-!
# Operands

What `evaluate_integer`, the operand of a `Store` or a `Return`, and a target give on encoded
operands, in a method whose locals are empty. An operand that is `handled` gives its big-step value;
any other stops the executor.
-/

namespace Horizon.Aml

open List Stops Option Opcode

variable {scope : Scope} {memory : Memory}

/-- The locals are as `ExecuteContext::new` leaves them, which nothing in the executor changes. -/
def Memory.NoLocals (memory : Memory) : Prop := memory.locals = fun _ => none

/-- With enough fuel, `computation` is `outcome` in front of every rest of the window. -/
def Gives {α : Type} (computation : Nat → Bytecode → Except Stop (α × Bytecode))
    (encoded : Bytecode) (outcome : α) : Prop :=
  ∃ enough, ∀ fuel, enough ≤ fuel → ∀ rest, computation fuel (encoded ++ rest) = .ok (outcome, rest)

/-- With enough fuel, `computation` ends without a value in front of every rest of the window. -/
def GivesUp {α : Type} (computation : Nat → Bytecode → Except Stop α) (encoded : Bytecode) : Prop :=
  ∃ enough, ∀ fuel, enough ≤ fuel → ∀ rest, Stops (computation fuel (encoded ++ rest))

theorem argument_context (objects : Nat → Object) (index : Nat) (inRange : index < 7) :
    (scope.context objects).argument index = scope.args index := by
  rw [Context.argument, if_pos inRange]
  rfl

theorem local_context (objects : Nat → Object) (index : Nat) :
    (scope.context objects).local_ index = none := by
  rw [Context.local_]
  split
  · rfl
  · rfl

theorem integerOf_context (scope : Scope) (objects : Nat → Object) (pointer n : Nat)
    (isInteger : (objects pointer).toInteger = some n) :
    integerOf (scope.context objects) pointer = .ok n := by
  have object : (scope.context objects).objects pointer = objects pointer := rfl
  rw [integerOf, object]
  cases found : objects pointer with
  | integer value =>
    rw [found] at isInteger
    injection isInteger with same
    change Except.ok (value % 2 ^ 32) = _
    rw [same]
  | string | buffer => rw [found] at isInteger; cases isInteger

section

variable (integer : Bytecode → Except Stop (Nat × Bytecode))
include integer

theorem evaluateExpression_opcode (op : Comparison) (bytecode : Bytecode) :
    evaluateExpression integer op.opcode bytecode = binaryCmp integer op.holds bytecode := by
  cases op <;> rfl

theorem parseTermarg_compare (ctx : Context) (op : Comparison) (bytecode : Bytecode) :
    parseTermarg integer ctx (op.encode ++ bytecode) = (do
      let compared ← binaryCmp integer op.holds bytecode
      .ok (.ok (some (.data compared.1)), compared.2)) := by
  rw [parseTermarg, parseTermArg_compare]
  change (evaluateExpression integer op.opcode bytecode >>= _) = _
  rw [evaluateExpression_opcode]

theorem parseTermarg_arg {ctx : Context} {bytecode behind : Bytecode} {arg : TermArg}
    (parsed : parseTermArg ctx bytecode = .ok (.ok arg, behind)) :
    parseTermarg integer ctx bytecode = .ok (.error arg, behind) := by
  rw [parseTermarg, parsed]
  rfl

end

theorem compare_value {op : Comparison} {left right : Term} {value : Object}
    (denotes : (Term.compare op left right).value scope memory = some value) :
    ∃ a b, left.integer scope memory = some a ∧ right.integer scope memory = some b
      ∧ value = .integer (op.holds a b).toNat := by
  unfold Term.value at denotes
  split at denotes
  · rename_i a b isA isB
    injection denotes with same
    exact ⟨a, b, isA, isB, same.symm⟩
  · cases denotes

theorem toInteger_compare (held : Bool) :
    (Object.integer held.toNat).toInteger = some held.toNat := by
  cases held <;> rfl

variable {integer : Nat → Bytecode → Except Stop (Nat × Bytecode)}

variable {left right : Bytecode} {a n : Nat} {value : Object}

theorem binaryCmp_gives {b : Nat} (cmp : Nat → Nat → Bool) (leftGives : Gives integer left a)
    (rightGives : Gives integer right b) :
    Gives (fun fuel => binaryCmp (integer fuel) cmp) (left ++ right) (cmp a b).toNat := by
  obtain ⟨enoughLeft, leftRuns⟩ := leftGives
  obtain ⟨enoughRight, rightRuns⟩ := rightGives
  refine ⟨max enoughLeft enoughRight, fun fuel enough rest => ?_⟩
  have leftValue := leftRuns fuel (by omega) (right ++ rest)
  have rightValue := rightRuns fuel (by omega) rest
  change binaryCmp (integer fuel) cmp (left ++ right ++ rest) = _
  rw [append_assoc, binaryCmp, leftValue]
  change (integer fuel (right ++ rest) >>= _) = _
  rw [rightValue]
  rfl

variable (term : Term)

theorem evaluateInteger_handled (handled : term.handled = true)
    (wellFormed : term.WellFormed) (denotes : term.integer scope memory = some n) :
    Gives (evaluateInteger · (scope.context memory.objects)) term.encode n := by
  induction term generalizing n with
  | const constant =>
    refine ⟨1, fun fuel enough rest => ?_⟩
    obtain ⟨below, rfl⟩ : ∃ below, fuel = below + 1 := ⟨fuel - 1, by omega⟩
    have parsed := parseTermArg_const (scope.context memory.objects) constant rest wellFormed
    have value : constant.value % 2 ^ 32 = n := by
      have cut : constant.value % 2 ^ 32 % 2 ^ 32 = n := Option.some.inj denotes
      rwa [Nat.mod_mod] at cut
    change evaluateInteger (below + 1) _ (constant.encode ++ rest) = _
    rw [evaluateInteger, parseTermarg_arg _ parsed]
    change Except.ok (constant.value % 2 ^ 32, rest) = _
    rw [value]
  | arg index =>
    refine ⟨1, fun fuel enough rest => ?_⟩
    obtain ⟨below, rfl⟩ : ∃ below, fuel = below + 1 := ⟨fuel - 1, by omega⟩
    have parsed := parseTermArg_arg (scope.context memory.objects) index rest wellFormed
    obtain ⟨object, located, isInteger⟩ := bind_eq_some_iff.mp denotes
    obtain ⟨pointer, passed, isObject⟩ := map_eq_some_iff.mp located
    rw [← isObject] at isInteger
    have read := integerOf_context scope memory.objects pointer n isInteger
    change evaluateInteger (below + 1) _ ([0x68 + index] ++ rest) = _
    rw [evaluateInteger, singleton_append, parseTermarg_arg _ parsed]
    change (do
      let value ← integerOf (scope.context memory.objects)
        (← orNone ((scope.context memory.objects).argument index))
      .ok (value, rest)) = _
    rw [argument_context memory.objects index wellFormed, passed]
    change (do
      let value ← integerOf (scope.context memory.objects) pointer
      .ok (value, rest)) = _
    rw [read]
    rfl
  | «local» | name => cases handled
  | compare op left right leftRuns rightRuns =>
    have both := Bool.and_eq_true_iff.mp handled
    obtain ⟨object, hasValue, isInteger⟩ := bind_eq_some_iff.mp denotes
    obtain ⟨a, b, isA, isB, result⟩ := compare_value hasValue
    rw [result, toInteger_compare] at isInteger
    obtain ⟨enough, runs⟩ := binaryCmp_gives op.holds
      (leftRuns both.1 wellFormed.1 isA) (rightRuns both.2 wellFormed.2 isB)
    refine ⟨enough + 1, fun fuel above rest => ?_⟩
    obtain ⟨below, rfl⟩ : ∃ below, fuel = below + 1 := ⟨fuel - 1, by omega⟩
    have compared := runs below (by omega) rest
    change evaluateInteger (below + 1) _ ((op.encode ++ (left.encode ++ right.encode)) ++ rest) = _
    rw [evaluateInteger, append_assoc, parseTermarg_compare]
    dsimp only at compared
    rw [compared]
    change Except.ok ((op.holds a b).toNat, rest) = _
    rw [Option.some.inj isInteger]

theorem binaryCmp_givesUp_left (right : Bytecode) (cmp : Nat → Nat → Bool)
    (leftStops : GivesUp integer left) :
    GivesUp (fun fuel => binaryCmp (integer fuel) cmp) (left ++ right) := by
  obtain ⟨enough, stops⟩ := leftStops
  refine ⟨enough, fun fuel above rest => ?_⟩
  rw [append_assoc]
  exact bind _ (stops fuel above (right ++ rest))

theorem binaryCmp_givesUp_right (cmp : Nat → Nat → Bool) (leftGives : Gives integer left a)
    (rightStops : GivesUp integer right) :
    GivesUp (fun fuel => binaryCmp (integer fuel) cmp) (left ++ right) := by
  obtain ⟨enoughLeft, runs⟩ := leftGives
  obtain ⟨enoughRight, stops⟩ := rightStops
  refine ⟨max enoughLeft enoughRight, fun fuel enough rest => ?_⟩
  have leftValue := runs fuel (by omega) (right ++ rest)
  change Stops (binaryCmp (integer fuel) cmp (left ++ right ++ rest))
  rw [append_assoc, binaryCmp, leftValue]
  change Stops (integer fuel (right ++ rest) >>= _)
  exact bind _ (stops fuel (by omega) rest)

/-- A name is read as nothing or as an object, so what stops at these stops at the name. -/
theorem Stops.name {α : Type} {integer : Bytecode → Except Stop (Nat × Bytecode)} {ctx : Context}
    {next : Except TermArg (Option DataRefObject) × Bytecode → Except Stop α} {path : Path}
    (rest : Bytecode) (wellFormed : path.WellFormed)
    (nothing : ∀ behind, Stops (next (.ok none, behind)))
    (object : ∀ pointer behind, Stops (next (.error (.object pointer), behind))) :
    Stops (parseTermarg integer ctx (path.encode ++ rest) >>= next) := by
  unfold parseTermarg
  cases parseTermArg_name ctx path rest wellFormed with
  | inl stops => exact bind _ (bind _ stops)
  | inr parsed =>
    obtain ⟨arg, behind, found, rfl | ⟨pointer, rfl⟩⟩ := parsed
    · rw [found]
      exact nothing behind
    · rw [found]
      exact object pointer behind

theorem compare_givesUp {op : Comparison} {left right : Term}
    (unhandled : (Term.compare op left right).handled = false)
    (wellFormed : (Term.compare op left right).WellFormed)
    (denotes : (Term.compare op left right).value scope memory = some value)
    (leftStops : ∀ {n}, left.handled = false → left.integer scope memory = some n →
      GivesUp (evaluateInteger · (scope.context memory.objects)) left.encode)
    (rightStops : ∀ {n}, right.handled = false → right.integer scope memory = some n →
      GivesUp (evaluateInteger · (scope.context memory.objects)) right.encode) :
    GivesUp (fun fuel => binaryCmp (evaluateInteger fuel (scope.context memory.objects)) op.holds)
      (left.encode ++ right.encode) := by
  obtain ⟨a, b, isA, isB, -⟩ := compare_value denotes
  cases leftHandled : left.handled with
  | false => exact binaryCmp_givesUp_left right.encode op.holds (leftStops leftHandled isA)
  | true =>
    rw [Term.handled, leftHandled] at unhandled
    exact binaryCmp_givesUp_right op.holds
      (evaluateInteger_handled left leftHandled wellFormed.1 isA) (rightStops unhandled isB)

theorem evaluateInteger_unhandled (unhandled : term.handled = false)
    (wellFormed : term.WellFormed) (denotes : term.integer scope memory = some n) :
    GivesUp (evaluateInteger · (scope.context memory.objects)) term.encode := by
  induction term generalizing n with
  | const | arg => cases unhandled
  | «local» index =>
    refine ⟨1, fun fuel enough rest => ?_⟩
    obtain ⟨below, rfl⟩ : ∃ below, fuel = below + 1 := ⟨fuel - 1, by omega⟩
    have parsed := parseTermArg_local (scope.context memory.objects) index rest wellFormed
    change Stops (evaluateInteger (below + 1) _ ([0x60 + index] ++ rest))
    rw [evaluateInteger, singleton_append, parseTermarg_arg _ parsed]
    change Stops (do
      let value ← integerOf (scope.context memory.objects)
        (← orNone ((scope.context memory.objects).local_ index))
      .ok (value, rest))
    rw [local_context]
    exact stops_error _
  | name path =>
    refine ⟨1, fun fuel enough rest => ?_⟩
    obtain ⟨below, rfl⟩ : ∃ below, fuel = below + 1 := ⟨fuel - 1, by omega⟩
    change Stops (evaluateInteger (below + 1) _ (path.encode ++ rest))
    rw [evaluateInteger]
    exact Stops.name rest wellFormed (fun _ => stops_error _) fun _ _ => stops_error _
  | compare op left right leftStops rightStops =>
    obtain ⟨object, hasValue, -⟩ := bind_eq_some_iff.mp denotes
    obtain ⟨enough, stops⟩ := compare_givesUp unhandled wellFormed hasValue
      (fun handled => leftStops handled wellFormed.1)
      (fun handled => rightStops handled wellFormed.2)
    refine ⟨enough + 1, fun fuel above rest => ?_⟩
    obtain ⟨below, rfl⟩ : ∃ below, fuel = below + 1 := ⟨fuel - 1, by omega⟩
    change Stops
      (evaluateInteger (below + 1) _ ((op.encode ++ (left.encode ++ right.encode)) ++ rest))
    rw [evaluateInteger, append_assoc, parseTermarg_compare]
    exact bind _ (bind _ (stops below (by omega) rest))

theorem evaluateSource_handled (handled : term.handled = true)
    (wellFormed : term.WellFormed) (denotes : term.value scope memory = some value) :
    ∃ data, data.read (scope.context memory.objects) = value ∧
      Gives (evaluateSource · (scope.context memory.objects)) term.encode data := by
  cases term with
  | const constant =>
    refine ⟨.data (constant.value % 2 ^ 32), Option.some.inj denotes, 0, fun fuel _ rest => ?_⟩
    have parsed := parseTermArg_const (scope.context memory.objects) constant rest wellFormed
    change evaluateSource fuel _ (constant.encode ++ rest) = _
    rw [evaluateSource, parseTermarg_arg _ parsed]
    rfl
  | arg index =>
    obtain ⟨pointer, passed, isObject⟩ := map_eq_some_iff.mp denotes
    refine ⟨.reference pointer, isObject, 0, fun fuel _ rest => ?_⟩
    have parsed := parseTermArg_arg (scope.context memory.objects) index rest wellFormed
    change evaluateSource fuel _ ([0x68 + index] ++ rest) = _
    rw [evaluateSource, singleton_append, parseTermarg_arg _ parsed]
    change (do
      let source ←
        (orNone ((scope.context memory.objects).argument index)).map DataRefObject.reference
      .ok (source, rest)) = _
    rw [argument_context memory.objects index wellFormed, passed]
    rfl
  | «local» | name => cases handled
  | compare op left right =>
    have both := Bool.and_eq_true_iff.mp handled
    obtain ⟨a, b, isA, isB, result⟩ := compare_value denotes
    obtain ⟨enough, runs⟩ := binaryCmp_gives op.holds
      (evaluateInteger_handled left both.1 wellFormed.1 isA)
      (evaluateInteger_handled right both.2 wellFormed.2 isB)
    refine ⟨.data (op.holds a b).toNat, result.symm, enough, fun fuel above rest => ?_⟩
    have compared := runs fuel above rest
    change evaluateSource fuel _ ((op.encode ++ (left.encode ++ right.encode)) ++ rest) = _
    rw [evaluateSource, append_assoc, parseTermarg_compare]
    dsimp only at compared
    rw [compared]
    rfl

theorem evaluateSource_unhandled (unhandled : term.handled = false)
    (wellFormed : term.WellFormed) (denotes : term.value scope memory = some value) :
    GivesUp (evaluateSource · (scope.context memory.objects)) term.encode := by
  cases term with
  | const | arg => cases unhandled
  | «local» index =>
    refine ⟨0, fun fuel _ rest => ?_⟩
    have parsed := parseTermArg_local (scope.context memory.objects) index rest wellFormed
    change Stops (evaluateSource fuel _ ([0x60 + index] ++ rest))
    rw [evaluateSource, singleton_append, parseTermarg_arg _ parsed]
    change Stops (do
      let source ←
        (orNone ((scope.context memory.objects).local_ index)).map DataRefObject.reference
      .ok (source, rest))
    rw [local_context]
    exact stops_error _
  | name path =>
    refine ⟨0, fun fuel _ rest => ?_⟩
    change Stops (evaluateSource fuel _ (path.encode ++ rest))
    rw [evaluateSource]
    exact Stops.name rest wellFormed (fun _ => stops_error _) fun _ _ => stops_error _
  | compare op left right =>
    obtain ⟨enough, stops⟩ := compare_givesUp unhandled wellFormed denotes
      (fun handled => evaluateInteger_unhandled left handled wellFormed.1)
      (fun handled => evaluateInteger_unhandled right handled wellFormed.2)
    refine ⟨enough, fun fuel above rest => ?_⟩
    change Stops (evaluateSource fuel _ ((op.encode ++ (left.encode ++ right.encode)) ++ rest))
    rw [evaluateSource, append_assoc, parseTermarg_compare]
    exact bind _ (bind _ (stops fuel above rest))

theorem target_handled (target : Target) (rest : Bytecode) (handled : target.handled = true)
    (wellFormed : target.WellFormed) : ∃ path, target = .name path ∧
      parseSimpleName (target.encode ++ rest) = .ok (.name path, rest) := by
  cases target with
  | arg | «local» => cases handled
  | name path => exact ⟨path, rfl, parseSimpleName_name path rest wellFormed handled⟩

theorem builtin_target {byte : Nat} (rest : Bytecode) {opcode : Opcode}
    (notName : (isLeadNameChar byte || byte == 0x5E || byte == 0x5C) = false)
    (parses : ∀ rest, parse (byte :: rest) = .ok (opcode, rest))
    (builtin : ∃ index, opcode = .arg index ∨ opcode = .local index) :
    Stops (parseSimpleName (byte :: rest)) ∨ ∃ dest behind opcode,
      parseSimpleName (byte :: rest) = .ok (dest, behind) ∧
        parseOk behind = .ok (opcode, rest) ∧
        ∃ index, opcode = .arg index ∨ opcode = .local index := by
  refine (parseSimpleName_builtin byte rest opcode notName parses builtin).imp id fun found => ?_
  obtain ⟨dest, parsed⟩ := found
  refine ⟨dest, _, _, parsed, ?_, builtin⟩
  rw [parseOk, parses]

theorem target_unhandled (target : Target) (rest : Bytecode) (unhandled : target.handled = false)
    (wellFormed : target.WellFormed) :
    Stops (parseSimpleName (target.encode ++ rest)) ∨ ∃ dest behind opcode,
      parseSimpleName (target.encode ++ rest) = .ok (dest, behind) ∧
        parseOk behind = .ok (opcode, rest) ∧
        ∃ index, opcode = .arg index ∨ opcode = .local index := by
  cases target with
  | name path => exact .inl (parseSimpleName_multi path rest wellFormed unhandled)
  | arg index =>
    have inRange : index < 7 := wellFormed
    refine builtin_target rest ?_ (fun rest => parse_arg index rest wellFormed) ⟨index, .inl rfl⟩
    interval_cases index <;> rfl
  | «local» index =>
    have inRange : index < 8 := wellFormed
    refine builtin_target rest ?_ (fun rest => parse_local index rest wellFormed) ⟨index, .inr rfl⟩
    interval_cases index <;> rfl

end Horizon.Aml
