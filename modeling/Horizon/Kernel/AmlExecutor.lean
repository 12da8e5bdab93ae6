import Horizon.Kernel.AmlBytecode

/-!
# The AML executor

Translated from `acpi/aml/executor.rs`, `acpi/aml/executor/statements.rs`,
`acpi/aml/parser/term.rs`, `SimpleName` of `acpi/aml/parser/data.rs`, and the integer part of
`acpi/aml/evaluator.rs` and `acpi/aml/evaluator/expressions.rs`. The method runs at revision
`Integer::U32(1)`, so an operand is cut to 32 bits. A method does not change the namespace tree, so
the two ways it is searched are functions of the context. Method invocation, field units, packages,
mutexes and operators with a target are outside the model. The recursion is bounded by `fuel`.
-/

namespace Horizon.Aml

/-- `namespace::Object`, the data objects that statements read and write. -/
inductive Object where
  | integer (value : Nat)
  | string (bytes : List Nat)
  | buffer (bytes : List Nat)
deriving DecidableEq, Repr

/-- `ExecuteContext`, without its parser window. -/
structure Context where
  /-- `args`: pointers to the objects the caller passed. -/
  args : Nat → Option Nat
  locals : Nat → Option Nat
  /-- `ExecuteContext::get_namespace`, then `NameSpace::object`. -/
  getNamespace : Path → Option Nat
  /-- `parser.current.get(root, name)`, then `NameSpace::object`. -/
  get : Path → Option Nat
  objects : Nat → Object

/-- `Option::ok_or`, under a `?` or an `.ok()?`. -/
def orNone {α : Type} : Option α → Except Stop α
  | some value => .ok value
  | none => .error .none

namespace Context

/-- `ExecuteContext::argument`. -/
def argument (ctx : Context) (index : Nat) : Option Nat :=
  if index < 7 then ctx.args index else none

/-- `ExecuteContext::local`. -/
def local_ (ctx : Context) (index : Nat) : Option Nat :=
  if index < 8 then ctx.locals index else none

/-- `Expressions::store_to_object` at an object. -/
def write (ctx : Context) (pointer : Nat) (object : Object) : Context :=
  { ctx with objects := Function.update ctx.objects pointer object }

end Context

/-- What a term evaluates to. -/
inductive DataRefObject where
  | data (value : Nat)
  | reference (pointer : Nat)
deriving DecidableEq, Repr

/-- An operand of a term, before it is evaluated. -/
inductive TermArg where
  | object (pointer : Nat)
  | dataObject (value : Nat)
  | arg (index : Nat)
  | local (index : Nat)
deriving DecidableEq, Repr

/-- `DataObject::parse` for the integers. A missing byte of `ByteConst` is `None`; a short
`WordConst`, `DWordConst` or `QWordConst` panics in `read`. -/
def parseDataObject (opcode : Opcode) (bytecode : Bytecode) : Except Stop (Option Nat × Bytecode) :=
  match opcode with
  | .zero => .ok (some 0, bytecode)
  | .one => .ok (some 1, bytecode)
  | .ones => .ok (some (2 ^ 64 - 1), bytecode)
  | .byte =>
    match bytecode with
    | [] => .ok (none, [])
    | byte :: rest => .ok (some byte, rest)
  | .word => (bytecode.read 2).map fun (bytes, rest) => (some (fromLeBytes bytes), rest)
  | .dword => (bytecode.read 4).map fun (bytes, rest) => (some (fromLeBytes bytes), rest)
  | .qword => (bytecode.read 8).map fun (bytes, rest) => (some (fromLeBytes bytes), rest)
  | .other => .error .notModelled
  | _ => .ok (none, bytecode)

/-- `TermArg::parse`: the outer error is a panic, the inner one the source's `Result`. -/
def parseTermArg (ctx : Context) (bytecode : Bytecode) :
    Except Stop (Except (Option Opcode) TermArg × Bytecode) :=
  match Opcode.parse bytecode with
  | .ok (opcode, rest) => do
    let (data, rest) ← parseDataObject opcode rest
    match data with
    | some value => .ok (.ok (.dataObject value), rest)
    | none =>
      match opcode with
      | .arg index => .ok (.ok (.arg index), rest)
      | .local index => .ok (.ok (.local index), rest)
      | _ => .ok (.error (some opcode), rest)
  | .error (some byte) =>
    if isLeadNameChar byte then
      match namestringFromBytes bytecode with
      | .ok (path, rest) =>
        match ctx.get path with
        | some pointer => .ok (.ok (.object pointer), rest)
        | none => .ok (.error none, rest)
      | .error .none => .ok (.error none, bytecode)
      | .error stop => .error stop
    else .ok (.error none, bytecode)
  | .error none => .ok (.error none, bytecode)

/-- `Expressions::binary_cmp`, over `Expressions::evaluate_integer`. -/
def binaryCmp (evaluateInteger : Bytecode → Except Stop (Nat × Bytecode))
    (cmp : Nat → Nat → Bool) (bytecode : Bytecode) : Except Stop (Nat × Bytecode) := do
  let (a, bytecode) ← evaluateInteger bytecode
  let (b, bytecode) ← evaluateInteger bytecode
  .ok ((cmp a b).toNat, bytecode)

/-- `Expressions::evaluate_expression`, the comparisons; its last arm is `todo!()`. -/
def evaluateExpression (evaluateInteger : Bytecode → Except Stop (Nat × Bytecode))
    (opcode : Opcode) (bytecode : Bytecode) : Except Stop (Nat × Bytecode) :=
  match opcode with
  | .lEqual => binaryCmp evaluateInteger (fun a b => a == b) bytecode
  | .lGreater => binaryCmp evaluateInteger (fun a b => decide (b < a)) bytecode
  | .lLess => binaryCmp evaluateInteger (fun a b => decide (a < b)) bytecode
  | .lNotEqual => binaryCmp evaluateInteger (fun a b => a != b) bytecode
  | .lLessEqual => binaryCmp evaluateInteger (fun a b => decide (a ≤ b)) bytecode
  | .lGreaterEqual => binaryCmp evaluateInteger (fun a b => decide (b ≤ a)) bytecode
  | .other => .error .notModelled
  | _ => .error .panic

/-- `Expressions::parse_termarg`: `Ok` holds an evaluated expression or `None`, `Err` the
operand still to be evaluated. -/
def parseTermarg (evaluateInteger : Bytecode → Except Stop (Nat × Bytecode)) (ctx : Context)
    (bytecode : Bytecode) : Except Stop (Except TermArg (Option DataRefObject) × Bytecode) := do
  let (arg, bytecode) ← parseTermArg ctx bytecode
  match arg with
  | .ok arg => .ok (.error arg, bytecode)
  | .error (some opcode) =>
    let (value, bytecode) ← evaluateExpression evaluateInteger opcode bytecode
    .ok (.ok (some (.data value)), bytecode)
  | .error none => .ok (.ok none, bytecode)

/-- `Evaluatable::evaluate_integer`. -/
def integerOf (ctx : Context) (pointer : Nat) : Except Stop Nat :=
  match ctx.objects pointer with
  | .integer value => .ok (value % 2 ^ 32)
  | _ => .error .none

/-- `Expressions::evaluate_integer`. -/
def evaluateInteger : Nat → Context → Bytecode → Except Stop (Nat × Bytecode)
  | 0, _, _ => .error .outOfFuel
  | fuel + 1, ctx, bytecode => do
    let (arg, bytecode) ← parseTermarg (evaluateInteger fuel ctx) ctx bytecode
    match arg with
    | .error (.object _) => .error .none
    | .error (.dataObject value) => .ok (value % 2 ^ 32, bytecode)
    | .error (.arg index) =>
      let value ← integerOf ctx (← orNone (ctx.argument index))
      .ok (value, bytecode)
    | .error (.local index) =>
      let value ← integerOf ctx (← orNone (ctx.local_ index))
      .ok (value, bytecode)
    | .ok (some (.data value)) => .ok (value, bytecode)
    | .ok (some (.reference pointer)) =>
      let value ← integerOf ctx pointer
      .ok (value, bytecode)
    | .ok none => .error .none

/-- `Evaluatable::from(arg)` and its evaluation to a `DataRefObject`. A named object panics: in
`Evaluatable::from` for a store, in `execute_return` for a return. -/
def evaluateTermArg (ctx : Context) : TermArg → Except Stop DataRefObject
  | .object _ => .error .panic
  | .dataObject value => .ok (.data (value % 2 ^ 32))
  | .arg index => (orNone (ctx.argument index)).map .reference
  | .local index => (orNone (ctx.local_ index)).map .reference

/-- The operand of a `Store` or a `Return`: the first step of `Executor::execute_store`, the whole
of `Executor::execute_return`. -/
def evaluateSource (fuel : Nat) (ctx : Context) (bytecode : Bytecode) :
    Except Stop (DataRefObject × Bytecode) := do
  let (arg, bytecode) ← parseTermarg (evaluateInteger fuel ctx) ctx bytecode
  match arg with
  | .ok data =>
    let source ← orNone data
    .ok (source, bytecode)
  | .error arg =>
    let source ← evaluateTermArg ctx arg
    .ok (source, bytecode)

/-- Where a result can be stored. -/
inductive SuperName where
  | name (path : Path)
  | arg (index : Nat)
  | local (index : Nat)
deriving DecidableEq, Repr

/-- `SimpleName::parse`, with the caller's `Err(_) => return None`. A builtin is parsed from a
two-byte slice of the window, so it is not consumed. -/
def parseSimpleName (bytecode : Bytecode) : Except Stop (SuperName × Bytecode) :=
  match bytecode with
  | [] => .error .none
  | first :: rest =>
    if isLeadNameChar first || first == 0x5E || first == 0x5C then do
      let (path, rest) ← namestringFromBytes (first :: rest)
      .ok (.name path, rest)
    else do
      let slice ← Bytecode.slice (first :: rest) 2
      let (opcode, _) ← Opcode.parseOk slice
      match opcode with
      | .arg index => .ok (.arg index, first :: rest)
      | .local index => .ok (.local index, first :: rest)
      | .other => .error .notModelled
      | _ => .error .none

/-- `SuperName::evaluate`. -/
def evaluateSuperName (ctx : Context) : SuperName → Except Stop Nat
  | .name path => orNone (ctx.getNamespace path)
  | .arg index => orNone (ctx.argument index)
  | .local index => orNone (ctx.local_ index)

/-- The value a `DataRefObject` stands for. -/
def DataRefObject.read (ctx : Context) : DataRefObject → Object
  | .data value => .integer value
  | .reference pointer => ctx.objects pointer

/-- `Executor::execute_store`; `store_to_object` leaves the source's value in the target. -/
def executeStore (fuel : Nat) (ctx : Context) (bytecode : Bytecode) :
    Except Stop (Context × Bytecode) := do
  let (source, bytecode) ← evaluateSource fuel ctx bytecode
  let (dest, bytecode) ← parseSimpleName bytecode
  let pointer ← evaluateSuperName ctx dest
  .ok (ctx.write pointer (source.read ctx), bytecode)

/-- The new value of `Executor::execute_inc_dec`: `Integer::U64` arithmetic wraps, and an object
that is no integer is left alone. -/
def Object.incDec (up : Bool) : Object → Object
  | .integer value =>
    .integer (if up then (value + 1) % 2 ^ 64 else (value + (2 ^ 64 - 1)) % 2 ^ 64)
  | object => object

/-- `Executor::execute_inc_dec`. -/
def executeIncDec (up : Bool) (ctx : Context) (bytecode : Bytecode) :
    Except Stop (Context × Bytecode) := do
  let (dest, bytecode) ← parseSimpleName bytecode
  let pointer ← evaluateSuperName ctx dest
  .ok (ctx.write pointer ((ctx.objects pointer).incDec up), bytecode)

/-- Why a block of statements is left early. -/
inductive BreakKind where
  | returned (value : DataRefObject)
  | broken
  | continued
deriving DecidableEq, Repr

/-- How a statement ends: with the next one, or by leaving the block. -/
inductive ControlFlow where
  | proceed
  | leave (kind : BreakKind)
deriving DecidableEq, Repr

abbrev Executed := Except Stop (ControlFlow × Context)

/-- The loop of `Executor::execute_while`, over `Executor::execute`. Each round starts on the whole
`body` and executes what the predicate leaves of it. -/
def whileRounds (evaluate : Context → Bytecode → Except Stop (Nat × Bytecode))
    (execute : Context → Bytecode → Executed) (body : Bytecode) : Nat → Context → Executed
  | 0, _ => .error .outOfFuel
  | rounds + 1, ctx => do
    let (predicate, slice) ← evaluate ctx body
    if predicate = 0 then
      .ok (.proceed, ctx)
    else
      let (result, ctx) ← execute ctx slice
      match result with
      | .leave .continued => whileRounds evaluate execute body rounds ctx
      | .leave .broken => .ok (.proceed, ctx)
      | .leave (.returned value) => .ok (.leave (.returned value), ctx)
      | .proceed => whileRounds evaluate execute body rounds ctx

/-- `Executor::execute_while`. The window is rebuilt from the loop body, and the rest of it is
skipped after the loop: the window left behind is empty. -/
def executeWhile (evaluate : Context → Bytecode → Except Stop (Nat × Bytecode))
    (execute : Context → Bytecode → Executed) (rounds : Nat) (ctx : Context)
    (bytecode : Bytecode) : Except Stop (ControlFlow × Context × Bytecode) := do
  let (length, bytecode) ← PkgLength.fromBytes bytecode
  let bodyLen ← length.payloadLength
  -- a body that reaches past the window is read out of bounds
  if bytecode.length < bodyLen then
    .error .notModelled
  else
    let (result, ctx) ← whileRounds evaluate execute (bytecode.take bodyLen) rounds ctx
    .ok (result, ctx, [])

/-- The second half of `Executor::execute_if_else`: an `Else` behind the package is taken or
skipped. -/
def executeElse (execute : Context → Bytecode → Executed) (predicate : Bool)
    (then_ : ControlFlow) (ctx : Context) (bytecode : Bytecode) :
    Except Stop (ControlFlow × Context × Bytecode) := do
  if bytecode.isEmpty then
    .ok (then_, ctx, bytecode)
  else
    let (opcode, behind) ← Opcode.parseOk bytecode
    if opcode = .elseOp then
      let (length, bytecode) ← PkgLength.fromBytes behind
      let sliceLength ← length.payloadLength
      if predicate then
        let bytecode ← bytecode.skip sliceLength
        .ok (then_, ctx, bytecode)
      else
        let slice ← bytecode.slice sliceLength
        let (result, ctx) ← execute ctx slice
        let bytecode ← bytecode.skip sliceLength
        .ok (result, ctx, bytecode)
    else
      .ok (then_, ctx, bytecode)

/-- The middle of `Executor::execute_if_else`: the `sliceLength` bytes behind the predicate are
executed or skipped. -/
def executeThen (execute : Context → Bytecode → Executed) (predicate sliceLength : Nat)
    (ctx : Context) (bytecode : Bytecode) : Except Stop (ControlFlow × Context × Bytecode) :=
  if predicate = 0 then do
    let behind ← bytecode.skip sliceLength
    executeElse execute false .proceed ctx behind
  else do
    let slice ← bytecode.slice sliceLength
    let (then_, ctx) ← execute ctx slice
    let behind ← bytecode.skip sliceLength
    executeElse execute true then_ ctx behind

/-- `Executor::execute_if_else`. -/
def executeIfElse (evaluate : Context → Bytecode → Except Stop (Nat × Bytecode))
    (execute : Context → Bytecode → Executed) (ctx : Context) (bytecode : Bytecode) :
    Except Stop (ControlFlow × Context × Bytecode) := do
  let (length, start) ← PkgLength.fromBytes bytecode
  let (predicate, bytecode) ← evaluate ctx start
  let payload ← length.payloadLength
  -- the subtraction of the consumed bytes panics on underflow
  if payload < start.length - bytecode.length then
    .error .panic
  else
    executeThen execute predicate (payload - (start.length - bytecode.length)) ctx bytecode

/-- `Executor::execute`, over the window `bytecode`. -/
def execute : Nat → Context → Bytecode → Executed
  | 0, _, _ => .error .outOfFuel
  | fuel + 1, ctx, bytecode => do
    let (opcode, bytecode) ← Opcode.parseOk bytecode
    match opcode with
    | .store =>
      let (ctx, bytecode) ← executeStore fuel ctx bytecode
      execute fuel ctx bytecode
    | .increment =>
      let (ctx, bytecode) ← executeIncDec true ctx bytecode
      execute fuel ctx bytecode
    | .decrement =>
      let (ctx, bytecode) ← executeIncDec false ctx bytecode
      execute fuel ctx bytecode
    | .whileOp =>
      let (result, ctx, bytecode) ←
        executeWhile (evaluateInteger fuel) (execute fuel) fuel ctx bytecode
      match result with
      | .leave (.returned value) => .ok (.leave (.returned value), ctx)
      | .proceed => execute fuel ctx bytecode
      | _ => .error .panic
    | .returnOp =>
      let (value, _) ← evaluateSource fuel ctx bytecode
      .ok (.leave (.returned value), ctx)
    | .breakOp => .ok (.leave .broken, ctx)
    | .continueOp => .ok (.leave .continued, ctx)
    | .ifOp =>
      let (result, ctx, bytecode) ←
        executeIfElse (evaluateInteger fuel) (execute fuel) ctx bytecode
      match result with
      | .leave (.returned value) => .ok (.leave (.returned value), ctx)
      | .proceed => execute fuel ctx bytecode
      | _ => .error .panic
    | .acquire => .error .notModelled
    | .release => .error .notModelled
    | _ => .error .none

end Horizon.Aml
