import Horizon.Kernel.AmlExecutor

/-!
# AML method bodies: syntax, bytecode and big-step semantics

A `Block` is a statement list of a method and `Block.encode` its bytecode. `Big` is the structural
big-step semantics. `Handled` is the part of it that the executor carries out, one rule for each way
a statement can go right; it has none for the end of a block, where `execute` reads an opcode and
fails.
-/

namespace Horizon.Aml

/-- A constant, as it is written in the bytecode. -/
inductive Const where
  | zero | one | ones
  | byte (value : Nat)
  | word (value : Nat)
  | dword (value : Nat)
  | qword (value : Nat)
deriving DecidableEq, Repr

/-- The comparison operators. -/
inductive Comparison where
  | equal | greater | less | notEqual | lessEqual | greaterEqual
deriving DecidableEq, Repr

/-- An operand that is read: `TermArg`. -/
inductive Term where
  | const (value : Const)
  | arg (index : Nat)
  | local (index : Nat)
  | name (path : Path)
  | compare (op : Comparison) (left right : Term)
deriving DecidableEq, Repr

/-- An operand that is written: `SuperName`. -/
inductive Target where
  | arg (index : Nat)
  | local (index : Nat)
  | name (path : Path)
deriving DecidableEq, Repr

/-- Statements one after the other. -/
inductive Block where
  | done
  | store (source : Term) (target : Target) (rest : Block)
  | incDec (up : Bool) (target : Target) (rest : Block)
  | ifThen (predicate : Term) (thenBlock rest : Block)
  | ifElse (predicate : Term) (thenBlock elseBlock rest : Block)
  | whileLoop (predicate : Term) (body rest : Block)
  | returned (value : Term) (rest : Block)
  | broken (rest : Block)
  | continued (rest : Block)
deriving DecidableEq, Repr

/-- `uN::to_le_bytes` on `width` bytes. -/
def toLeBytes : Nat → Nat → List Nat
  | 0, _ => []
  | width + 1, value => value % 256 :: toLeBytes width (value / 256)

def Const.encode : Const → Bytecode
  | zero => [0x00]
  | one => [0x01]
  | ones => [0xFF]
  | byte value => [0x0A, value]
  | word value => 0x0B :: toLeBytes 2 value
  | dword value => 0x0C :: toLeBytes 4 value
  | qword value => 0x0E :: toLeBytes 8 value

def Comparison.encode : Comparison → Bytecode
  | equal => [0x93]
  | greater => [0x94]
  | less => [0x95]
  | notEqual => [0x92, 0x93]
  | lessEqual => [0x92, 0x94]
  | greaterEqual => [0x92, 0x95]

/-- The bytes of the segments of a name: bare, dual or multiple. -/
def encodeSegments (segments : List (List Nat)) : Bytecode :=
  if segments.length = 1 then segments.flatten
  else if segments.length = 2 then 0x2E :: segments.flatten
  else 0x2F :: segments.length :: segments.flatten

def Path.encode : Path → Bytecode
  | root path => 0x5C :: encodeSegments path
  | relative level path => List.replicate level 0x5E ++ encodeSegments path

def Term.encode : Term → Bytecode
  | const value => value.encode
  | arg index => [0x68 + index]
  | .local index => [0x60 + index]
  | name path => path.encode
  | compare op left right => op.encode ++ (left.encode ++ right.encode)

def Target.encode : Target → Bytecode
  | arg index => [0x68 + index]
  | .local index => [0x60 + index]
  | name path => path.encode

/-- The package length in front of a payload of `payload` bytes, in its shortest form. -/
def encodePkgLength (payload : Nat) : Bytecode :=
  if payload + 1 < 2 ^ 6 then [payload + 1]
  else if payload + 2 < 2 ^ 12 then [0x40 + (payload + 2) % 16, (payload + 2) / 16]
  else if payload + 3 < 2 ^ 20 then
    [0x80 + (payload + 3) % 16, (payload + 3) / 16 % 256, (payload + 3) / 2 ^ 12]
  else
    [0xC0 + (payload + 4) % 16, (payload + 4) / 16 % 256, (payload + 4) / 2 ^ 12 % 256,
      (payload + 4) / 2 ^ 20]

def package (payload : Bytecode) : Bytecode := encodePkgLength payload.length ++ payload

def Block.encode : Block → Bytecode
  | done => []
  | store source target rest => 0x70 :: (source.encode ++ (target.encode ++ rest.encode))
  | incDec up target rest => (if up then 0x75 else 0x76) :: (target.encode ++ rest.encode)
  | ifThen predicate thenBlock rest =>
    0xA0 :: (package (predicate.encode ++ thenBlock.encode) ++ rest.encode)
  | ifElse predicate thenBlock elseBlock rest =>
    0xA0 :: (package (predicate.encode ++ thenBlock.encode)
      ++ (0xA1 :: (package elseBlock.encode ++ rest.encode)))
  | whileLoop predicate body rest =>
    0xA2 :: (package (predicate.encode ++ body.encode) ++ rest.encode)
  | returned value rest => 0xA4 :: (value.encode ++ rest.encode)
  | broken rest => 0xA5 :: rest.encode
  | continued rest => 0x9F :: rest.encode

/-- The value fits the width it is written with. -/
def Const.WellFormed : Const → Prop
  | byte value => value < 2 ^ 8
  | word value => value < 2 ^ 16
  | dword value => value < 2 ^ 32
  | qword value => value < 2 ^ 64
  | _ => True

instance : (constant : Const) → Decidable constant.WellFormed
  | .zero => .isTrue trivial
  | .one => .isTrue trivial
  | .ones => .isTrue trivial
  | .byte value => inferInstanceAs (Decidable (value < 2 ^ 8))
  | .word value => inferInstanceAs (Decidable (value < 2 ^ 16))
  | .dword value => inferInstanceAs (Decidable (value < 2 ^ 32))
  | .qword value => inferInstanceAs (Decidable (value < 2 ^ 64))

/-- The segments of a name: at least one and at most 255, of four bytes each, the first of them a
lead name character. -/
def SegmentsWellFormed (segments : List (List Nat)) : Prop :=
  0 < segments.length ∧ segments.length < 256 ∧
    ∀ segment ∈ segments, segment.length = 4 ∧ segment.head?.any isLeadNameChar = true

instance (segments : List (List Nat)) : Decidable (SegmentsWellFormed segments) :=
  inferInstanceAs (Decidable (_ ∧ _ ∧ _))

/-- A name has well-formed segments, and its carets fit the `u8` they are counted in. -/
def Path.WellFormed : Path → Prop
  | root path => SegmentsWellFormed path
  | relative level path => level < 256 ∧ SegmentsWellFormed path

instance : (path : Path) → Decidable path.WellFormed
  | .root path => inferInstanceAs (Decidable (SegmentsWellFormed path))
  | .relative level path => inferInstanceAs (Decidable (level < 256 ∧ SegmentsWellFormed path))

/-- The indices of arguments and locals exist, and names and constants are well formed. -/
def Term.WellFormed : Term → Prop
  | const value => value.WellFormed
  | arg index => index < 7
  | .local index => index < 8
  | name path => path.WellFormed
  | compare _ left right => left.WellFormed ∧ right.WellFormed

def Term.decWellFormed : (term : Term) → Decidable term.WellFormed
  | const value => inferInstanceAs (Decidable value.WellFormed)
  | arg index => inferInstanceAs (Decidable (index < 7))
  | .local index => inferInstanceAs (Decidable (index < 8))
  | name path => inferInstanceAs (Decidable path.WellFormed)
  | compare _ left right => @instDecidableAnd _ _ left.decWellFormed right.decWellFormed

instance (term : Term) : Decidable term.WellFormed := term.decWellFormed

/-- The index of the argument or local exists, or the name is well formed. -/
def Target.WellFormed : Target → Prop
  | arg index => index < 7
  | .local index => index < 8
  | name path => path.WellFormed

instance : (target : Target) → Decidable target.WellFormed
  | .arg index => inferInstanceAs (Decidable (index < 7))
  | .local index => inferInstanceAs (Decidable (index < 8))
  | .name path => inferInstanceAs (Decidable path.WellFormed)

/-- A package length can be written for the payload. -/
def PackageFits (payload : Bytecode) : Prop := payload.length + 4 < 2 ^ 28

instance (payload : Bytecode) : Decidable (PackageFits payload) :=
  inferInstanceAs (Decidable (_ < _))

/-- A statement list whose operands are well formed and whose packages fit. -/
def Block.WellFormed : Block → Prop
  | done => True
  | store source target rest => source.WellFormed ∧ target.WellFormed ∧ rest.WellFormed
  | incDec _ target rest => target.WellFormed ∧ rest.WellFormed
  | ifThen predicate thenBlock rest =>
    predicate.WellFormed ∧ thenBlock.WellFormed ∧ rest.WellFormed ∧
      PackageFits (predicate.encode ++ thenBlock.encode)
  | ifElse predicate thenBlock elseBlock rest =>
    predicate.WellFormed ∧ thenBlock.WellFormed ∧ elseBlock.WellFormed ∧ rest.WellFormed ∧
      PackageFits (predicate.encode ++ thenBlock.encode) ∧ PackageFits elseBlock.encode
  | whileLoop predicate body rest =>
    predicate.WellFormed ∧ body.WellFormed ∧ rest.WellFormed ∧
      PackageFits (predicate.encode ++ body.encode)
  | returned value rest => value.WellFormed ∧ rest.WellFormed
  | broken rest => rest.WellFormed
  | continued rest => rest.WellFormed

def Block.decWellFormed : (block : Block) → Decidable block.WellFormed
  | done => .isTrue trivial
  | store source target rest =>
    have := rest.decWellFormed
    inferInstanceAs (Decidable (source.WellFormed ∧ target.WellFormed ∧ rest.WellFormed))
  | incDec _ target rest =>
    have := rest.decWellFormed
    inferInstanceAs (Decidable (target.WellFormed ∧ rest.WellFormed))
  | ifThen predicate thenBlock rest =>
    have := thenBlock.decWellFormed
    have := rest.decWellFormed
    inferInstanceAs (Decidable (predicate.WellFormed ∧ thenBlock.WellFormed ∧ rest.WellFormed ∧
      PackageFits (predicate.encode ++ thenBlock.encode)))
  | ifElse predicate thenBlock elseBlock rest =>
    have := thenBlock.decWellFormed
    have := elseBlock.decWellFormed
    have := rest.decWellFormed
    inferInstanceAs (Decidable (predicate.WellFormed ∧ thenBlock.WellFormed ∧
      elseBlock.WellFormed ∧ rest.WellFormed ∧
      PackageFits (predicate.encode ++ thenBlock.encode) ∧ PackageFits elseBlock.encode))
  | whileLoop predicate body rest =>
    have := body.decWellFormed
    have := rest.decWellFormed
    inferInstanceAs (Decidable (predicate.WellFormed ∧ body.WellFormed ∧ rest.WellFormed ∧
      PackageFits (predicate.encode ++ body.encode)))
  | returned value rest =>
    have := rest.decWellFormed
    inferInstanceAs (Decidable (value.WellFormed ∧ rest.WellFormed))
  | broken rest => rest.decWellFormed
  | continued rest => rest.decWellFormed

instance (block : Block) : Decidable block.WellFormed := block.decWellFormed

/-- What a method sees and does not change: its argument pointers and how its names resolve,
as a target and as an operand. -/
structure Scope where
  args : Nat → Option Nat
  target : Path → Option Nat
  operand : Path → Option Nat

/-- What a method changes: the objects behind names and arguments, and its locals. -/
structure Memory where
  objects : Nat → Object
  locals : Nat → Option Object

def Const.value : Const → Nat
  | zero => 0
  | one => 1
  | ones => 2 ^ 64 - 1
  | byte value => value
  | word value => value
  | dword value => value
  | qword value => value

def Comparison.holds : Comparison → Nat → Nat → Bool
  | equal, a, b => a == b
  | greater, a, b => decide (b < a)
  | less, a, b => decide (a < b)
  | notEqual, a, b => a != b
  | lessEqual, a, b => decide (a ≤ b)
  | greaterEqual, a, b => decide (b ≤ a)

/-- An object read as an integer of the method's revision. -/
def Object.toInteger : Object → Option Nat
  | integer value => some (value % 2 ^ 32)
  | _ => none

def Term.value (scope : Scope) (memory : Memory) : Term → Option Object
  | const constant => some (.integer (constant.value % 2 ^ 32))
  | arg index => (scope.args index).map memory.objects
  | .local index => memory.locals index
  | name path => (scope.operand path).map memory.objects
  | compare op left right =>
    match (left.value scope memory).bind Object.toInteger,
      (right.value scope memory).bind Object.toInteger with
    | some a, some b => some (.integer (op.holds a b).toNat)
    | _, _ => none

def Term.integer (scope : Scope) (memory : Memory) (term : Term) : Option Nat :=
  (term.value scope memory).bind Object.toInteger

def Memory.setObject (memory : Memory) (pointer : Nat) (object : Object) : Memory :=
  ⟨Function.update memory.objects pointer object, memory.locals⟩

def Memory.setLocal (memory : Memory) (index : Nat) (object : Object) : Memory :=
  ⟨memory.objects, Function.update memory.locals index (some object)⟩

def Target.read (scope : Scope) (memory : Memory) : Target → Option Object
  | arg index => (scope.args index).map memory.objects
  | .local index => memory.locals index
  | name path => (scope.target path).map memory.objects

def Target.write (scope : Scope) (memory : Memory) (object : Object) : Target → Option Memory
  | arg index => (scope.args index).map (memory.setObject · object)
  | .local index => some (memory.setLocal index object)
  | name path => (scope.target path).map (memory.setObject · object)

/-- How a block ends. -/
inductive Flow where
  | normal
  | broken
  | continued
  | returned (value : Object)
deriving DecidableEq, Repr

/-- Structural big-step semantics: `Big scope block memory flow memory'` when `block`, started in
`memory`, ends as `flow` in `memory'`. -/
inductive Big (scope : Scope) : Block → Memory → Flow → Memory → Prop where
  | done {memory} : Big scope .done memory .normal memory
  | store {source target rest memory value stored flow final} :
      source.value scope memory = some value →
      target.write scope memory value = some stored →
      Big scope rest stored flow final →
      Big scope (.store source target rest) memory flow final
  | incDec {up target rest memory value stored flow final} :
      target.read scope memory = some value →
      target.write scope memory (value.incDec up) = some stored →
      Big scope rest stored flow final →
      Big scope (.incDec up target rest) memory flow final
  | ifThen {predicate thenBlock rest memory n between flow final} :
      predicate.integer scope memory = some n →
      Big scope (if n = 0 then .done else thenBlock) memory .normal between →
      Big scope rest between flow final →
      Big scope (.ifThen predicate thenBlock rest) memory flow final
  | ifThenAbrupt {predicate thenBlock rest memory n flow final} :
      predicate.integer scope memory = some n →
      Big scope (if n = 0 then .done else thenBlock) memory flow final → flow ≠ .normal →
      Big scope (.ifThen predicate thenBlock rest) memory flow final
  | ifElse {predicate thenBlock elseBlock rest memory n between flow final} :
      predicate.integer scope memory = some n →
      Big scope (if n = 0 then elseBlock else thenBlock) memory .normal between →
      Big scope rest between flow final →
      Big scope (.ifElse predicate thenBlock elseBlock rest) memory flow final
  | ifElseAbrupt {predicate thenBlock elseBlock rest memory n flow final} :
      predicate.integer scope memory = some n →
      Big scope (if n = 0 then elseBlock else thenBlock) memory flow final → flow ≠ .normal →
      Big scope (.ifElse predicate thenBlock elseBlock rest) memory flow final
  | whileDone {predicate body rest memory flow final} :
      predicate.integer scope memory = some 0 →
      Big scope rest memory flow final →
      Big scope (.whileLoop predicate body rest) memory flow final
  | whileNext {predicate body rest memory n round between flow final} :
      predicate.integer scope memory = some n → n ≠ 0 →
      Big scope body memory round between → round = .normal ∨ round = .continued →
      Big scope (.whileLoop predicate body rest) between flow final →
      Big scope (.whileLoop predicate body rest) memory flow final
  | whileBroken {predicate body rest memory n between flow final} :
      predicate.integer scope memory = some n → n ≠ 0 →
      Big scope body memory .broken between →
      Big scope rest between flow final →
      Big scope (.whileLoop predicate body rest) memory flow final
  | whileReturned {predicate body rest memory n value final} :
      predicate.integer scope memory = some n → n ≠ 0 →
      Big scope body memory (.returned value) final →
      Big scope (.whileLoop predicate body rest) memory (.returned value) final
  | returned {term rest memory value} :
      term.value scope memory = some value →
      Big scope (.returned term rest) memory (.returned value) memory
  | broken {rest memory} : Big scope (.broken rest) memory .broken memory
  | continued {rest memory} : Big scope (.continued rest) memory .continued memory

/-- The operands the executor can read: constants, arguments and comparisons of them. -/
def Term.handled : Term → Bool
  | const _ => true
  | arg _ => true
  | .local _ => false
  | name _ => false
  | compare _ left right => left.handled && right.handled

/-- The targets the executor can write: a name of one segment, or behind `\` or `^`. -/
def Target.handled : Target → Bool
  | arg _ => false
  | .local _ => false
  | name (.root _) => true
  | name (.relative level path) => decide (0 < level) || decide (path.length = 1)

/-- The executions of `Big` that the executor carries out: operands it can read and write, every
`If` branch entered ends in a `Return`, a loop is left by a `Return` only and goes on by a
`Continue` of its own body, and no block runs off its end. -/
inductive Handled (scope : Scope) : Block → Memory → Flow → Memory → Prop where
  | store {source target rest memory value stored flow final} :
      source.handled = true → target.handled = true →
      source.value scope memory = some value →
      target.write scope memory value = some stored →
      Handled scope rest stored flow final →
      Handled scope (.store source target rest) memory flow final
  | incDec {up target rest memory value stored flow final} :
      target.handled = true →
      target.read scope memory = some value →
      target.write scope memory (value.incDec up) = some stored →
      Handled scope rest stored flow final →
      Handled scope (.incDec up target rest) memory flow final
  | ifThenSkipped {predicate thenBlock rest memory flow final} :
      predicate.handled = true → predicate.integer scope memory = some 0 →
      Handled scope rest memory flow final →
      Handled scope (.ifThen predicate thenBlock rest) memory flow final
  | ifThenReturned {predicate thenBlock rest memory n value final} :
      predicate.handled = true → predicate.integer scope memory = some n → n ≠ 0 →
      Handled scope thenBlock memory (.returned value) final →
      Handled scope (.ifThen predicate thenBlock rest) memory (.returned value) final
  | ifElseReturned {predicate thenBlock elseBlock rest memory n value final} :
      predicate.handled = true → predicate.integer scope memory = some n →
      Handled scope (if n = 0 then elseBlock else thenBlock) memory (.returned value) final →
      Handled scope (.ifElse predicate thenBlock elseBlock rest) memory (.returned value) final
  | whileNext {predicate body rest memory n between flow final} :
      predicate.handled = true → predicate.integer scope memory = some n → n ≠ 0 →
      Handled scope body memory .continued between →
      Handled scope (.whileLoop predicate body rest) between flow final →
      Handled scope (.whileLoop predicate body rest) memory flow final
  | whileReturned {predicate body rest memory n value final} :
      predicate.handled = true → predicate.integer scope memory = some n → n ≠ 0 →
      Handled scope body memory (.returned value) final →
      Handled scope (.whileLoop predicate body rest) memory (.returned value) final
  | returned {term rest memory value} :
      term.handled = true → term.value scope memory = some value →
      Handled scope (.returned term rest) memory (.returned value) memory
  | broken {rest memory} : Handled scope (.broken rest) memory .broken memory
  | continued {rest memory} : Handled scope (.continued rest) memory .continued memory

/-- The context a method starts in: `ExecuteContext::new` leaves every local empty. -/
def Scope.context (scope : Scope) (objects : Nat → Object) : Context :=
  ⟨scope.args, fun _ => none, scope.target, scope.operand, objects⟩

def Memory.start (objects : Nat → Object) : Memory := ⟨objects, fun _ => none⟩

/-- A way to end of `execute` is a way to end of the semantics, with the same value. -/
def SameFlow (ctx : Context) : Flow → ControlFlow → Prop
  | .normal, .proceed => True
  | .broken, .leave .broken => True
  | .continued, .leave .continued => True
  | .returned value, .leave (.returned data) => data.read ctx = value
  | _, _ => False

/-- The result of `execute` says the same as the big-step result: the same way to end with the
same value, the same objects and locals, and the arguments as they were passed. -/
structure Answers (scope : Scope) (flow : Flow) (final : Memory) (result : ControlFlow)
    (ctx : Context) : Prop where
  flow : SameFlow ctx flow result
  objects : ctx.objects = final.objects
  locals : ∀ index, (ctx.locals index).map ctx.objects = final.locals index
  args : ctx.args = scope.args

/-- With enough fuel, executing the bytecode of `body` gives the big-step result. -/
def Agrees (scope : Scope) (body : Block) (objects : Nat → Object) (flow : Flow)
    (final : Memory) : Prop :=
  ∃ enough, ∀ fuel, enough ≤ fuel → ∃ result ctx,
    execute fuel (scope.context objects) body.encode = .ok (result, ctx)
      ∧ Answers scope flow final result ctx

end Horizon.Aml
