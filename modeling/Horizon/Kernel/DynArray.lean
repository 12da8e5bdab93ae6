import Mathlib
/-!
# The dynamic array

`lib/dyn_array.c` with the macros of `include/dyn_array.h`. Elements lie in a chain of blocks. They
are placed at multiples of the rounded element size, and `dyn_array_get` looks for them at multiples
of the size of the C type. Bytes are of any type; `junk` is what `kmalloc` leaves in a block, and
allocations succeed.
-/

namespace Horizon

/-- What stops the kernel in an access. -/
inductive DynArrayFault
  | nullBlock
  | divideByZero
  /-- An access that leaves the data of its block. -/
  | outside

/-- A block with the count of free places that is kept in it. -/
structure DynArrayBlock (β : Type) where
  data : Nat → β
  leftSpace : Int

/-- `blocks` is the chain from `first_block` to `last_block`. -/
structure DynArray (β : Type) where
  blocks : List (DynArrayBlock β)
  size : Nat
  blockSize : Nat
  elementSize : Nat

/-- `__builtin_clz`, with whatever it gives for zero. -/
def builtinClz (ofZero x : Nat) : Nat := if x = 0 then ofZero else 31 - Nat.log2 x

/-- `find_next_pow_of_2`. -/
def findNextPowOf2 (ofZero n : Nat) : Nat :=
  if n = 0 then 1 else 2 ^ (32 - builtinClz ofZero (n - 1))

variable {β : Type}

/-- `dyn_array_new`. -/
def dynArrayNew (ofZero elementSize blockSize : Nat) (junk : Nat → β) : DynArray β :=
  ⟨[⟨junk, blockSize⟩], 0, blockSize, findNextPowOf2 ofZero (elementSize % 2 ^ 32)⟩

namespace DynArray

variable (array : DynArray β)

/-- `dyn_array_extend_block`. -/
def extendBlock (junk : Nat → β) : DynArray β :=
  { array with blocks := array.blocks ++ [⟨junk, array.blockSize⟩] }

/-- The `n` bytes of a value at an offset of a block. -/
def load (n : Nat) (block : DynArrayBlock β) (offset : Nat) : Except DynArrayFault (List β) :=
  if offset + n ≤ array.blockSize * array.elementSize then
    .ok ((List.range n).map fun i => block.data (offset + i))
  else .error .outside

def store (block : DynArrayBlock β) (offset : Nat) (value : List β) :
    Except DynArrayFault (DynArrayBlock β) :=
  if offset + value.length ≤ array.blockSize * array.elementSize then
    .ok { block with data := fun i => if offset ≤ i then value.getD (i - offset) (block.data i)
      else block.data i }
  else .error .outside

/-- The array in which `dyn_array_new_item_addr` takes an item of the last block. -/
def withSpace (junk : Nat → β) : DynArray β :=
  match array.blocks.getLast? with
  | some ⟨_, 0⟩ => if array.size ≠ 0 then array.extendBlock junk else array
  | _ => array

/-- `dyn_array_append` of a value with the given bytes. -/
def append (junk : Nat → β) (value : List β) : Except DynArrayFault (DynArray β) :=
  let array := array.withSpace junk
  match array.blocks.getLast? with
  | none => .error .nullBlock
  | some block =>
    if array.blockSize = 0 then .error .divideByZero
    else do
      let block ← array.store { block with leftSpace := block.leftSpace - 1 }
        (array.size % array.blockSize * array.elementSize) value
      return { array with blocks := array.blocks.dropLast ++ [block], size := array.size + 1 }

/-- `dyn_array_find_block`, which extends the chain up to the index. -/
def findBlock (junk : Nat → β) (idx : Nat) : DynArray β :=
  (List.range (idx + 1 - array.blocks.length)).foldl (fun array _ => array.extendBlock junk) array

/-- `dyn_array_get` for a type of `n` bytes. -/
def get (junk : Nat → β) (n idx : Nat) : Except DynArrayFault (List β) :=
  if array.blockSize = 0 then .error .divideByZero
  else
    match (array.findBlock junk (idx / array.blockSize)).blocks[idx / array.blockSize]? with
    | none => .error .nullBlock
    | some block => array.load n block (idx % array.blockSize * n)

/-- `dyn_array_is_end`, on the chain from the current block on. -/
def isEnd (chain : List (DynArrayBlock β)) (offset : Nat) : Bool :=
  chain.isEmpty && offset == array.size % array.blockSize

/-- `dyn_array_next_ptr`, which reads the data pointer of the block it has moved to. -/
def nextPtr (chain : List (DynArrayBlock β)) (offset : Nat) :
    Except DynArrayFault (List (DynArrayBlock β) × Nat) :=
  let next := if offset + 1 < array.blockSize then (chain, offset + 1) else (chain.tail, 0)
  if next.1.isEmpty then .error .nullBlock else .ok next

/-- The rounds of `dyn_array_foreach` from a block and an offset on: the values that its body sees,
or nothing when the loop has not ended. -/
def foreachLoop (n : Nat) :
    Nat → List (DynArrayBlock β) → Nat → Except DynArrayFault (Option (List (List β)))
  | 0, _, _ => .ok none
  | rounds + 1, chain, offset =>
    if array.isEnd chain offset then .ok (some [])
    else
      match chain with
      | [] => .error .nullBlock
      | block :: rest => do
        let value ← array.load n block (offset * array.elementSize)
        let next ← array.nextPtr (block :: rest) offset
        let values ← foreachLoop n rounds next.1 next.2
        return values.map (value :: ·)

/-- `dyn_array_foreach`, which starts with the data pointer of the first block. -/
def foreach (n rounds : Nat) : Except DynArrayFault (Option (List (List β))) :=
  if array.blocks.isEmpty then .error .nullBlock else array.foreachLoop n rounds array.blocks 0

end DynArray

end Horizon
