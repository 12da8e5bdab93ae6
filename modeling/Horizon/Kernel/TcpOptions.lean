import Mathlib
/-!
# The options of a TCP header

`tcp_options_handler` walks over the option bytes behind a received header and records where the
value of the MSS option stands (`driver/network/protocols/tcp.c`). Every byte read and every
position recorded is kept in a log.
-/

namespace Horizon.Tcp

def optionEnd : Nat := 0

def optionNop : Nat := 1

def optionMss : Nat := 2

/-- `TOI_MAX`, the value of an index that was not recorded. -/
def toiMax : Nat := 1

def tcpHeaderSize : Nat := 20

/-- The `options_size` of a header, from its `data_offset` byte. -/
def optionsSize (dataOffset : Nat) : Int :=
  (((dataOffset &&& 0xf0) >>> 2 : Nat) : Int) - tcpHeaderSize

/-- What one round of the loop does: the offsets it reads, the position it records, and where it
continues, if it does not break. -/
structure OptionRound where
  reads : List Nat
  recorded : Option Nat
  next : Option Nat
  deriving DecidableEq

/-- The body of the loop of `tcp_options_handler`, at offset `i` of the options. -/
def optionRound (options : Nat → Nat) (size i : Nat) : OptionRound :=
  let kind := options i
  let j := i + 1
  if kind = optionEnd then ⟨[i], none, none⟩
  else if kind = optionNop then ⟨[i], none, some j⟩
  else if size ≤ j then ⟨[i], none, none⟩
  else
    let length := options j
    if size < j + length - 1 then ⟨[i, j], none, none⟩
    else ⟨[i, j], if kind = optionMss then some (j + 1) else none, some (j + length - 1)⟩

/-- The offsets read so far, the positions recorded so far, and `indexes[TOI_MSS]`. -/
structure OptionLog where
  reads : List Nat
  recorded : List Nat
  index : Nat
  deriving DecidableEq

/-- The log before the loop, with `indexes = {TOI_MAX}`. -/
def OptionLog.empty : OptionLog := ⟨[], [], toiMax⟩

def OptionLog.add (log : OptionLog) (round : OptionRound) : OptionLog where
  reads := log.reads ++ round.reads
  recorded := log.recorded ++ round.recorded.toList
  index := round.recorded.getD log.index

/-- The loop of `tcp_options_handler`; `none` when the fuel runs out. -/
def optionsLoop (options : Nat → Nat) (size : Nat) : Nat → Nat → OptionLog → Option OptionLog
  | 0, _, _ => none
  | fuel + 1, i, log =>
    if i < size then
      let round := optionRound options size i
      match round.next with
      | none => some (log.add round)
      | some next => optionsLoop options size fuel next (log.add round)
    else some log

/-- `tcp_options_handler` on a header with the given `data_offset` byte and option bytes. -/
def tcpOptionsHandler (fuel dataOffset : Nat) (options : Nat → Nat) : Option OptionLog :=
  if optionsSize dataOffset ≤ 0 then some OptionLog.empty
  else optionsLoop options (optionsSize dataOffset).toNat fuel 0 OptionLog.empty

end Horizon.Tcp
