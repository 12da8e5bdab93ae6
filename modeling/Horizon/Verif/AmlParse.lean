import Horizon.Verif.AmlSemantics

/-!
# Parsing what was encoded

The parser read back over `encode`: package lengths, integer constants, operands and targets, each
in front of an arbitrary rest of the window.
-/

namespace Horizon.Aml

open List PkgLength Opcode Nat

/-- The computation does not return. -/
def Stops {α : Type} (computation : Except Stop α) : Prop := ∃ stop, computation = .error stop

theorem Stops.bind {α β : Type} {first : Except Stop α} (next : α → Except Stop β)
    (stops : Stops first) : Stops (first >>= next) := by
  cases stops with
  | intro stop failed => exact ⟨stop, by rw [failed]; rfl⟩

theorem stops_error {α : Type} (stop : Stop) : Stops (.error stop : Except Stop α) := ⟨stop, rfl⟩

theorem read_append (bytes rest : Bytecode) :
    Bytecode.read (bytes ++ rest) bytes.length = .ok (bytes, rest) := by
  rw [Bytecode.read, if_pos (sublist_append_left bytes rest).length_le, take_left, drop_left]

theorem skip_append (bytes rest : Bytecode) :
    Bytecode.skip (bytes ++ rest) bytes.length = .ok rest := by
  rw [Bytecode.skip, if_pos (sublist_append_left bytes rest).length_le, drop_left]

theorem slice_append (bytes rest : Bytecode) :
    Bytecode.slice (bytes ++ rest) bytes.length = .ok bytes := by
  rw [Bytecode.slice, if_pos (sublist_append_left bytes rest).length_le, take_left]

@[simp] theorem length_toLeBytes (width value : Nat) : (toLeBytes width value).length = width := by
  induction width generalizing value with
  | zero => rfl
  | succ width ih => rw [toLeBytes, length_cons, ih]

theorem fromLeBytes_toLeBytes (width value : Nat) :
    fromLeBytes (toLeBytes width value) = value % 256 ^ width := by
  induction width generalizing value with
  | zero => rw [toLeBytes, fromLeBytes, pow_zero, mod_one]
  | succ width ih => rw [toLeBytes, fromLeBytes, ih, Nat.pow_succ', mod_mul]

theorem read_toLeBytes (width value : Nat) (rest : Bytecode) (fits : value < 256 ^ width) :
    ∃ bytes, Bytecode.read (toLeBytes width value ++ rest) width = .ok (bytes, rest)
      ∧ fromLeBytes bytes = value := by
  refine ⟨toLeBytes width value, ?_, ?_⟩
  · have taken := read_append (toLeBytes width value) rest
    rw [length_toLeBytes] at taken
    exact taken
  · rw [fromLeBytes_toLeBytes, mod_eq_of_lt fits]

theorem or_shiftLeft (low high shift : Nat) (small : low < 2 ^ shift) :
    low ||| high <<< shift = low + high * 2 ^ shift := by
  rw [Nat.or_comm, ← shiftLeft_add_eq_or_of_lt small, shiftLeft_eq, add_comm]

theorem fromBytes_cons (count low : Nat) (bytecode : Bytecode) (small : low < 2 ^ 6) :
    fromBytes ((count * 2 ^ 6 + low) :: bytecode)
      = (following count 0 low bytecode).map
          fun read => (⟨read.1, count⟩, read.2) := by
  have behind : (count * 2 ^ 6 + low) >>> 6 = count := by
    rw [shiftRight_eq_div_pow]
    omega
  have lowBits : (count * 2 ^ 6 + low) &&& 0x3F = low := by
    have masked : (count * 2 ^ 6 + low) &&& (2 ^ 6 - 1) = low := by
      rw [and_two_pow_sub_one_eq_mod]
      omega
    exact masked
  change (following ((count * 2 ^ 6 + low) >>> 6) 0 ((count * 2 ^ 6 + low) &&& 0x3F)
    bytecode >>= fun read =>
      .ok (mk read.1 ((count * 2 ^ 6 + low) >>> 6), read.2)) = _
  rw [behind, lowBits]
  cases following count 0 low bytecode with
  | error | ok => rfl

theorem following_cons (count i length byte : Nat) (bytecode : Bytecode)
    (small : length < 2 ^ (4 + i * 8)) : following (count + 1) i length (byte :: bytecode)
      = following count (i + 1) (length + byte * 2 ^ (4 + i * 8)) bytecode := by
  rw [← or_shiftLeft length byte (4 + i * 8) small]
  rfl

theorem payloadLength_mk (payload count : Nat) :
    payloadLength ⟨payload + (count + 1), count⟩ = .ok payload := by
  rw [payloadLength, if_pos (by change count + 1 ≤ payload + (count + 1); omega)]
  have cancelled : payload + (count + 1) - count - 1 = payload := by omega
  exact congrArg Except.ok cancelled

theorem fromBytes_encodePkgLength (payload : Nat) (rest : Bytecode) :
    ∃ pkg, fromBytes (encodePkgLength payload ++ rest) = .ok (pkg, rest)
      ∧ pkg.payloadLength = .ok payload := by
  unfold encodePkgLength
  split
  · rename_i small
    refine ⟨_, ?_, payloadLength_mk payload 0⟩
    have read := fromBytes_cons 0 (payload + 1) rest small
    rw [zero_mul, zero_add] at read
    exact read
  split
  · rename_i small
    refine ⟨_, ?_, payloadLength_mk payload 1⟩
    have read := fromBytes_cons 1 ((payload + 2) % 16) ((payload + 2) / 16 :: rest) (by omega)
    rw [following_cons 0 0 _ _ _ (by omega)] at read
    have whole : (payload + 2) % 16 + (payload + 2) / 16 * 2 ^ (4 + 0 * 8) = payload + 2 := by
      omega
    rw [whole] at read
    exact read
  split
  · rename_i small
    refine ⟨_, ?_, payloadLength_mk payload 2⟩
    have read := fromBytes_cons 2 ((payload + 3) % 16)
      ((payload + 3) / 16 % 256 :: (payload + 3) / 2 ^ 12 :: rest) (by omega)
    rw [following_cons 1 0 _ _ _ (by omega), following_cons 0 1 _ _ _ (by omega)] at read
    have whole : (payload + 3) % 16 + (payload + 3) / 16 % 256 * 2 ^ (4 + 0 * 8)
        + (payload + 3) / 2 ^ 12 * 2 ^ (4 + (0 + 1) * 8) = payload + 3 := by
      omega
    rw [whole] at read
    exact read
  · refine ⟨_, ?_, payloadLength_mk payload 3⟩
    have read := fromBytes_cons 3 ((payload + 4) % 16)
      ((payload + 4) / 16 % 256 :: (payload + 4) / 2 ^ 12 % 256 :: (payload + 4) / 2 ^ 20 :: rest)
      (by omega)
    rw [following_cons 2 0 _ _ _ (by omega), following_cons 1 1 _ _ _ (by omega),
      following_cons 0 2 _ _ _ (by omega)] at read
    have whole : (payload + 4) % 16 + (payload + 4) / 16 % 256 * 2 ^ (4 + 0 * 8)
        + (payload + 4) / 2 ^ 12 % 256 * 2 ^ (4 + (0 + 1) * 8)
        + (payload + 4) / 2 ^ 20 * 2 ^ (4 + (0 + 1 + 1) * 8) = payload + 4 := by
      omega
    rw [whole] at read
    exact read

def Comparison.opcode : Comparison → Opcode
  | equal => .lEqual
  | greater => .lGreater
  | less => .lLess
  | notEqual => .lNotEqual
  | lessEqual => .lLessEqual
  | greaterEqual => .lGreaterEqual

theorem parse_arg (index : Nat) (rest : Bytecode) (inRange : index < 7) :
    parse ((0x68 + index) :: rest) = .ok (.arg index, rest) := by
  interval_cases index <;> rfl

theorem parse_local (index : Nat) (rest : Bytecode) (inRange : index < 8) :
    parse ((0x60 + index) :: rest) = .ok (.local index, rest) := by
  interval_cases index <;> rfl

theorem dataObject_le (width : Nat) {value : Nat} (rest : Bytecode) (fits : value < 256 ^ width) :
    (do
      let read ← Bytecode.read (toLeBytes width value ++ rest) width
      .ok (Except.ok (TermArg.dataObject (fromLeBytes read.1)), read.2)) =
      (.ok (.ok (.dataObject value), rest) : Except Stop (Except (Option Opcode) TermArg × _)) := by
  obtain ⟨bytes, read, isValue⟩ := read_toLeBytes width value rest fits
  rw [read, ← isValue]
  rfl

variable (ctx : Context)

theorem parseTermArg_const (constant : Const) (rest : Bytecode) (wellFormed : constant.WellFormed) :
    parseTermArg ctx (constant.encode ++ rest) = .ok (.ok (.dataObject constant.value), rest) := by
  cases constant with
  | zero | one | ones | byte => rfl
  | word => exact dataObject_le 2 rest wellFormed
  | dword => exact dataObject_le 4 rest wellFormed
  | qword => exact dataObject_le 8 rest wellFormed

theorem parseTermArg_arg (index : Nat) (rest : Bytecode) (inRange : index < 7) :
    parseTermArg ctx ((0x68 + index) :: rest) = .ok (.ok (.arg index), rest) := by
  rw [parseTermArg, parse_arg index rest inRange]
  rfl

theorem parseTermArg_local (index : Nat) (rest : Bytecode) (inRange : index < 8) :
    parseTermArg ctx ((0x60 + index) :: rest) = .ok (.ok (.local index), rest) := by
  rw [parseTermArg, parse_local index rest inRange]
  rfl

theorem parseTermArg_compare (op : Comparison) (rest : Bytecode) :
    parseTermArg ctx (op.encode ++ rest) = .ok (.error (some op.opcode), rest) := by
  cases op <;> rfl

def isNameByte (byte : Nat) : Bool :=
  isLeadNameChar byte || byte == 0x5C || byte == 0x5E || byte == 0x2E || byte == 0x2F

theorem parse_nameByte (first : Nat) (rest : Bytecode) (named : isNameByte first = true) :
    parse (first :: rest) = .error (some first) := by
  have range : first < 256 := by
    unfold isNameByte isLeadNameChar at named
    simp only [Bool.or_eq_true, Bool.and_eq_true, decide_eq_true_eq, beq_iff_eq] at named
    omega
  have every : ∀ byte < 256, isNameByte byte = true →
      ¬ byte = 0x5B ∧ ¬ byte = 0x92 ∧ single byte = .error (some byte) := by
    decide +kernel
  have single := every first range named
  unfold parse
  split
  · rename_i empty
    cases empty
  · rename_i extended
    injection extended with isExtended
    exact absurd isExtended single.1
  · rename_i negated
    injection negated with isNegated
    exact absurd isNegated single.2.1
  · rename_i plain
    injection plain with same sameRest
    rw [← same, single.2.2]
    rfl

variable (segments : List (List Nat))

theorem encodeSegments_cons (wellFormed : SegmentsWellFormed segments) :
    ∃ first tail, encodeSegments segments = first :: tail ∧
      if segments.length = 1 then isLeadNameChar first = true
      else first = 0x2E ∨ first = 0x2F := by
  unfold encodeSegments
  by_cases bare : segments.length = 1
  · rw [if_pos bare]
    cases segments with
    | nil => cases bare
    | cons segment others =>
      have shape := wellFormed.2.2 segment mem_cons_self
      cases segment with
      | nil => cases shape.1
      | cons first tail =>
        refine ⟨first, tail ++ others.flatten, rfl, ?_⟩
        rw [if_pos bare]
        exact shape.2
  · rw [if_neg bare]
    by_cases dual : segments.length = 2
    · refine ⟨0x2E, segments.flatten, if_pos dual, ?_⟩
      rw [if_neg bare]
      exact .inl rfl
    · refine ⟨0x2F, segments.length :: segments.flatten, if_neg dual, ?_⟩
      rw [if_neg bare]
      exact .inr rfl

theorem isNameByte_of_lead {byte : Nat} (lead : isLeadNameChar byte = true) :
    isNameByte byte = true := by
  unfold isNameByte
  rw [lead]
  rfl

variable (path : Path)

theorem encode_path_cons (wellFormed : path.WellFormed) :
    ∃ first tail, path.encode = first :: tail ∧ isNameByte first = true := by
  cases path with
  | root segments => exact ⟨0x5C, encodeSegments segments, rfl, rfl⟩
  | relative level segments =>
    cases level with
    | succ level => exact ⟨0x5E, replicate level 0x5E ++ encodeSegments segments, rfl, rfl⟩
    | zero =>
      obtain ⟨first, tail, encoded, begins⟩ := encodeSegments_cons segments wellFormed.2
      refine ⟨first, tail, encoded, ?_⟩
      split at begins
      · exact isNameByte_of_lead begins
      · cases begins with
        | inl dual => rw [dual]; rfl
        | inr multi => rw [multi]; rfl

variable (rest : Bytecode)

theorem parseTermArg_name (wellFormed : path.WellFormed) :
    Stops (parseTermArg ctx (path.encode ++ rest)) ∨ ∃ arg behind,
      parseTermArg ctx (path.encode ++ rest) = .ok (arg, behind)
        ∧ (arg = .error none ∨ ∃ pointer, arg = .ok (.object pointer)) := by
  obtain ⟨first, tail, encoded, named⟩ := encode_path_cons path wellFormed
  rw [encoded, cons_append, parseTermArg, parse_nameByte first (tail ++ rest) named]
  dsimp only
  split
  · cases namestringFromBytes (first :: (tail ++ rest)) with
    | ok parsed =>
      dsimp only
      cases ctx.get parsed.1 with
      | some pointer => exact .inr ⟨_, _, rfl, .inr ⟨pointer, rfl⟩⟩
      | none => exact .inr ⟨_, _, rfl, .inl rfl⟩
    | error stop =>
      cases stop with
      | none => exact .inr ⟨_, _, rfl, .inl rfl⟩
      | panic | outOfFuel | notModelled => exact .inl (stops_error _)
  · exact .inr ⟨_, _, rfl, .inl rfl⟩

theorem chunks_flatten
    (four : ∀ segment ∈ segments, segment.length = 4) : chunks segments.flatten = segments := by
  induction segments with
  | nil => rfl
  | cons segment others ih =>
    have length := four segment mem_cons_self
    obtain ⟨a, b, c, d, bytes⟩ := List.length_eq_four.mp length
    have rest := ih fun other mem => four other (mem_cons_of_mem segment mem)
    rw [flatten_cons, bytes]
    change [a, b, c, d] :: chunks others.flatten = _
    rw [rest]

theorem length_flatten_segments (four : ∀ segment ∈ segments, segment.length = 4) :
    segments.flatten.length = segments.length * 4 := by
  rw [length_flatten, map_congr_left four, map_const', sum_replicate, smul_eq_mul]

theorem namePathFromBytes_encode (wellFormed : SegmentsWellFormed segments) :
    namePathFromBytes (encodeSegments segments ++ rest) = .ok (segments, rest) := by
  have four : ∀ segment ∈ segments, segment.length = 4 := fun segment mem =>
    (wellFormed.2.2 segment mem).1
  have read := read_append segments.flatten rest
  rw [length_flatten_segments segments four] at read
  have cut := chunks_flatten segments four
  obtain ⟨first, tail, encoded, begins⟩ := encodeSegments_cons segments wellFormed
  by_cases bare : segments.length = 1
  · rw [if_pos bare] at begins
    have flat : segments.flatten = first :: tail := by
      rw [← encoded, encodeSegments, if_pos bare]
    rw [bare, one_mul, flat, cons_append] at read
    rw [encoded, cons_append]
    unfold namePathFromBytes
    split
    · rename_i empty
      cases empty
    · rename_i same
      injection same with isZero
      rw [isZero] at begins
      cases begins
    · rename_i same
      injection same with isDual
      rw [isDual] at begins
      cases begins
    · rename_i same
      injection same with isMulti
      rw [isMulti] at begins
      cases begins
    · rename_i same
      injection same with isFirst isTail
      rw [← isFirst, ← isTail, if_pos begins, read]
      change Except.ok (chunks (first :: tail), rest) = _
      rw [← flat, cut]
  · unfold encodeSegments
    rw [if_neg bare]
    by_cases dual : segments.length = 2
    · rw [if_pos dual, cons_append]
      rw [dual] at read
      change (do
        let read ← Bytecode.read (segments.flatten ++ rest) 8
        .ok (chunks read.1, read.2)) = _
      rw [read]
      change Except.ok (chunks segments.flatten, rest) = _
      rw [cut]
    · rw [if_neg dual, cons_append, cons_append]
      change (do
        let read ← Bytecode.read (segments.flatten ++ rest) (segments.length * 4)
        .ok (chunks read.1, read.2)) = _
      rw [read]
      change Except.ok (chunks segments.flatten, rest) = _
      rw [cut]

theorem encodeSegments_first (wellFormed : SegmentsWellFormed segments) :
    ∃ first tail, encodeSegments segments = first :: tail ∧ first ≠ 0x5E ∧ first ≠ 0x5C := by
  obtain ⟨first, tail, encoded, begins⟩ := encodeSegments_cons segments wellFormed
  refine ⟨first, tail, encoded, ?_⟩
  split at begins
  · constructor
    · intro caret
      rw [caret] at begins
      cases begins
    · intro root
      rw [root] at begins
      cases begins
  · omega

theorem namestringFrom_relative (counted level : Nat) (segments : List (List Nat))
    (rest : Bytecode) (fits : counted + level < 256) (wellFormed : SegmentsWellFormed segments) :
    namestringFrom counted (replicate level 0x5E ++ (encodeSegments segments ++ rest))
      = .ok (.relative (counted + level) segments, rest) := by
  induction level generalizing counted with
  | zero =>
    obtain ⟨first, tail, encoded, notCaret, notRoot⟩ := encodeSegments_first segments wellFormed
    have read := namePathFromBytes_encode segments rest wellFormed
    rw [encoded, cons_append] at read
    rw [replicate_zero, nil_append, encoded, cons_append]
    unfold namestringFrom
    split
    · rename_i empty
      cases empty
    · rename_i same
      injection same with isCaret
      exact absurd isCaret notCaret
    · rename_i same
      injection same with isRoot
      exact absurd isRoot notRoot
    · rename_i same
      rw [← same, read]
      rfl
  | succ level ih =>
    have notFull : ¬ counted = 255 := by omega
    rw [replicate_succ, cons_append]
    change (if counted = 255 then .error .panic
      else namestringFrom (counted + 1) (replicate level 0x5E ++ (encodeSegments segments ++ rest)))
        = _
    rw [if_neg notFull, ih (counted + 1) (by omega)]
    have total : counted + 1 + level = counted + (level + 1) := by omega
    rw [total]

theorem namestringFromBytes_encode (wellFormed : path.WellFormed) :
    namestringFromBytes (path.encode ++ rest) = .ok (path, rest) := by
  cases path with
  | root segments =>
    change (do
      let read ← namePathFromBytes (encodeSegments segments ++ rest)
      .ok (Path.root read.1, read.2)) = _
    rw [namePathFromBytes_encode segments rest wellFormed]
    rfl
  | relative level segments =>
    have read := namestringFrom_relative 0 level segments rest (by have := wellFormed.1; omega)
      wellFormed.2
    rw [zero_add] at read
    rw [namestringFromBytes, Path.encode, append_assoc]
    exact read

theorem parseSimpleName_name (wellFormed : path.WellFormed)
    (handled : (Target.name path).handled = true) :
    parseSimpleName (path.encode ++ rest) = .ok (.name path, rest) := by
  have begins : ∃ first tail, path.encode = first :: tail ∧
      (isLeadNameChar first || first == 0x5E || first == 0x5C) = true := by
    cases path with
    | root segments => exact ⟨0x5C, encodeSegments segments, rfl, rfl⟩
    | relative level segments =>
      cases level with
      | succ level => exact ⟨0x5E, replicate level 0x5E ++ encodeSegments segments, rfl, rfl⟩
      | zero =>
        have bare : segments.length = 1 := of_decide_eq_true handled
        obtain ⟨first, tail, encoded, lead⟩ := encodeSegments_cons segments wellFormed.2
        rw [if_pos bare] at lead
        refine ⟨first, tail, encoded, ?_⟩
        rw [lead]
        rfl
  have read := namestringFromBytes_encode path rest wellFormed
  obtain ⟨first, tail, encoded, named⟩ := begins
  rw [encoded, cons_append] at read ⊢
  rw [parseSimpleName, if_pos named, read]
  rfl

theorem parseSimpleName_multi (wellFormed : path.WellFormed)
    (unhandled : (Target.name path).handled = false) :
    Stops (parseSimpleName (path.encode ++ rest)) := by
  cases path with
  | root segments => cases unhandled
  | relative level segments =>
    have parts := Bool.or_eq_false_iff.mp unhandled
    have several : ¬ segments.length = 1 := of_decide_eq_false parts.2
    have atCurrent : level = 0 := by
      have := of_decide_eq_false parts.1
      omega
    rw [Path.encode, atCurrent, replicate_zero, nil_append]
    obtain ⟨first, tail, encoded, begins⟩ := encodeSegments_cons segments wellFormed.2
    rw [if_neg several] at begins
    rw [encoded, cons_append, parseSimpleName]
    have named : isNameByte first = true := by
      cases begins with
      | inl dual => rw [dual]; rfl
      | inr multi => rw [multi]; rfl
    have notLead : ¬ (isLeadNameChar first || first == 0x5E || first == 0x5C) = true := by
      cases begins with
      | inl dual => rw [dual]; decide
      | inr multi => rw [multi]; decide
    rw [if_neg notLead]
    cases sliced : Bytecode.slice (first :: (tail ++ rest)) 2 with
    | error stop => exact stops_error stop
    | ok slice =>
      have window : slice = first :: (tail ++ rest).take 1 := by
        unfold Bytecode.slice at sliced
        split at sliced
        · injection sliced with same
          exact same.symm
        · cases sliced
      change Stops (parseOk slice >>= _)
      apply Stops.bind
      rw [window, parseOk, parse_nameByte first _ named]
      exact stops_error _

theorem parseSimpleName_builtin (byte : Nat) (rest : Bytecode) (opcode : Opcode)
    (notName : (isLeadNameChar byte || byte == 0x5E || byte == 0x5C) = false)
    (parsed : ∀ rest, parse (byte :: rest) = .ok (opcode, rest))
    (builtin : ∃ index, opcode = .arg index ∨ opcode = .local index) :
    Stops (parseSimpleName (byte :: rest)) ∨
      ∃ dest, parseSimpleName (byte :: rest) = .ok (dest, byte :: rest) := by
  rw [parseSimpleName, if_neg (by rw [notName]; exact Bool.false_ne_true)]
  cases sliced : Bytecode.slice (byte :: rest) 2 with
  | error stop => exact .inl (stops_error stop)
  | ok slice =>
    have window : slice = byte :: rest.take 1 := by
      unfold Bytecode.slice at sliced
      split at sliced
      · injection sliced with same
        exact same.symm
      · cases sliced
    have found : parseOk slice = .ok (opcode, rest.take 1) := by
      rw [window, parseOk, parsed]
    right
    obtain ⟨index, isArg | isLocal⟩ := builtin
    · refine ⟨.arg index, ?_⟩
      change (parseOk slice >>= _) = _
      rw [found, isArg]
      rfl
    · refine ⟨.local index, ?_⟩
      change (parseOk slice >>= _) = _
      rw [found, isLocal]
      rfl

end Horizon.Aml
