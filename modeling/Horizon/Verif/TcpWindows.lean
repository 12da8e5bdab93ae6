import Horizon.Kernel.Tcp
import Horizon.Spec.Runs
/-!
# The windows of a connection and their memory

A reset frees both windows and keeps the pointers. Until a connection is over none of its windows is
freed, which every event keeps; once it is over, it has to be left alone.
-/

namespace Horizon.Tcp

open Runs Window

/-- Memory was freed twice, or touched after it was freed. -/
def Fault.Dangling (fault : Fault) : Prop :=
  fault = .doubleFree ∨ fault = .useAfterFree

/-- The computation neither frees memory twice nor touches it after it was freed, and its result is
good. -/
abbrev Leads {α : Type} (good : α → Prop) (computation : Except Fault α) : Prop :=
  Ensures Fault.Dangling good computation

/-- The same, whatever the result is. -/
abbrev Safe {α : Type} (computation : Except Fault α) : Prop :=
  Leads (fun _ => True) computation

@[simp]
theorem Fault.doubleFree_dangling : doubleFree.Dangling := .inl rfl

@[simp]
theorem Fault.useAfterFree_dangling : useAfterFree.Dangling := .inr rfl

@[simp]
theorem Fault.nullPointer_not_dangling : ¬ nullPointer.Dangling := by simp [Dangling]

@[simp]
theorem Fault.overrun_not_dangling : ¬ overrun.Dangling := by simp [Dangling]

@[simp]
theorem Fault.divideByZero_not_dangling : ¬ divideByZero.Dangling := by simp [Dangling]

@[simp]
theorem Fault.hang_not_dangling : ¬ hang.Dangling := by simp [Dangling]

variable {V : Type}

namespace Window

/-- The pointer is to freed memory. -/
def Dangles : Window V → Prop
  | .freed => True
  | _ => False

@[simp]
theorem not_dangles_null : ¬ (null : Window V).Dangles := id

@[simp]
theorem not_dangles_held (bytes : Nat → V) : ¬ (held bytes).Dangles := id

@[simp]
theorem dangles_freed : (freed : Window V).Dangles := trivial

variable {window : Window V} {total start count : Nat} {source : List V}

theorem safe_kfree (held : ¬ window.Dangles) : Safe window.kfree := by
  cases window <;> simp_all [kfree, Ensures]

theorem safe_load (held : 0 < count → ¬ window.Dangles) : Safe (window.load total start count) := by
  unfold load
  cases window <;> split_ifs <;> simp_all [contents, Ensures]

theorem store_keeps (held : ¬ window.Dangles) :
    Leads (fun written => ¬ written.Dangles) (window.store total start source) := by
  unfold store
  cases window <;> split_ifs <;> simp_all [contents, Ensures]

theorem storeAround_keeps (size1 : Nat) (held : ¬ window.Dangles) :
    Leads (fun written => ¬ written.Dangles) (window.storeAround total start size1 source) :=
  ensures_bind (store_keeps held) fun _ still => store_keeps still

theorem safe_loadAround (size1 size2 : Nat) (held : 0 < size1 + size2 → ¬ window.Dangles) :
    Safe (window.loadAround total start size1 size2) := by
  refine ensures_bind (safe_load fun front => held (by omega)) fun _ _ => ?_
  exact ensures_bind (safe_load fun back => held (by omega)) fun _ _ => ensures_ok trivial

end Window

namespace Connection

variable {tcp : Connection V} {segment : Segment V} {data : List V}

/-- Neither window was freed. -/
structure Intact (tcp : Connection V) : Prop where
  send : ¬ tcp.sendWindow.Dangles
  recv : ¬ tcp.recvWindow.Dangles

/-- The number of bytes that a call of `tcp_recv_data` copies. -/
def copied (tcp : Connection V) (length : Nat) : Nat :=
  if tcp.recv.read ≤ tcp.recv.next then min length (tcp.recv.next - tcp.recv.read)
  else
    min length (sub32 tcp.recv.totalSize tcp.recv.read) +
      min (length - min length (sub32 tcp.recv.totalSize tcp.recv.read)) tcp.recv.next

/-- Every event of a session is good where it happens; the session is over when the kernel stops. -/
def Always (good : Connection V → Event V → Prop) (tcp : Connection V) : List (Event V) → Prop
  | [] => True
  | event :: rest => good tcp event ∧ ∀ next, tcp.step event = .ok next → next.Always good rest

theorem always_cons {good : Connection V → Event V → Prop} {next : Connection V} {event : Event V}
    {rest : List (Event V)} (first : good tcp event) (run : tcp.step event = .ok next)
    (later : next.Always good rest) : tcp.Always good (event :: rest) := by
  refine ⟨first, fun reached done => ?_⟩
  rw [run, Except.ok.injEq] at done
  exact done ▸ later

/-- No event frees a window that was freed, or touches it. -/
def AlwaysSafe (tcp : Connection V) (events : List (Event V)) : Prop :=
  tcp.Always (fun tcp event => Safe (tcp.step event)) events

/-- Safe events make a safe session. -/
theorem AlwaysSafe.run {events : List (Event V)}
    (safe : tcp.AlwaysSafe events) : Safe (tcp.run events) := by
  induction events generalizing tcp with
  | nil => exact ensures_ok trivial
  | cons event rest ih =>
    have first : Safe (tcp.step event) := safe.1
    unfold run
    cases done : tcp.step event with
    | error fault => rwa [done] at first
    | ok next => exact ih (safe.2 next done)

/-- What the user sees of a connection that was torn down: by a reset of either side, by an
unreachable host or network, or at the end of `TCP_STATE_TIME_WAIT`. -/
def Over (tcp : Connection V) : Prop :=
  tcp.connState = .closed ∨ tcp.connState = .netUnreachable ∨ tcp.connState = .hostUnreachable

/-- There is no window that a reset could free. -/
def Bare (tcp : Connection V) : Prop :=
  tcp.sendWindow = .null ∧ tcp.recvWindow = .null

/-- What may still come for a connection that is over: nothing that copies through a window pointer
or frees it, unless the pointer is null, and no new opening on the old pointers. -/
def Spares (tcp : Connection V) : Event V → Prop
  | .connect _ _ _ => tcp.Bare
  | .listen _ => tcp.sendWindow = .null
  | .send data => data = [] ∨ tcp.send.totalSize - tcp.usedSpace < data.length ∨
      tcp.sendWindow = .null
  | .recv length => tcp.copied length = 0 ∨ tcp.recvWindow = .null
  | .shutdown .rd => tcp.recvWindow = .null
  | .shutdown .wr => tcp.send.unack < tcp.send.next ∨ tcp.Bare
  | .shutdown .rdwr =>
    tcp.recvWindow = .null ∧ (tcp.send.unack < tcp.send.next ∨ tcp.sendWindow = .null)
  | .reset => tcp.Bare
  | .segment segment _ =>
    tcp.bound → (tcpOptionsHandler 41 segment.dataOffset segment.options).isSome → tcp.Bare
  | .unreachable code => tcp.bound → code ≠ .other → tcp.Bare
  | .bind _ _ | .handshake _ | .timeout | .updateMtu _ => True

/-- The connection is left alone once it is over. Before that any event may come. -/
def LeftAlone (tcp : Connection V) (event : Event V) : Prop :=
  tcp.Over → tcp.Spares event

/-- The invariant: a window that was freed belongs to a connection that is ended, and such a
connection is in `TCP_STATE_CLOSED`. -/
structure Linked (tcp : Connection V) : Prop where
  send : tcp.sendWindow.Dangles → tcp.Over
  recv : tcp.recvWindow.Dangles → tcp.Over
  closed : tcp.Over → tcp.state = .closed

/-- What most of the code does: it frees no window that it keeps a pointer to, and leaves the states
of the connection as they are. -/
structure Calm (tcp next : Connection V) : Prop where
  send : next.sendWindow.Dangles → tcp.sendWindow.Dangles
  recv : next.recvWindow.Dangles → tcp.recvWindow.Dangles
  state : next.state = tcp.state
  connState : next.connState = tcp.connState

/-- Neither window was freed, and the connection goes on. -/
structure Living (tcp : Connection V) : Prop where
  intact : tcp.Intact
  lives : ¬ tcp.Over

variable {next : Connection V}

theorem Bare.intact (bare : tcp.Bare) : tcp.Intact :=
  ⟨by simp [bare.1], by simp [bare.2]⟩

theorem Linked.living (linked : tcp.Linked) (lives : ¬ tcp.Over) : tcp.Living :=
  ⟨⟨fun dangles => lives (linked.send dangles), fun dangles => lives (linked.recv dangles)⟩, lives⟩

theorem Living.linked (living : tcp.Living) : tcp.Linked :=
  ⟨fun dangles => absurd dangles living.intact.send,
    fun dangles => absurd dangles living.intact.recv, fun ended => absurd ended living.lives⟩

theorem Calm.over_iff (calm : Calm tcp next) : next.Over ↔ tcp.Over := by
  simp only [Over, calm.connState]

theorem Calm.living (calm : Calm tcp next) (living : tcp.Living) : next.Living where
  intact := ⟨fun dangles => living.intact.send (calm.send dangles),
    fun dangles => living.intact.recv (calm.recv dangles)⟩
  lives ended := living.lives (calm.over_iff.mp ended)

theorem Calm.linked (calm : Calm tcp next) (linked : tcp.Linked) : next.Linked where
  send dangles := calm.over_iff.mpr (linked.send (calm.send dangles))
  recv dangles := calm.over_iff.mpr (linked.recv (calm.recv dangles))
  closed ended := calm.state.trans (linked.closed (calm.over_iff.mp ended))

theorem Calm.refl : Calm tcp tcp := ⟨id, id, rfl, rfl⟩

theorem Calm.trans {last : Connection V} (first : Calm tcp next) (second : Calm next last) :
    Calm tcp last where
  send dangles := first.send (second.send dangles)
  recv dangles := first.recv (second.recv dangles)
  state := second.state.trans first.state
  connState := second.connState.trans first.connState

theorem safe_getHeader : Safe tcp.getHeader := by
  unfold getHeader
  cases tcp.header <;> simp [Ensures]

theorem sendPacket_calm (flags : Flags) (optionSize : Nat) :
    Leads (Calm tcp) (tcp.tcpSendPacket flags optionSize) := by
  unfold tcpSendPacket
  refine ensures_bind safe_getHeader fun _ _ => ensures_ok ?_
  split_ifs <;> exact ⟨id, id, rfl, rfl⟩

theorem Living.sendPacket (living : tcp.Living) (flags : Flags) (optionSize : Nat) :
    Leads Linked (tcp.tcpSendPacket flags optionSize) :=
  (sendPacket_calm flags optionSize).mono fun _ calm => (calm.living living).linked

/-- A segment's data is written into the receive window. -/
theorem acceptData_calm (held : ¬ tcp.recvWindow.Dangles) :
    Leads (Calm tcp) (tcp.acceptData segment) := by
  have taken : Leads (Calm tcp) (tcp.takeSegment segment.payload) := by
    unfold takeSegment
    split
    · exact ensures_ok Calm.refl
    · exact ensures_bind (storeAround_keeps _ held) fun _ still =>
        ensures_ok ⟨id, fun dangles => absurd dangles still, rfl, rfl⟩
  unfold acceptData
  split_ifs
  · exact ensures_ok Calm.refl
  · refine ensures_bind taken fun _ calm => (sendPacket_calm _ _).mono fun _ sent => ?_
    exact calm.trans ⟨sent.send, sent.recv, sent.state, sent.connState⟩

theorem advance_calm (acked ack : Nat) : Calm tcp (tcp.advance acked ack) := ⟨id, id, rfl, rfl⟩

theorem acceptAck_calm : Leads (Calm tcp) (tcp.acceptAck segment) := by
  unfold acceptAck
  by_cases same : sub32 segment.ack tcp.send.wl2 = 0
  · rw [if_pos same]
    exact ensures_ok Calm.refl
  · rw [if_neg same]
    by_cases empty : tcp.send.totalSize = 0
    · rw [if_pos empty]
      exact ensures_error Fault.divideByZero_not_dangling
    · rw [if_neg empty]
      exact ensures_ok (advance_calm _ _)

theorem ackHandler_calm (held : ¬ tcp.recvWindow.Dangles) :
    Leads (Calm tcp) (tcp.tcpAckHandler segment) :=
  ensures_bind (acceptData_calm held) fun _ first => acceptAck_calm.mono fun _ => first.trans

theorem ackIfFlagged_calm (held : ¬ tcp.recvWindow.Dangles) :
    Leads (Calm tcp) (tcp.ackIfFlagged segment) := by
  unfold ackIfFlagged
  split_ifs
  · exact ackHandler_calm held
  · exact ensures_ok Calm.refl

theorem putData_calm (held : ¬ tcp.sendWindow.Dangles) :
    Leads (Calm tcp) (tcp.putData data) := by
  have written : Leads (fun window => ¬ window.Dangles) (tcp.putWindow data) := by
    unfold putWindow
    split_ifs
    · exact storeAround_keeps _ held
    · exact store_keeps held
  exact ensures_bind written fun _ still =>
    ensures_ok ⟨fun dangles => absurd dangles still, id, rfl, rfl⟩

theorem takeData_calm (used : Nat) (held : ¬ tcp.sendWindow.Dangles) :
    Leads (Calm tcp) (tcp.takeData used) := by
  unfold takeData
  dsimp only
  split_ifs
  · exact ensures_bind (safe_load fun _ => held) fun _ _ => ensures_ok ⟨id, id, rfl, rfl⟩
  · exact ensures_bind (safe_loadAround _ _ fun _ => held) fun _ _ =>
      ensures_ok ⟨id, id, rfl, rfl⟩

/-- Sending touches the send window when there is data and room for it. -/
theorem sendData_calm (held : data ≠ [] → data.length ≤ tcp.send.totalSize - tcp.usedSpace →
    ¬ tcp.sendWindow.Dangles) :
    Leads (fun done => Calm tcp done.2) (tcp.tcpSendData data) := by
  unfold tcpSendData
  split_ifs with empty full
  · exact ensures_ok Calm.refl
  · exact ensures_ok Calm.refl
  · have held := held empty (not_lt.mp full)
    refine ensures_bind (putData_calm held) fun filled put => ?_
    refine ensures_bind (takeData_calm _ fun dangles => held (put.send dangles)) fun _ took => ?_
    refine ensures_bind (sendPacket_calm _ _) fun _ sent => ?_
    exact ensures_ok ((put.trans took).trans sent)

/-- Receiving touches the receive window when there is something to copy. -/
theorem recvData_calm {length : Nat} (held : 0 < tcp.copied length → ¬ tcp.recvWindow.Dangles) :
    Leads (fun done => Calm tcp done.2.2) (tcp.tcpRecvData length) := by
  have taken : Safe (tcp.takeReceived length) := by
    unfold takeReceived
    unfold copied at held
    split_ifs at held ⊢
    · exact safe_load held
    · exact safe_loadAround _ _ held
  exact ensures_bind taken fun _ _ => ensures_ok ⟨id, id, rfl, rfl⟩

theorem dropRecvWindow_eq (held : ¬ tcp.recvWindow.Dangles) :
    Leads (· = { tcp with recvWindow := .null }) tcp.dropRecvWindow :=
  ensures_bind (safe_kfree held) fun _ _ => ensures_ok rfl

theorem updateMtu_calm (mtu : Nat) : Leads (Calm tcp) (tcp.tcpUpdateMtu mtu) := by
  unfold tcpUpdateMtu
  dsimp only
  split_ifs
  · exact ensures_bind safe_getHeader fun _ _ => ensures_ok ⟨id, id, rfl, rfl⟩
  all_goals exact ensures_ok ⟨id, id, rfl, rfl⟩

theorem updateMss_calm (index : Nat) : Calm tcp (tcp.updateMss segment index) := by
  unfold updateMss
  split_ifs <;> exact ⟨id, id, rfl, rfl⟩

/-- A reset leaves a connection that is ended, whatever it frees. -/
theorem reset_over (intact : tcp.Intact) :
    Leads (fun next => next.connState = .closed ∧ next.state = .closed) tcp.tcpResetConn := by
  refine ensures_bind safe_getHeader fun _ _ => ?_
  refine ensures_bind (safe_kfree intact.send) fun _ _ => ?_
  exact ensures_bind (safe_kfree intact.recv) fun _ _ => ensures_ok ⟨rfl, rfl⟩

theorem linked_of_over (ended : next.Over) (closed : next.state = .closed) : next.Linked :=
  ⟨fun _ => ended, fun _ => ended, fun _ => closed⟩

theorem reset_linked (intact : tcp.Intact) : Leads Linked tcp.tcpResetConn :=
  (reset_over intact).mono fun _ ended => linked_of_over (.inl ended.1) ended.2

theorem notifyUnreachable_linked {code : UnreachableCode} (linked : tcp.Linked)
    (intact : code ≠ .other → tcp.Intact) : Leads Linked (tcp.tcpNotifyUnreachable code) := by
  cases code with
  | other => exact ensures_ok linked
  | net =>
    exact ensures_bind (reset_over (intact (by decide))) fun _ ended =>
      ensures_ok (linked_of_over (.inr (.inl rfl)) ended.2)
  | host =>
    exact ensures_bind (reset_over (intact (by decide))) fun _ ended =>
      ensures_ok (linked_of_over (.inr (.inr rfl)) ended.2)

/-- Closing one direction frees the send window, once nothing is left to wait for, and ends in
`CONN_STATE_CLOSING`. -/
theorem halfClose_linked (linked : tcp.Linked)
    (kept : tcp.send.unack < tcp.send.next ∨ tcp.Intact) : Leads Linked tcp.tcpHalfClose := by
  unfold tcpHalfClose
  split_ifs with waits
  · exact ensures_ok linked
  · have intact := kept.resolve_left waits
    refine ensures_bind safe_getHeader fun _ _ => ?_
    refine ensures_bind (safe_kfree intact.send) fun _ _ => ?_
    apply Living.sendPacket
    exact ⟨⟨not_dangles_null, intact.recv⟩, by simp [Over]⟩

/-- The step lemma for timeouts. -/
theorem timeout_linked (living : tcp.Living) : Leads Linked tcp.tcpTimeoutHandler := by
  have retransmit : Leads Linked tcp.retransmit := by
    unfold retransmit
    dsimp only
    split_ifs
    · refine ensures_bind safe_getHeader fun _ _ => ?_
      apply Living.sendPacket
      exact ⟨⟨living.intact.send, living.intact.recv⟩, living.lives⟩
    · exact reset_linked ⟨living.intact.send, living.intact.recv⟩
  unfold tcpTimeoutHandler
  cases tcp.state with
  | synSent | synReceived | established | finWait1 => exact retransmit
  | finWait2 => exact reset_linked living.intact
  | timeWait =>
    refine Ensures.mono (dropRecvWindow_eq ?_) fun _ dropped => ?_
    · exact living.intact.recv
    · exact dropped ▸ linked_of_over (.inl rfl) rfl
  | listen | closeWait | closing | lastAck | closed => exact ensures_ok living.linked

/-- After a SYN the connection is reset, or goes on as before. -/
theorem synHandled_linked {onward : Connection V → Except Fault (Connection V)}
    (goesOn : ∀ acked : Connection V, acked.Living → Leads Linked (onward acked))
    (living : tcp.Living) :
    Leads Linked (match tcp.synAcknowledged segment with
      | none => tcp.tcpResetConn
      | some acked => onward acked) := by
  split
  · exact reset_linked living.intact
  · rename_i acked found
    refine goesOn acked ?_
    unfold synAcknowledged at found
    split_ifs at found <;> cases found
    · exact ⟨⟨living.intact.send, living.intact.recv⟩, by simp [Over]⟩
    · exact living

/-- What a segment leaves of the windows, by the state of the connection: it is reset, or the
windows stay as they were. -/
theorem rxByState_linked (linked : tcp.Linked) (intact : tcp.Intact) (iss index : Nat) :
    Leads Linked (tcp.rxByState segment iss index) := by
  have lives (opened : tcp.state ≠ .closed) : tcp.Living :=
    linked.living fun ended => opened (linked.closed ended)
  unfold rxByState
  cases state : tcp.state with
  | closed | closeWait | timeWait => exact reset_linked intact
  | lastAck =>
    dsimp only
    split_ifs
    · exact ensures_ok (linked_of_over (.inl rfl) rfl)
    · exact ensures_ok linked
  | listen =>
    have calm : Calm tcp (tcp.updateMss segment index) := updateMss_calm index
    have living := calm.living (lives (by simp [state]))
    dsimp only
    split_ifs
    · refine ensures_bind safe_getHeader fun _ _ => ?_
      apply Living.sendPacket
      exact ⟨⟨living.intact.send, living.intact.recv⟩, living.lives⟩
    · exact ensures_ok linked
  | synSent =>
    have living := lives (by simp [state])
    dsimp only
    split_ifs
    · refine synHandled_linked (fun acked opened => ?_) ((updateMss_calm index).living ?_)
      · apply Living.sendPacket
        exact ⟨⟨opened.intact.send, opened.intact.recv⟩, opened.lives⟩
      · exact ⟨⟨living.intact.send, living.intact.recv⟩, living.lives⟩
    · exact reset_linked intact
  | synReceived =>
    refine synHandled_linked (fun acked opened => ensures_ok ?_)
      ((updateMss_calm index).living (lives (by simp [state])))
    exact Living.linked ⟨⟨opened.intact.send, opened.intact.recv⟩, opened.lives⟩
  | established =>
    refine ensures_bind (ackHandler_calm intact.recv) fun handled calm => ?_
    obtain ⟨⟨send, recv⟩, opened⟩ := calm.living (lives (by simp [state]))
    split_ifs
    · apply Living.sendPacket
      exact ⟨⟨send, recv⟩, by simp [Over, cleanData]⟩
    · exact ensures_ok (calm.linked linked)
  | closing =>
    refine ensures_bind (ackIfFlagged_calm intact.recv) fun handled calm => ?_
    obtain ⟨⟨send, recv⟩, opened⟩ := calm.living (lives (by simp [state]))
    split_ifs <;>
      · apply Living.sendPacket
        exact ⟨⟨send, recv⟩, opened⟩
  | finWait1 =>
    refine ensures_bind (ackIfFlagged_calm intact.recv) fun handled calm => ?_
    obtain ⟨⟨send, recv⟩, opened⟩ := calm.living (lives (by simp [state]))
    unfold finAcknowledged
    split_ifs <;> exact ensures_ok (Living.linked ⟨⟨send, recv⟩, opened⟩)
  | finWait2 =>
    refine ensures_bind (ackIfFlagged_calm intact.recv) fun handled calm => ?_
    obtain ⟨⟨send, recv⟩, opened⟩ := calm.living (lives (by simp [state]))
    split_ifs
    · apply Living.sendPacket
      exact ⟨⟨send, recv⟩, opened⟩
    · exact ensures_ok (calm.linked linked)

/-- The step lemma for segments. -/
theorem rx_linked (linked : tcp.Linked)
    (parsed : (tcpOptionsHandler 41 segment.dataOffset segment.options).isSome → tcp.Intact)
    (iss : Nat) : Leads Linked (tcp.tcpRxHandler segment iss) := by
  unfold tcpRxHandler
  cases options : tcpOptionsHandler 41 segment.dataOffset segment.options with
  | none => exact ensures_error Fault.hang_not_dangling
  | some log =>
    have intact := parsed (by simp [options])
    dsimp only
    split_ifs
    · exact reset_linked ⟨intact.send, intact.recv⟩
    · exact rxByState_linked linked intact _ _

theorem kmalloc_held (memory : Option (Nat → V)) : ¬ (kmalloc memory).Dangles := by
  cases memory <;> exact id

theorem bind_linked (linked : tcp.Linked) (portFree : Bool) (memory : Option (Nat → V)) :
    (tcp.tcpBind portFree memory).2.Linked := by
  unfold tcpBind
  split_ifs
  · exact linked
  · exact linked
  · exact ⟨linked.send, fun dangles => absurd dangles (kmalloc_held memory), fun _ => rfl⟩

theorem bind_intact (intact : tcp.Intact) (portFree : Bool) (memory : Option (Nat → V)) :
    (tcp.tcpBind portFree memory).2.Intact := by
  unfold tcpBind
  split_ifs
  · exact intact
  · exact intact
  · exact ⟨intact.send, kmalloc_held memory⟩

theorem sendSyn_linked (intact : tcp.Intact) (iss : Nat) : (tcp.sendSyn iss).Linked :=
  Living.linked ⟨⟨intact.send, intact.recv⟩, by simp [Over, sendSyn, networkSend]⟩

theorem connect_linked (linked : tcp.Linked) (intact : tcp.Intact) (portFree : Bool)
    (memory : Option (Nat → V)) (iss : Nat) : (tcp.tcpConnect portFree memory iss).2.Linked := by
  unfold tcpConnect
  dsimp only
  split_ifs
  · exact bind_linked linked portFree memory
  · exact sendSyn_linked (bind_intact intact portFree memory) iss
  · exact sendSyn_linked intact iss

theorem listen_linked (linked : tcp.Linked) (held : ¬ tcp.sendWindow.Dangles)
    (memory : Option (Nat → V)) : (tcp.tcpListen memory).2.Linked := by
  unfold tcpListen
  split_ifs
  · exact linked
  · exact Living.linked ⟨⟨held, kmalloc_held memory⟩, by simp [Over]⟩

theorem handshake_linked (linked : tcp.Linked) (memory : Option (Nat → V)) :
    (if tcp.waiting ∧ tcp.handshakeFinished then (tcp.handshakeEnd memory).2 else tcp).Linked := by
  unfold handshakeEnd
  split_ifs
  · exact ⟨linked.send, linked.recv, linked.closed⟩
  · exact ⟨fun dangles => absurd dangles (kmalloc_held memory), linked.recv, linked.closed⟩
  · exact linked

/-- The step lemma: an event that leaves a connection alone once it is over frees no window twice,
touches none that was freed, and keeps the invariant. -/
theorem step_linked {event : Event V} (linked : tcp.Linked) (alone : tcp.LeftAlone event) :
    Leads Linked (tcp.step event) := by
  have intact (bare : tcp.Over → tcp.Bare) : tcp.Intact := by
    by_cases ended : tcp.Over
    · exact (bare ended).intact
    · exact (linked.living ended).intact
  cases event with
  | bind portFree memory => exact ensures_ok (bind_linked linked portFree memory)
  | connect portFree memory iss =>
    exact ensures_ok (connect_linked linked (intact alone) portFree memory iss)
  | listen memory =>
    refine ensures_ok (listen_linked linked (fun dangles => ?_) memory)
    have stale : tcp.sendWindow = .null := alone (linked.send dangles)
    simp [stale] at dangles
  | handshake memory => exact ensures_ok (handshake_linked linked memory)
  | send data =>
    refine ensures_map ((sendData_calm fun nonempty fits dangles => ?_).mono
      fun _ calm => calm.linked linked)
    rcases alone (linked.send dangles) with empty | full | null
    · exact nonempty empty
    · omega
    · simp [null] at dangles
  | recv length =>
    refine ensures_map ((recvData_calm fun copies dangles => ?_).mono
      fun _ calm => calm.linked linked)
    rcases alone (linked.recv dangles) with nothing | null
    · omega
    · simp [null] at dangles
  | shutdown how =>
    have dropped : Linked { tcp with recvWindow := .null } :=
      ⟨linked.send, False.elim, linked.closed⟩
    cases how with
    | rd =>
      refine (dropRecvWindow_eq fun dangles => ?_).mono fun _ same => same ▸ dropped
      have null : tcp.recvWindow = .null := alone (linked.recv dangles)
      simp [null] at dangles
    | wr =>
      refine halfClose_linked linked ?_
      by_cases ended : tcp.Over
      · exact (alone ended).imp_right Bare.intact
      · exact .inr (linked.living ended).intact
    | rdwr =>
      refine ensures_bind (dropRecvWindow_eq fun dangles => ?_) fun _ same => ?_
      · simp [(alone (linked.recv dangles)).1] at dangles
      · subst same
        refine halfClose_linked dropped ?_
        by_cases ended : tcp.Over
        · refine (alone ended).2.imp_right fun null => ⟨fun dangles => ?_, not_dangles_null⟩
          simp [null] at dangles
        · exact .inr ⟨(linked.living ended).intact.send, not_dangles_null⟩
  | reset => exact reset_linked (intact alone)
  | timeout =>
    by_cases ended : tcp.Over
    · simp only [step, tcpTimeoutHandler, linked.closed ended]
      exact ensures_ok linked
    · exact timeout_linked (linked.living ended)
  | segment segment iss =>
    simp only [step]
    split_ifs with bound
    · exact rx_linked linked (fun parsed => intact fun ended => alone ended bound parsed) iss
    · exact ensures_ok linked
  | unreachable code =>
    simp only [step]
    split_ifs with bound
    · exact notifyUnreachable_linked linked
        fun other => intact fun ended => alone ended bound other
    · exact ensures_ok linked
  | updateMtu mtu =>
    simp only [step]
    split_ifs
    · exact (updateMtu_calm mtu).mono fun _ calm => calm.linked linked
    · exact ensures_ok linked

/-- The run lemma: the invariant carries a whole session. -/
theorem Linked.alwaysSafe {events : List (Event V)} (linked : tcp.Linked)
    (alone : tcp.Always LeftAlone events) : tcp.AlwaysSafe events := by
  induction events generalizing tcp with
  | nil => trivial
  | cons event rest ih =>
    have leads := step_linked linked alone.1
    refine ⟨leads.mono fun _ _ => trivial, fun next run => ih ?_ (alone.2 next run)⟩
    rw [run] at leads
    exact leads

/-- A new connection satisfies the invariant. -/
theorem register_linked (pmtu : Nat) : (tcpRegister pmtu : Connection V).Linked :=
  ⟨False.elim, False.elim, fun ended => by simp [Over, tcpRegister] at ended⟩

/-- From its registration on, whatever the order of calls, segments and timeouts: as long as a
connection that is over is left alone, each window is freed at most once and is not touched after
that. -/
theorem windows_safe (pmtu : Nat) (events : List (Event V))
    (alone : (tcpRegister pmtu : Connection V).Always LeftAlone events) :
    (tcpRegister pmtu : Connection V).AlwaysSafe events :=
  (register_linked pmtu).alwaysSafe alone

/-- A segment without data. -/
def bareSegment (flags : Flags) (seq ack : Nat) : Segment V where
  flags := flags
  seq := seq
  ack := ack
  windowSize := 4096
  dataOffset := 80
  options := fun _ => 0
  payload := []

/-- A connection is opened, sends a byte, and its user resets it. -/
def resetSession : List (Event Nat) :=
  [.bind true (some fun _ => 0),
    .connect true none 100,
    .segment (bareSegment { Flags.none with syn := true, ack := true } 500 101) 0,
    .handshake (some fun _ => 0),
    .send [7],
    .reset]

/-- After the reset a timeout and a smaller `MTU` may still come. -/
theorem windows_safe_reset :
    (tcpRegister 1500 : Connection Nat).AlwaysSafe
      (resetSession ++ [.timeout, .updateMtu 600]) := by
  refine windows_safe 1500 _ ?_
  have lives : ∀ {tcp : Connection Nat} {event : Event Nat},
      tcp.connState ∈ [.init, .opening, .opened] → tcp.LeftAlone event := by
    rintro tcp event state (ended | ended | ended) <;> simp [ended] at state
  refine always_cons (lives (by decide)) rfl ?_
  refine always_cons (lives (by decide)) rfl ?_
  refine always_cons (lives (by decide)) rfl ?_
  refine always_cons (lives (by decide)) rfl ?_
  refine always_cons (lives (by decide)) rfl ?_
  refine always_cons (lives (by decide)) rfl ?_
  exact always_cons (fun _ => trivial) rfl (always_cons (fun _ => trivial) rfl trivial)

/-- An acknowledgement that was under way arrives after the reset. -/
def lateSegment : List (Event Nat) :=
  resetSession ++ [.segment (bareSegment { Flags.none with ack := true } 501 101) 0]

/-- The late segment resets the closed connection once more, and its windows are freed twice. -/
theorem freed_twice_after_reset : ¬ (tcpRegister 1500 : Connection Nat).AlwaysSafe lateSegment := by
  intro safe
  have stops : (tcpRegister 1500 : Connection Nat).run lateSegment = .error .doubleFree := by rfl
  have fine := safe.run
  rw [stops] at fine
  exact fine Fault.doubleFree_dangling

end Connection

end Horizon.Tcp
