import Horizon.Kernel.Tcp
/-!
# The retransmission timeout

The estimates behind the retransmission timer (`driver/network/protocols/tcp.c`): `tcp_bind`, a
sample in `tcp_compute_retransmission_timer` and the back-off of `tcp_timeout_handler`. An `int`
expression that overflows gives `none`; only `retry_times`, which nothing bounds, is taken to wrap.
-/

namespace Horizon.Tcp

/-- The value of an expression of type `int`. -/
def int (value : Int) : Option Int :=
  if -2 ^ 31 ≤ value ∧ value < 2 ^ 31 then some value else none

/-- The fields of a `Tcp` that the timeout depends on. -/
structure Estimates where
  rttvar : Int
  srtt : Int
  rto : Int
  retryTimes : Int
  deriving DecidableEq

/-- `tcp_compute_retransmission_timer`; `r` is zero when nothing was measured. -/
def tcpComputeRetransmissionTimer (tcp : Estimates) (r : Int) : Option Estimates :=
  if r = 0 then
    some (if tcp.rttvar = 0 then { tcp with rto := 1 * 1000 } else tcp)
  else do
    let (rttvar, srtt) ←
      if tcp.rttvar = 0 then some (r.tdiv 2, r)
      else do
        let error ← int (tcp.srtt - r)
        let rttvar ← int (3 * tcp.rttvar + |error|)
        let srtt ← int (7 * tcp.srtt + r)
        some (rttvar.tdiv 4, srtt.tdiv 8)
    let spread ← int (4 * rttvar)
    let rto ← int (srtt + max (1 * 1000) spread)
    some { tcp with rttvar := rttvar, srtt := srtt, rto := min rto (60 * 1000) }

/-- The estimates that `tcp_bind` leaves; it keeps the count of retries. -/
def tcpBindEstimates (retryTimes : Int) : Option Estimates :=
  tcpComputeRetransmissionTimer ⟨0, 0, 0, retryTimes⟩ 0

/-- The branch of `tcp_timeout_handler` that retransmits. -/
def tcpBackOff (tcp : Estimates) (state : TcpState) : Option Estimates := do
  let retryTimes := (tcp.retryTimes + 1).bmod (2 ^ 32)
  if retryTimes < (tcpMaxRetries : Int) then
    let rto ← int (tcp.rto * 2)
    let rto := min rto (60 * 1000)
    let rto := if state = .synSent ∨ state = .synReceived then min rto (3 * 1000) else rto
    some { tcp with rto := rto, retryTimes := retryTimes }
  else some { tcp with retryTimes := retryTimes }

/-- `tcp_timeout_handler`, in the given state of the connection. -/
def tcpTimeoutHandler (tcp : Estimates) (state : TcpState) : Option Estimates :=
  match state with
  | .synSent | .synReceived | .established | .finWait1 => tcpBackOff tcp state
  | _ => some tcp

end Horizon.Tcp
