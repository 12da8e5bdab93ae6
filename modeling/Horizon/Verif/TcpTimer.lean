import Mathlib.Tactic.Ring
import Horizon.Kernel.TcpTimer
/-!
# Bounds of the retransmission timeout

Over any history no estimate overflows, the timeout stays in its range and the smoothed round-trip
time between two samples. The variance may truncate to zero, after which the next sample counts as a
first one; this keeps both bounds.
-/

namespace Horizon.Tcp

open Option

/-- A measured round-trip time in milliseconds, above zero and below `2^27`. -/
structure Sample where
  rtt : Int
  positive : 0 < rtt
  small : rtt < 2 ^ 27

/-- What changes the estimates. -/
inductive RttEvent where
  | sample (sample : Sample)
  | timeout (state : TcpState)

def Estimates.apply (tcp : Estimates) : RttEvent → Option Estimates
  | .sample sample => tcpComputeRetransmissionTimer tcp sample.rtt
  | .timeout state => tcpTimeoutHandler tcp state

/-- The samples of a history, in their order. -/
def samplesOf (events : List RttEvent) : List Sample :=
  events.filterMap fun
    | .sample sample => some sample
    | .timeout _ => none

/-- The smoothed time lies between two of the samples. -/
def Between (seen : List Sample) (srtt : Int) : Prop :=
  ∃ low ∈ seen, ∃ high ∈ seen, low.rtt ≤ srtt ∧ srtt ≤ high.rtt

/-- What every history keeps. While nothing was measured the variance is zero, so the first sample
is treated as such. -/
structure Estimates.Bounded (tcp : Estimates) (seen : List Sample) : Prop where
  rto_ge : 1000 ≤ tcp.rto
  rto_le : tcp.rto ≤ 60000
  rttvar_nonneg : 0 ≤ tcp.rttvar
  rttvar_lt : tcp.rttvar < 2 ^ 27
  unmeasured : seen = [] → tcp.rttvar = 0
  between : seen ≠ [] → Between seen tcp.srtt

theorem int_of_bounds {value : Int} (low : 0 ≤ value) (high : value < 2 ^ 31) :
    int value = some value := if_pos ⟨by omega, high⟩

variable {tcp : Estimates} {seen : List Sample}

theorem Between.mean {srtt : Int} (between : Between seen srtt) (sample : Sample) :
    Between (seen ++ [sample]) ((7 * srtt + sample.rtt) / 8) := by
  obtain ⟨low, lowSeen, high, highSeen, above, below⟩ := between
  have last : sample ∈ seen ++ [sample] := by simp
  have lowIn : low ∈ seen ++ [sample] := List.mem_append_left _ lowSeen
  have highIn : high ∈ seen ++ [sample] := List.mem_append_left _ highSeen
  by_cases under : sample.rtt ≤ srtt
  · exact ⟨sample, last, high, highIn, by omega, by omega⟩
  · exact ⟨low, lowIn, sample, last, by omega, by omega⟩

theorem Between.range {srtt : Int} (between : Between seen srtt) : 0 < srtt ∧ srtt < 2 ^ 27 := by
  obtain ⟨low, -, high, -, above, below⟩ := between
  exact ⟨lt_of_lt_of_le low.positive above, lt_of_le_of_lt below high.small⟩

theorem Bounded.measured {sample : Sample} {rttvar srtt : Int} (low : 0 ≤ rttvar)
    (high : rttvar < 2 ^ 27) (between : Between (seen ++ [sample]) srtt) : ∃ next : Estimates, (do
        let spread ← int (4 * rttvar)
        let rto ← int (srtt + max (1 * 1000) spread)
        some { tcp with rttvar := rttvar, srtt := srtt, rto := min rto (60 * 1000) }) =
      some next ∧ next.Bounded (seen ++ [sample]) := by
  have range := between.range
  rw [int_of_bounds (by omega) (by omega)]
  simp only [bind_eq_bind, bind_some]
  rw [int_of_bounds (by omega) (by omega)]
  refine ⟨_, rfl, ?_, ?_, low, high, by simp, fun _ => between⟩ <;> dsimp only <;> omega

/-- A sample overflows nothing and keeps the bounds. -/
theorem Estimates.Bounded.sample (bounded : tcp.Bounded seen) (sample : Sample) :
    ∃ next, tcpComputeRetransmissionTimer tcp sample.rtt = some next ∧
      next.Bounded (seen ++ [sample]) := by
  have positive := sample.positive
  have small := sample.small
  have low := bounded.rttvar_nonneg
  have high := bounded.rttvar_lt
  unfold tcpComputeRetransmissionTimer
  rw [if_neg (by omega)]
  by_cases first : tcp.rttvar = 0
  · rw [if_pos first, Int.tdiv_eq_ediv_of_nonneg (by omega)]
    exact Bounded.measured (by omega) (by omega) ⟨sample, by simp, sample, by simp, by omega⟩
  · have between := bounded.between fun empty => first (bounded.unmeasured empty)
    have range := between.range
    have error : int (tcp.srtt - sample.rtt) = some (tcp.srtt - sample.rtt) := if_pos (by omega)
    have distance : |tcp.srtt - sample.rtt| < 2 ^ 27 := abs_lt.mpr (by omega)
    have nonneg := abs_nonneg (tcp.srtt - sample.rtt)
    rw [if_neg first, error]
    simp only [bind_eq_bind, bind_some]
    rw [int_of_bounds (by omega) (by omega), bind_some, int_of_bounds (by omega) (by omega),
      bind_some, Int.tdiv_eq_ediv_of_nonneg (by omega),
      Int.tdiv_eq_ediv_of_nonneg (by omega)]
    exact Bounded.measured (by omega) (by omega) (between.mean sample)

/-- A timeout overflows nothing and keeps the bounds. -/
theorem Estimates.Bounded.timeout (bounded : tcp.Bounded seen) (state : TcpState) :
    ∃ next, tcpTimeoutHandler tcp state = some next ∧ next.Bounded seen := by
  have low := bounded.rto_ge
  have high := bounded.rto_le
  -- Only the timeout and the count of retries change.
  have kept : ∀ rto retries, 1000 ≤ rto → rto ≤ 60000 →
      Bounded { tcp with rto := rto, retryTimes := retries } seen :=
    fun _ _ above below => { bounded with rto_ge := above, rto_le := below }
  have backOff : ∃ next, tcpBackOff tcp state = some next ∧ next.Bounded seen := by
    unfold tcpBackOff
    dsimp only
    split
    · rw [int_of_bounds (by omega) (by omega)]
      refine ⟨_, rfl, kept _ _ ?_ ?_⟩ <;> split <;> omega
    · exact ⟨_, rfl, kept _ _ low high⟩
  cases state with
  | synSent | synReceived | established | finWait1 => exact backOff
  | _ => exact ⟨tcp, rfl, bounded⟩

/-- A history of samples and timeouts keeps the bounds. -/
theorem Estimates.Bounded.run (events : List RttEvent) (bounded : tcp.Bounded seen) :
    ∃ final, events.foldlM apply tcp = some final ∧
      final.Bounded (seen ++ samplesOf events) := by
  induction events generalizing tcp seen with
  | nil => exact ⟨tcp, rfl, by simpa [samplesOf] using bounded⟩
  | cons event events induct =>
    cases event with
    | sample sample =>
      obtain ⟨next, step, after⟩ := bounded.sample sample
      obtain ⟨final, run, last⟩ := induct after
      refine ⟨final, ?_, by simpa [samplesOf] using last⟩
      simpa [apply, step] using run
    | timeout state =>
      obtain ⟨next, step, after⟩ := bounded.timeout state
      obtain ⟨final, run, last⟩ := induct after
      refine ⟨final, ?_, by simpa [samplesOf] using last⟩
      simpa [apply, step] using run

/-- After `tcp_bind` and any history of samples and timeouts, nothing has overflowed, the timeout
is between one second and a minute, and the smoothed time is between two of the samples. -/
theorem estimates_stay_bounded (retryTimes : Int) (events : List RttEvent) :
    ∃ final, (tcpBindEstimates retryTimes >>= events.foldlM Estimates.apply) = some final ∧
      1000 ≤ final.rto ∧ final.rto ≤ 60000 ∧
      (samplesOf events ≠ [] → Between (samplesOf events) final.srtt) := by
  have start : Estimates.Bounded ⟨0, 0, 1000, retryTimes⟩ [] :=
    ⟨by simp, by simp, by simp, by simp, fun _ => rfl, by simp⟩
  obtain ⟨final, run, bounded⟩ := start.run events
  exact ⟨final, run, bounded.rto_ge, bounded.rto_le, bounded.between⟩

/-- A sample of 300 ms, a retransmission, and a sample of 500 ms. -/
def measured : List RttEvent :=
  [.sample ⟨300, by decide, by decide⟩, .timeout .established, .sample ⟨500, by decide, by decide⟩]

/-- The smoothed time is between 300 and 500 then. -/
theorem estimates_stay_bounded_measured :
    ∃ final, (tcpBindEstimates 0 >>= measured.foldlM Estimates.apply) = some final ∧
      1000 ≤ final.rto ∧ 300 ≤ final.srtt ∧ final.srtt ≤ 500 := by
  obtain ⟨final, run, low, -, between⟩ := estimates_stay_bounded 0 measured
  have ⟨first, firstSeen, last, lastSeen, above, below⟩ := between (by simp [measured, samplesOf])
  simp only [measured, samplesOf, List.filterMap_cons, List.filterMap_nil, List.mem_cons,
    List.not_mem_nil, or_false] at firstSeen lastSeen
  refine ⟨final, run, low, ?_⟩
  rcases firstSeen with rfl | rfl <;> rcases lastSeen with rfl | rfl <;>
    simp only at above below <;> omega

end Horizon.Tcp
