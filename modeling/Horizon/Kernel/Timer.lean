import Mathlib
/-!
# Timers

A timer device counts interrupts in a 32-bit counter and lists the timers whose callbacks are
enabled. A timer stores the counter value of its deadline and a flag, fixed with it, that selects
one of two comparisons (`driver/timer/timer.c`, `driver/timer/timer_dm.c`).
-/

namespace Horizon.Timers

/-- The results of the timer calls modelled here. -/
inductive DriverResult where
  | ok
  | errorNotExist
  deriving DecidableEq

/-- A `Timer`. `timerDevice` says whether the device pointer is set; a callback is named by a
number. -/
structure Timer where
  timerDevice : Bool
  willWrap : Bool
  timeout : Nat
  callback : Option Nat
  deriving DecidableEq

/-- The timer device together with the timers that refer to it, each under its own number. -/
structure TimerDevice where
  counter : Nat
  timerCallbackLh : List Nat
  timers : Nat → Timer

/-- `timer_is_timeout`, at a value of the device's counter. -/
def timerIsTimeout (counter : Nat) (timer : Timer) : Bool :=
  if timer.willWrap then decide (counter ≤ timer.timeout) else decide (timer.timeout ≤ counter)

namespace TimerDevice

/-- `timer_set_timeout`, whose deadline is a 32-bit sum. -/
def timerSetTimeout (device : TimerDevice) (timer count : Nat) : DriverResult × TimerDevice :=
  if (device.timers timer).timerDevice then
    let timeout := (device.counter + count) % 2 ^ 32
    (.ok, { device with
      timers := Function.update device.timers timer { device.timers timer with
        timeout := timeout
        willWrap := if device.counter < timeout then false else true } })
  else (.errorNotExist, device)

/-- What the loop of `timer_irq_handler` leaves: the callback list, the timers, and the callbacks
it called. -/
structure Fired where
  timerCallbackLh : List Nat
  timers : Nat → Timer
  called : List Nat

/-- The loop of `timer_irq_handler`: it stops at the first timer that is not due. The callbacks are
noted in their order and not run: none of them is taken to change the list or a timer. -/
def fireTimers (counter : Nat) : List Nat → (Nat → Timer) → Fired
  | [], timers => ⟨[], timers, []⟩
  | cur :: next, timers =>
    if timerIsTimeout counter (timers cur) then
      let rest := fireTimers counter next
        (Function.update timers cur { timers cur with timeout := 0 })
      { rest with called := (timers cur).callback.toList ++ rest.called }
    else ⟨cur :: next, timers, []⟩

/-- `timer_irq_handler`: one tick of the device. -/
def timerIrqHandler (device : TimerDevice) : TimerDevice :=
  let counter := (device.counter + 1) % 2 ^ 32
  let fired := fireTimers counter device.timerCallbackLh device.timers
  { counter, timerCallbackLh := fired.timerCallbackLh, timers := fired.timers }

/-- A number of interrupts, one after the other. -/
def ticks : Nat → TimerDevice → TimerDevice
  | 0, device => device
  | count + 1, device => (ticks count device).timerIrqHandler

/-- What `timer_is_timeout` answers for one of the device's timers. -/
def isTimeout (device : TimerDevice) (timer : Nat) : Bool :=
  timerIsTimeout device.counter (device.timers timer)

end TimerDevice

end Horizon.Timers
