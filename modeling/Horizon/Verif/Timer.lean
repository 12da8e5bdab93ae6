import Horizon.Kernel.Timer
/-!
# Deadlines of timers across the counter's wraparound

A tick changes a timer in one way only: the interrupt handler takes it out of the callback list when
it is due, and sets its deadline to zero (`ticks_timer`). The answers of `timer_is_timeout` follow
by arithmetic on the counter.
-/

namespace Horizon.Timers

open Function Nat List TimerDevice

/-- A device whose counter is a 32-bit value and whose callback list holds no timer twice. -/
structure Clock extends TimerDevice where
  counter_lt : counter < 2 ^ 32
  callbacks_nodup : timerCallbackLh.Nodup

/-- A served timer: its deadline is zero, the flag stays. -/
def Timer.served (timer : Timer) : Timer := { timer with timeout := 0 }

namespace TimerDevice

variable (device : TimerDevice)

/-- The timers become due in the order of the list, none before tick `first` and all by `last`. -/
def DueInTurn (last : Nat) : List Nat → Nat → Prop
  | [], _ => True
  | cur :: next, first => ∃ tick, first ≤ tick ∧ tick ≤ last ∧
      timerIsTimeout ((device.counter + tick) % 2 ^ 32) (device.timers cur) = true ∧
      DueInTurn last next tick

/-- The timer is in the callback list, and within `count` ticks those before it and then itself
become due. -/
def Served (timer count : Nat) : Prop :=
  ∃ before behind, device.timerCallbackLh = before ++ timer :: behind ∧
    device.DueInTurn count (before ++ [timer]) 1

/-- The interrupt handler took the timer out of the callback list within `count` ticks. -/
def Gone (timer count : Nat) : Prop :=
  timer ∈ device.timerCallbackLh ∧ timer ∉ (device.ticks count).timerCallbackLh

/-- Once the deadline is set `count` ticks ahead, the timer answers "not yet" before it and "due"
from it on, for `2^31` ticks. -/
def TimeoutRight (timer count : Nat) : Prop :=
  ∀ elapsed, elapsed ≤ count + 2 ^ 31 →
    (((device.timerSetTimeout timer count).2.ticks elapsed).isTimeout timer = true ↔
      count ≤ elapsed)

/-- The handler leaves the end of the callback list. -/
theorem fireTimers_suffix (counter : Nat) (lh : List Nat) (timers : Nat → Timer) :
    (fireTimers counter lh timers).timerCallbackLh <:+ lh := by
  induction lh generalizing timers with
  | nil => exact suffix_refl _
  | cons cur next ih =>
    unfold fireTimers
    split
    · exact (ih _).trans (suffix_cons cur next)
    · exact suffix_refl _

/-- A timer outside the callback list is not touched. -/
theorem fireTimers_absent (counter timer : Nat) (lh : List Nat) (timers : Nat → Timer)
    (absent : timer ∉ lh) : (fireTimers counter lh timers).timers timer = timers timer := by
  induction lh generalizing timers with
  | nil => rfl
  | cons cur next ih =>
    have other : timer ≠ cur := fun same => absent (same ▸ mem_cons_self)
    have later : timer ∉ next := fun inside => absent (mem_cons_of_mem cur inside)
    unfold fireTimers
    split
    · show (fireTimers counter next _).timers timer = timers timer
      rw [ih _ later, update_of_ne other]
    · rfl

/-- A timer of the list stays as it is, or it is due and leaves the list served. -/
theorem fireTimers_cases (counter timer : Nat) (lh : List Nat) (timers : Nat → Timer)
    (nodup : lh.Nodup) (inside : timer ∈ lh) :
    (timer ∈ (fireTimers counter lh timers).timerCallbackLh ∧
        (fireTimers counter lh timers).timers timer = timers timer) ∨
      (timer ∉ (fireTimers counter lh timers).timerCallbackLh ∧
        (fireTimers counter lh timers).timers timer = Timer.served (timers timer) ∧
        timerIsTimeout counter (timers timer) = true) := by
  induction lh generalizing timers with
  | nil => exact absurd inside not_mem_nil
  | cons cur next ih =>
    have fresh : cur ∉ next := (nodup_cons.mp nodup).1
    have nodupNext : next.Nodup := (nodup_cons.mp nodup).2
    unfold fireTimers
    split
    · rename_i due
      by_cases same : timer = cur
      · right
        subst same
        refine ⟨fun kept => fresh ((fireTimers_suffix counter next _).subset kept), ?_, due⟩
        show (fireTimers counter next _).timers timer = _
        rw [fireTimers_absent counter timer next _ fresh, update_self]
        rfl
      · have later : timer ∈ next := (mem_cons.mp inside).resolve_left same
        have result := ih (update timers cur { timers cur with timeout := 0 })
          nodupNext later
        rw [update_of_ne same] at result
        exact result
    · exact Or.inl ⟨inside, rfl⟩

/-- A run of ticks counts them, modulo the width of the counter. -/
theorem ticks_counter (bounded : device.counter < 2 ^ 32) (count : Nat) :
    (device.ticks count).counter = (device.counter + count) % 2 ^ 32 := by
  induction count with
  | zero => exact (mod_eq_of_lt bounded).symm
  | succ count ih =>
    show ((device.ticks count).counter + 1) % 2 ^ 32 = _
    rw [ih, mod_add_mod, Nat.add_assoc]

/-- A run of ticks only takes timers off the front of the list. -/
theorem ticks_suffix (count : Nat) :
    (device.ticks count).timerCallbackLh <:+ device.timerCallbackLh := by
  induction count with
  | zero => exact suffix_refl _
  | succ count ih => exact (fireTimers_suffix _ _ _).trans ih

theorem Gone.mono {device : TimerDevice} {timer count more : Nat}
    (gone : device.Gone timer count) (le : count ≤ more) : device.Gone timer more := by
  refine ⟨gone.1, ?_⟩
  induction more, le using le_induction with
  | base => exact gone.2
  | succ more _ ih => exact fun kept => ih ((fireTimers_suffix _ _ _).subset kept)

/-- What a run of ticks does to a timer: nothing, or it is due at one of them and leaves the list
served. -/
theorem ticks_timer (nodup : device.timerCallbackLh.Nodup) (timer count : Nat) :
    (¬ device.Gone timer count ∧ (device.ticks count).timers timer = device.timers timer) ∨
      (device.Gone timer count ∧
        (device.ticks count).timers timer = Timer.served (device.timers timer) ∧
        ∃ tick, tick ≤ count ∧
          timerIsTimeout (device.ticks tick).counter (device.timers timer) = true) := by
  by_cases listed : timer ∈ device.timerCallbackLh
  · induction count with
    | zero => exact Or.inl ⟨fun gone => gone.2 listed, rfl⟩
    | succ count ih =>
      rcases ih with ⟨waiting, same⟩ | ⟨left, changed, tick, le, due⟩
      · have queued : timer ∈ (device.ticks count).timerCallbackLh :=
          not_not.mp fun absent => waiting ⟨listed, absent⟩
        have nodupNow := nodup.sublist (ticks_suffix device count).sublist
        rcases fireTimers_cases (((device.ticks count).counter + 1) % 2 ^ 32) timer _
          (device.ticks count).timers nodupNow queued with ⟨kept, unchanged⟩ | ⟨gone, set, due⟩
        · exact Or.inl ⟨fun gone => gone.2 kept, unchanged.trans same⟩
        · rw [same] at set due
          exact Or.inr ⟨⟨listed, gone⟩, set, count + 1, Nat.le_refl _, due⟩
      · have gone := (left.mono (le_succ count)).2
        refine Or.inr ⟨⟨listed, gone⟩, ?_, tick, le_succ_of_le le, due⟩
        rw [← changed]
        exact fireTimers_absent _ timer _ _ left.2
  · left
    refine ⟨fun gone => listed gone.1, ?_⟩
    induction count with
    | zero => rfl
    | succ count ih =>
      rw [← ih]
      exact fireTimers_absent _ timer _ _
        fun kept => listed ((ticks_suffix device count).subset kept)

variable {device}

/-- The handler gets past the front of the list exactly when each timer there is due. -/
theorem fireTimers_past_iff {counter : Nat} {timers : Nat → Timer} (front : List Nat)
    {rest : List Nat} (nodup : (front ++ rest).Nodup) :
    (fireTimers counter (front ++ rest) timers).timerCallbackLh.length ≤ rest.length ↔
      ∀ cur ∈ front, timerIsTimeout counter (timers cur) = true := by
  induction front generalizing timers with
  | nil => simpa using (fireTimers_suffix counter rest timers).length_le
  | cons cur next ih =>
    have fresh : cur ∉ next ++ rest := (nodup_cons.mp nodup).1
    rw [cons_append, fireTimers]
    split
    case isTrue due =>
      rw [ih (nodup_cons.mp nodup).2, forall_mem_cons]
      have others : ∀ other ∈ next, other ≠ cur := fun other inside same =>
        fresh (mem_append_left rest (same ▸ inside))
      constructor
      · intro all
        exact ⟨due, fun other inside => update_of_ne (others other inside) _ timers ▸
          all other inside⟩
      · intro all other inside
        rw [update_of_ne (others other inside)]
        exact all.2 other inside
    case isFalse waits =>
      refine ⟨fun short => ?_, fun all => absurd (all cur mem_cons_self) waits⟩
      simp only [length_cons, length_append] at short
      omega

/-- By the next tick the timers are due in turn when the first ones are by now and the others
are then. -/
theorem dueInTurn_succ_iff {count : Nat} (front : List Nat) {first : Nat}
    (early : first ≤ count + 1) :
    device.DueInTurn (count + 1) front first ↔
      ∃ passed late, front = passed ++ late ∧ device.DueInTurn count passed first ∧
        ∀ cur ∈ late, timerIsTimeout ((device.counter + (count + 1)) % 2 ^ 32)
          (device.timers cur) = true := by
  induction front generalizing first with
  | nil => exact ⟨fun _ => ⟨[], [], rfl, trivial, nofun⟩, fun _ => trivial⟩
  | cons cur next ih =>
    constructor
    · rintro ⟨tick, since, upto, due, later⟩
      obtain ⟨passed, late, rfl, inTurn, dueLate⟩ := (ih upto).mp later
      by_cases last : tick = count + 1
      · refine ⟨[], cur :: (passed ++ late), rfl, trivial, ?_⟩
        -- Whoever is due in turn from the last tick on is due at the last tick.
        have none : passed = [] := by
          cases passed with
          | nil => rfl
          | cons other _ =>
            obtain ⟨tick', since', by', -⟩ := inTurn
            omega
        subst none last
        exact forall_mem_cons.mpr ⟨due, dueLate⟩
      · exact ⟨cur :: passed, late, rfl, ⟨tick, since, by omega, due, inTurn⟩, dueLate⟩
    · rintro ⟨passed, late, front, inTurn, dueLate⟩
      cases passed with
      | nil =>
        subst front
        refine ⟨count + 1, early, le_rfl, dueLate cur mem_cons_self, (ih le_rfl).mpr ?_⟩
        exact ⟨[], next, rfl, trivial, fun other inside =>
          dueLate other (mem_cons_of_mem cur inside)⟩
      | cons other passed =>
        cases front
        obtain ⟨tick, since, upto, due, inTurn⟩ := inTurn
        exact ⟨tick, since, by omega, due, (ih (by omega)).mpr ⟨passed, late, rfl, inTurn, dueLate⟩⟩

/-- After `count` ticks the handler is past the front of the list exactly when the timers there
become due in turn within them. -/
theorem ticks_past_iff (bounded : device.counter < 2 ^ 32)
    (nodup : device.timerCallbackLh.Nodup) (count : Nat) {front rest : List Nat}
    (list : device.timerCallbackLh = front ++ rest) :
    (device.ticks count).timerCallbackLh.length ≤ rest.length ↔
      device.DueInTurn count front 1 := by
  induction count generalizing front rest with
  | zero =>
    show device.timerCallbackLh.length ≤ rest.length ↔ _
    rw [list, length_append]
    cases front with
    | nil => simp [DueInTurn]
    | cons cur next =>
      refine ⟨fun short => ?_, fun ⟨tick, since, upto, _⟩ => ?_⟩
      · simp only [length_cons] at short
        omega
      · omega
  | succ count ih =>
    have suffix := ticks_suffix device count
    rw [dueInTurn_succ_iff front (by omega)]
    by_cases short : (device.ticks count).timerCallbackLh.length ≤ rest.length
    · refine ⟨fun _ => ⟨front, [], (append_nil front).symm, (ih list).mp short, nofun⟩, fun _ => ?_⟩
      exact (fireTimers_suffix _ _ _).length_le.trans short
    · obtain ⟨late, left⟩ := suffix_of_suffix_length_le ⟨front, list.symm⟩ suffix
        (Nat.le_of_not_le short)
      obtain ⟨passed, whole⟩ := suffix
      have parts : front = passed ++ late := by
        rw [list, ← left, ← append_assoc] at whole
        exact (append_cancel_right whole).symm
      have nodupLeft : (late ++ rest).Nodup :=
        nodup.sublist (left ▸ whole ▸ sublist_append_right passed _)
      have same : ∀ cur ∈ late, (device.ticks count).timers cur = device.timers cur := by
        intro cur inside
        obtain ⟨-, same⟩ | ⟨gone, -⟩ := ticks_timer device nodup cur count
        · exact same
        · exact absurd (left ▸ mem_append_left rest inside) gone.2
      have now : ((device.ticks count).counter + 1) % 2 ^ 32 =
          (device.counter + (count + 1)) % 2 ^ 32 := ticks_counter device bounded (count + 1)
      show (fireTimers _ (device.ticks count).timerCallbackLh _).timerCallbackLh.length ≤ _ ↔ _
      rw [← left, fireTimers_past_iff late nodupLeft, now]
      constructor
      · intro due
        refine ⟨passed, late, parts, (ih (by rw [list, parts, append_assoc])).mp ?_, ?_⟩
        · rw [left]
        · exact fun cur inside => same cur inside ▸ due cur inside
      · rintro ⟨passed', late', parts', inTurn, due⟩ cur inside
        have shorter := (ih (by rw [list, parts', append_assoc])).mpr inTurn
        rw [← left, length_append, length_append] at shorter
        have within : late <:+ late' := suffix_of_suffix_length_le ⟨passed, parts.symm⟩
          ⟨passed', parts'.symm⟩ (by omega)
        rw [same cur inside]
        exact due cur (within.subset inside)

/-- A timer leaves the list within `count` ticks exactly when those before it and then itself
become due within them. -/
theorem gone_iff_served (bounded : device.counter < 2 ^ 32)
    (nodup : device.timerCallbackLh.Nodup) (timer count : Nat) :
    device.Gone timer count ↔ device.Served timer count := by
  constructor
  · rintro ⟨inside, gone⟩
    obtain ⟨before, behind, list⟩ := append_of_mem inside
    have list' : device.timerCallbackLh = (before ++ [timer]) ++ behind := by simp [list]
    refine ⟨before, behind, list, (ticks_past_iff bounded nodup count list').mp ?_⟩
    by_contra long
    have kept : timer :: behind <:+ (device.ticks count).timerCallbackLh :=
      suffix_of_suffix_length_le ⟨before, list.symm⟩ (ticks_suffix device count)
        (Nat.lt_of_not_le long)
    exact gone (kept.subset mem_cons_self)
  · rintro ⟨before, behind, list, inTurn⟩
    have list' : device.timerCallbackLh = (before ++ [timer]) ++ behind := by simp [list]
    have short := (ticks_past_iff bounded nodup count list').mpr inTurn
    have within : (device.ticks count).timerCallbackLh <:+ behind :=
      suffix_of_suffix_length_le (ticks_suffix device count) ⟨_, list'.symm⟩ short
    refine ⟨list ▸ mem_append_right before mem_cons_self, fun kept => ?_⟩
    have apart := (nodup_append.mp (list ▸ nodup)).2.1
    exact (nodup_cons.mp apart).1 (within.subset kept)

end TimerDevice

namespace Clock

/-- The device after the timer's deadline was set. -/
def armed (clock : Clock) (timer count : Nat) : TimerDevice :=
  (clock.timerSetTimeout timer count).2

variable (clock : Clock) (timer count : Nat)

/-- When the deadline is met by `timer_is_timeout`: it lies ahead and neither it nor the `2^31`
ticks after it reach the wraparound, or the handler serves the timer before that; or the deadline
is the current tick, the last one before the wraparound, and the handler leaves the timer alone. -/
def DeadlineMet : Prop :=
  (0 < count ∧ clock.counter + count < 2 ^ 32 ∧
      (clock.counter + count < 2 ^ 31 ∨
        (clock.armed timer count).Served timer (2 ^ 32 - clock.counter))) ∨
    (count = 0 ∧ clock.counter = 2 ^ 32 - 1 ∧ ¬ (clock.armed timer count).Served timer (2 ^ 31))

variable {clock timer} (attached : (clock.timers timer).timerDevice = true)
include attached

/-- Setting a deadline leaves the counter and the callback list. -/
theorem armed_device : (clock.armed timer count).counter = clock.counter ∧
      (clock.armed timer count).timerCallbackLh = clock.timerCallbackLh := by
  unfold armed timerSetTimeout
  rw [if_pos attached]
  exact ⟨rfl, rfl⟩

/-- What setting a deadline writes into the timer. -/
theorem armed_timer :
    ((clock.armed timer count).timers timer).timeout = (clock.counter + count) % 2 ^ 32 ∧
      ((clock.armed timer count).timers timer).willWrap =
        (if clock.counter < (clock.counter + count) % 2 ^ 32 then false else true) := by
  unfold armed timerSetTimeout
  rw [if_pos attached]
  simp only [update_self, and_self]

theorem armed_counter (elapsed : Nat) :
    ((clock.armed timer count).ticks elapsed).counter = (clock.counter + elapsed) % 2 ^ 32 := by
  have start := (armed_device count attached).1
  rw [TimerDevice.ticks_counter _ (start ▸ clock.counter_lt) elapsed, start]

/-- A deadline ahead of the wraparound: a waiting timer compares upwards, a served one is due. -/
theorem answer_ahead (ahead : 0 < count) (below : clock.counter + count < 2 ^ 32) (elapsed : Nat) :
    (¬ (clock.armed timer count).Gone timer elapsed ∧
        (((clock.armed timer count).ticks elapsed).isTimeout timer = true ↔
          clock.counter + count ≤ (clock.counter + elapsed) % 2 ^ 32)) ∨
      ((clock.armed timer count).Gone timer elapsed ∧ count ≤ elapsed ∧
        ((clock.armed timer count).ticks elapsed).isTimeout timer = true) := by
  have device := armed_device count attached
  have fields := armed_timer count attached
  rw [mod_eq_of_lt below, if_pos (by omega)] at fields
  have nodup : (clock.armed timer count).timerCallbackLh.Nodup := device.2 ▸ clock.callbacks_nodup
  unfold isTimeout
  rw [armed_counter count attached]
  rcases TimerDevice.ticks_timer _ nodup timer elapsed with
    ⟨waiting, same⟩ | ⟨gone, changed, tick, le, due⟩
  · left
    rw [same]
    simp only [timerIsTimeout, fields.1, fields.2, Bool.false_eq_true, if_false, decide_eq_true_eq]
    exact ⟨waiting, trivial⟩
  · right
    rw [armed_counter count attached] at due
    simp only [timerIsTimeout, fields.1, fields.2, Bool.false_eq_true, if_false,
      decide_eq_true_eq] at due
    have bound := mod_le (clock.counter + tick) (2 ^ 32)
    refine ⟨gone, by omega, ?_⟩
    rw [changed]
    simp [timerIsTimeout, Timer.served, fields.2]

/-- A deadline at or behind the wraparound: the comparison looks down, also at a served timer. -/
theorem answer_wrapped (wrapped : (clock.counter + count) % 2 ^ 32 ≤ clock.counter)
    (elapsed : Nat) : (¬ (clock.armed timer count).Gone timer elapsed ∧
        (((clock.armed timer count).ticks elapsed).isTimeout timer = true ↔
          (clock.counter + elapsed) % 2 ^ 32 ≤ (clock.counter + count) % 2 ^ 32)) ∨
      ((clock.armed timer count).Gone timer elapsed ∧
        (((clock.armed timer count).ticks elapsed).isTimeout timer = true ↔
          (clock.counter + elapsed) % 2 ^ 32 = 0) ∧
        ∃ tick, tick ≤ elapsed ∧
          (clock.counter + tick) % 2 ^ 32 ≤ (clock.counter + count) % 2 ^ 32) := by
  have device := armed_device count attached
  have fields := armed_timer count attached
  rw [if_neg (by omega)] at fields
  have nodup : (clock.armed timer count).timerCallbackLh.Nodup := device.2 ▸ clock.callbacks_nodup
  unfold isTimeout
  rw [armed_counter count attached]
  rcases TimerDevice.ticks_timer _ nodup timer elapsed with
    ⟨waiting, same⟩ | ⟨gone, changed, tick, le, due⟩
  · left
    rw [same]
    simp only [timerIsTimeout, fields.1, fields.2, if_true, decide_eq_true_eq]
    exact ⟨waiting, trivial⟩
  · right
    rw [armed_counter count attached] at due
    simp only [timerIsTimeout, fields.1, fields.2, if_true, decide_eq_true_eq] at due
    refine ⟨gone, ?_, tick, le, due⟩
    rw [changed]
    simp [timerIsTimeout, Timer.served, fields.2]

/-- Ahead of the wraparound a deadline holds when it is half a turn away from it or the timer is
served in time. -/
theorem right_ahead_iff (ahead : 0 < count) (below : clock.counter + count < 2 ^ 32) :
    clock.TimeoutRight timer count ↔
      clock.counter + count < 2 ^ 31 ∨
        (clock.armed timer count).Gone timer (2 ^ 32 - clock.counter) := by
  have bounded := clock.counter_lt
  constructor
  · intro right
    by_cases room : clock.counter + count < 2 ^ 31
    · exact Or.inl room
    · right
      -- At the wraparound the counter reads zero, below every deadline ahead.
      have due := (right (2 ^ 32 - clock.counter) (by omega)).mpr (by omega)
      have wrap : (clock.counter + (2 ^ 32 - clock.counter)) % 2 ^ 32 = 0 := by omega
      rcases answer_ahead count attached ahead below (2 ^ 32 - clock.counter) with
        ⟨_, answer⟩ | ⟨gone, _⟩
      · have reached := answer.mp due
        omega
      · exact gone
  · intro condition elapsed inRange
    show ((clock.armed timer count).ticks elapsed).isTimeout timer = true ↔ count ≤ elapsed
    rcases answer_ahead count attached ahead below elapsed with
      ⟨waiting, answer⟩ | ⟨_, passed, due⟩
    · have unwrapped : clock.counter + elapsed < 2 ^ 32 := by
        rcases condition with room | gone
        · omega
        · by_contra past
          exact waiting (gone.mono (by omega))
      rw [answer, mod_eq_of_lt unwrapped]
      omega
    · exact ⟨fun _ => passed, fun _ => due⟩

/-- A deadline at the current tick holds only at the last tick before the wraparound. -/
theorem right_now_iff : clock.TimeoutRight timer 0 ↔
      clock.counter = 2 ^ 32 - 1 ∧ ¬ (clock.armed timer 0).Gone timer (2 ^ 31) := by
  have bounded := clock.counter_lt
  have deadline : (clock.counter + 0) % 2 ^ 32 = clock.counter := mod_eq_of_lt bounded
  have wrapped : (clock.counter + 0) % 2 ^ 32 ≤ clock.counter := by omega
  constructor
  · intro right
    have last : clock.counter = 2 ^ 32 - 1 := by
      -- One tick later the counter has passed the deadline, and the comparison looks down.
      by_contra earlier
      have due := (right 1 (by omega)).mpr (by omega)
      have next : (clock.counter + 1) % 2 ^ 32 = clock.counter + 1 := mod_eq_of_lt (by omega)
      rcases answer_wrapped 0 attached wrapped 1 with ⟨_, answer⟩ | ⟨_, answer, _⟩
      · have reached := answer.mp due
        omega
      · have reached := answer.mp due
        omega
    refine ⟨last, fun gone => ?_⟩
    have due := (right (2 ^ 31) (by omega)).mpr (by omega)
    have now : (clock.counter + 2 ^ 31) % 2 ^ 32 = 2 ^ 31 - 1 := by omega
    rcases answer_wrapped 0 attached wrapped (2 ^ 31) with ⟨waiting, _⟩ | ⟨_, answer, _⟩
    · exact waiting gone
    · have reached := answer.mp due
      omega
  · intro condition elapsed inRange
    show ((clock.armed timer 0).ticks elapsed).isTimeout timer = true ↔ 0 ≤ elapsed
    rcases answer_wrapped 0 attached wrapped elapsed with ⟨_, answer⟩ | ⟨gone, _⟩
    · rw [answer, deadline]
      omega
    · exact absurd (gone.mono (by omega)) condition.2

/-- A deadline behind the wraparound is reported early, or not one tick after it. -/
theorem not_right_wrapped (ahead : 0 < count) (past : 2 ^ 32 ≤ clock.counter + count)
    (below : count < 2 ^ 31) : ¬ clock.TimeoutRight timer count := by
  intro right
  have bounded := clock.counter_lt
  have deadline : (clock.counter + count) % 2 ^ 32 = clock.counter + count - 2 ^ 32 := by omega
  have wrapped : (clock.counter + count) % 2 ^ 32 ≤ clock.counter := by omega
  by_cases exact0 : clock.counter + count = 2 ^ 32
  · have due := (right (count + 1) (by omega)).mpr (by omega)
    have now : (clock.counter + (count + 1)) % 2 ^ 32 = 1 := by omega
    rcases answer_wrapped count attached wrapped (count + 1) with ⟨_, answer⟩ | ⟨_, answer, _⟩
    · have reached := answer.mp due
      omega
    · have reached := answer.mp due
      omega
  · have now : (clock.counter + (2 ^ 32 - clock.counter)) % 2 ^ 32 = 0 := by omega
    have early := (right (2 ^ 32 - clock.counter) (by omega)).mp
    have due :
        ((clock.armed timer count).ticks (2 ^ 32 - clock.counter)).isTimeout timer = true := by
      rcases answer_wrapped count attached wrapped (2 ^ 32 - clock.counter) with
        ⟨_, answer⟩ | ⟨_, answer, _⟩
      · exact answer.mpr (by omega)
      · exact answer.mpr now
    have passed := early due
    omega

/-- Setting a deadline fewer than `2^31` ticks ahead is right exactly when `DeadlineMet` holds. -/
theorem timeout_right_iff (below : count < 2 ^ 31) :
    clock.TimeoutRight timer count ↔ clock.DeadlineMet timer count := by
  have device := armed_device count attached
  have gone_iff := TimerDevice.gone_iff_served (device.1 ▸ clock.counter_lt)
    (device.2 ▸ clock.callbacks_nodup) timer
  unfold DeadlineMet
  simp only [← gone_iff]
  rcases Nat.eq_zero_or_pos count with now | ahead
  · subst now
    rw [right_now_iff attached]
    simp
  · by_cases past : clock.counter + count < 2 ^ 32
    · rw [right_ahead_iff count attached ahead past]
      constructor
      · exact fun condition => Or.inl ⟨ahead, past, condition⟩
      · rintro (⟨_, _, condition⟩ | ⟨now, _⟩)
        · exact condition
        · omega
    · constructor
      · intro right
        exact absurd right (not_right_wrapped count attached ahead (Nat.le_of_not_lt past) below)
      · rintro (⟨_, unwrapped, _⟩ | ⟨now, _⟩)
        · exact absurd unwrapped past
        · omega

omit attached

/-- A clock without callbacks, at a value of its counter. -/
def polled (counter : Nat) (bounded : counter < 2 ^ 32) : Clock where
  counter := counter
  timerCallbackLh := []
  timers _ := { timerDevice := true, willWrap := false, timeout := 0, callback := none }
  counter_lt := bounded
  callbacks_nodup := List.nodup_nil

/-- Twenty ticks after the start of the counter the theorem applies, and the deadline is met. -/
theorem timeout_right_at_start : ∃ bounded : 0 < 2 ^ 32, (polled 0 bounded).TimeoutRight 0 20 := by
  refine ⟨by decide, ?_⟩
  rw [timeout_right_iff 20 rfl (by decide)]
  exact Or.inl ⟨by decide, by decide, Or.inl (by decide)⟩

/-- Ten ticks before the wraparound, a deadline twenty ticks ahead is reported at the tenth. -/
theorem early_at_wraparound :
    ∃ bounded : 2 ^ 32 - 10 < 2 ^ 32, ¬ (polled (2 ^ 32 - 10) bounded).TimeoutRight 0 20 := by
  refine ⟨by decide, fun right => ?_⟩
  have passed := (right 10 (by decide)).mp (by decide)
  exact absurd passed (by decide)

end Clock

end Horizon.Timers
