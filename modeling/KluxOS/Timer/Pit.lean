import KluxOS.Interrupt.Idt
import KluxOS.Lib.TickCounter
import Mathlib.Algebra.Order.Field.Basic
import Mathlib.Algebra.Order.Field.Rat

namespace KluxOS.Timer

open Interrupt TickCounter

def pitChannel0 : Uint16 := 0x40#16

def pitCommand : Uint16 := 0x43#16

def pitChannel0Select : Uint8 := 0x00#8

def pitMode3 : Uint8 := 0x06#8

def pitBoth : Uint8 := 0x30#8

def pitFrequency : Uint32 := 1193180#32

def irq0 : Fin 256 := 32

structure TimerInfo where
  ticks : Uint32 := 0#32
  frequency : Uint32 := 0#32
  ms_per_tick : Uint32 := 0#32
  uptime_ms : Uint64 := 0#64
deriving DecidableEq

-- low is a low byte that waits for its high byte
structure Channel where
  low : Option Uint8
  reload : Uint16
deriving DecidableEq

namespace Channel

-- the command for channel 0, low byte then high byte, makes the next byte a low one
def command (c : Channel) (value : Uint8) : Channel :=
  if value &&& 0xF0#8 = pitChannel0Select ||| pitBoth then { c with low := none } else c

def data (c : Channel) (value : Uint8) : Channel :=
  match c.low with
  | none => { c with low := some value }
  | some low => { low := none, reload := value ++ low }

end Channel

structure TimerState where
  kernel : KernelState
  timer : TimerInfo
  timer_callback : Uint32
  interrupt_handlers : HandlerTable
  channel0 : Channel

-- what the function at an address does: it may read the timer, which is static in pit.c
abbrev Callbacks := Uint32 → TimerInfo → KernelState → KernelState

section Driver

def boot (kernel : KernelState) (interrupt_handlers : HandlerTable) (channel0 : Channel) :
    TimerState :=
  { kernel, timer := {}, timer_callback := 0#32, interrupt_handlers, channel0 }

def outb (port : Uint16) (value : Uint8) (s : TimerState) : TimerState :=
  if port = pitCommand then { s with channel0 := s.channel0.command value }
  else if port = pitChannel0 then { s with channel0 := s.channel0.data value }
  else s

def ioWait (s : TimerState) : TimerState := outb 0x80#16 0#8 s

def TimerState.print (text : CString) (s : TimerState) : TimerState :=
  { s with kernel := s.kernel.print text }

def registerInterruptHandler (num : Fin 256) (handler : Uint32) (s : TimerState) : TimerState :=
  { s with interrupt_handlers := s.interrupt_handlers.set num handler num.isLt }

def pitHandler (callbacks : Callbacks) (s : TimerState) : TimerState :=
  let s := { s with timer := { s.timer with ticks := s.timer.ticks + 1#32 } }
  let s := { s with timer :=
    { s.timer with uptime_ms := s.timer.uptime_ms + s.timer.ms_per_tick.setWidth 64 } }
  if s.timer_callback ≠ 0#32 then
    { s with kernel := callbacks s.timer_callback s.timer s.kernel }
  else s

-- handler is the address of pit_handler
def pitInit (handler frequency : Uint32) (s : TimerState) : TimerState :=
  let s := s.print "Initializing timer...\n".toList
  let frequency := if frequency < 18#32 then 18#32 else frequency
  let frequency := if frequency > 1000#32 then 1000#32 else frequency
  let s := { s with timer := { s.timer with frequency } }
  let s := { s with timer := { s.timer with ms_per_tick := 1000#32 / frequency } }
  let divisor := pitFrequency / frequency
  let s := outb pitCommand (pitChannel0Select ||| pitMode3 ||| pitBoth) s
  let s := outb pitChannel0 ((divisor &&& 0xFF#32).setWidth 8) s
  let s := ioWait s
  let s := outb pitChannel0 ((divisor >>> 8 &&& 0xFF#32).setWidth 8) s
  let s := registerInterruptHandler irq0 handler s
  let s := s.print "  Frequency: ".toList
  let s := s.print (intText frequency)
  let s := s.print " Hz\n".toList
  let s := s.print "  Time slice: ".toList
  let s := s.print (intText s.timer.ms_per_tick)
  let s := s.print " ms\n".toList
  s.print "Timer initialized.\n".toList

def getUptimeMs (s : TimerState) : Uint64 := s.timer.uptime_ms

def registerTimerCallback (callback : Uint32) (s : TimerState) : TimerState :=
  { s with timer_callback := callback }

end Driver

inductive TimerCall where
  | tick
  | register (callback : Uint32)
deriving DecidableEq

def timerStep (callbacks : Callbacks) (s : TimerState) : TimerCall → TimerState
  | .tick => pitHandler callbacks s
  | .register callback => registerTimerCallback callback s

section Rate

-- the frequency pit_init settles for, the milliseconds of a tick and the divisor it sends
def rateOf (frequency : Uint32) : ℕ := min (max frequency.toNat 18) 1000

def msOf (rate : ℕ) : ℕ := 1000 / rate

def reloadOf (rate : ℕ) : ℕ := 1193180 / rate % 2 ^ 16

variable (handler frequency : Uint32) (s : TimerState)

theorem clamped_toNat : (if (if frequency < 18#32 then 18#32 else frequency) > 1000#32
    then 1000#32 else (if frequency < 18#32 then 18#32 else frequency)).toNat =
      rateOf frequency := by
  simp only [rateOf,gt_iff_lt,BitVec.lt_def,BitVec.toNat_ofNat]
  split_ifs <;> simp at * <;> omega

theorem rate_bounds : 18 ≤ rateOf frequency ∧ rateOf frequency ≤ 1000 := by
  rw [rateOf]
  omega

theorem pitInit_timer : (pitInit handler frequency s).timer.ms_per_tick.toNat =
      msOf (rateOf frequency) ∧
    (pitInit handler frequency s).timer.uptime_ms = s.timer.uptime_ms := by
  refine ⟨?_,rfl⟩
  rw [msOf,← clamped_toNat]
  rfl

theorem bytes_append (w : Uint32) : ((w >>> 8 &&& 0xFF#32).setWidth 8 : Uint8) ++
    ((w &&& 0xFF#32).setWidth 8 : Uint8) = w.setWidth 16 := by
  have hmask : ∀ (i : ℕ) (hi : i < 8), (0xFF#8)[i] = true := by decide
  refine BitVec.eq_of_getLsbD_eq fun i hi => ?_
  rw [BitVec.getLsbD_append]
  by_cases hlow : i < 8
  · simp [hlow,hi,hmask i]
  · have hhigh : i - 8 < 8 := by omega
    have hsum : 8 + (i - 8) = i := by omega
    simp [hlow,hi,hhigh,hmask (i - 8),hsum]

theorem pitInit_bytes : (pitInit handler frequency s).channel0.reload =
    (pitFrequency / (pitInit handler frequency s).timer.frequency).setWidth 16 := by
  rw [← bytes_append]
  rfl

theorem pitInit_reload : (pitInit handler frequency s).channel0.reload.toNat =
    reloadOf (rateOf frequency) := by
  have hrate : (pitInit handler frequency s).timer.frequency.toNat = rateOf frequency :=
    clamped_toNat frequency
  rw [pitInit_bytes,BitVec.toNat_setWidth,BitVec.toNat_udiv,hrate]
  rfl

end Rate

section Accuracy

def ticksIn (cs : List TimerCall) : ℕ := cs.count .tick

-- milliseconds, with one count of the PIT every 1/1193180 s
def Accurate (s : TimerState) (N : ℕ) : Prop :=
  |((getUptimeMs s).toNat : ℚ) - 1000 * N * s.channel0.reload.toNat / 1193180| ≤
    1000 * s.channel0.reload.toNat / 1193180 + 1

variable {s : TimerState}

theorem timerStep_timer (callbacks : Callbacks) (s : TimerState) (c : TimerCall) :
    (timerStep callbacks s c).channel0 = s.channel0 ∧
      (timerStep callbacks s c).timer.ms_per_tick = s.timer.ms_per_tick ∧
      (timerStep callbacks s c).timer.uptime_ms = s.timer.uptime_ms +
        if c = .tick then s.timer.ms_per_tick.setWidth 64 else 0#64 := by
  cases c with
  | tick =>
    simp only [timerStep,pitHandler]
    split <;> exact ⟨rfl,rfl,rfl⟩
  | register callback =>
    refine ⟨rfl,rfl,?_⟩
    rw [if_neg TimerCall.noConfusion,BitVec.add_zero]
    rfl

theorem run_timer (callbacks : Callbacks) (s : TimerState) (cs : List TimerCall) :
    (cs.foldl (timerStep callbacks) s).channel0 = s.channel0 ∧
      (cs.foldl (timerStep callbacks) s).timer.uptime_ms.toNat =
        (s.timer.uptime_ms.toNat + ticksIn cs * s.timer.ms_per_tick.toNat) % 2 ^ 64 := by
  induction cs generalizing s with
  | nil =>
    refine ⟨rfl,?_⟩
    rw [ticksIn,List.count_nil,Nat.zero_mul,Nat.add_zero,Nat.mod_eq_of_lt s.timer.uptime_ms.isLt]
    rfl
  | cons c cs ih =>
    obtain ⟨hchannel,hms,huptime⟩ := timerStep_timer callbacks s c
    obtain ⟨hrest,hsum⟩ := ih (timerStep callbacks s c)
    refine ⟨hrest.trans hchannel,?_⟩
    rw [List.foldl_cons,hsum,huptime,hms,ticksIn,ticksIn,List.count_cons,BitVec.toNat_add]
    by_cases hc : c = .tick
    · have hwide : s.timer.ms_per_tick.toNat % 2 ^ 64 = s.timer.ms_per_tick.toNat :=
        Nat.mod_eq_of_lt (s.timer.ms_per_tick.isLt.trans (by decide))
      rw [if_pos hc,if_pos (beq_iff_eq.mpr hc),Nat.mod_add_mod,BitVec.toNat_setWidth,hwide,
        Nat.add_mul,Nat.one_mul,Nat.add_assoc,Nat.add_comm (s.timer.ms_per_tick.toNat)]
    · rw [if_neg hc,if_neg (fun h => hc (beq_iff_eq.mp h)),Nat.mod_add_mod]
      rfl

theorem accurate_iff {m N : ℕ} (h : (getUptimeMs s).toNat = N * m % 2 ^ 64) : Accurate s N ↔
    |error m (1000 * s.channel0.reload.toNat) 1193180 (2 ^ 64) N| ≤
      (1000 * s.channel0.reload.toNat + 1193180 : ℕ) := by
  have hscale : ((getUptimeMs s).toNat : ℚ) - 1000 * N * s.channel0.reload.toNat / 1193180 =
      error m (1000 * s.channel0.reload.toNat) 1193180 (2 ^ 64) N / 1193180 := by
    rw [error,← h]
    push_cast
    ring
  have hbound : 1000 * (s.channel0.reload.toNat : ℚ) / 1193180 + 1 =
      (1000 * s.channel0.reload.toNat + 1193180 : ℕ) / 1193180 := by
    push_cast
    ring
  rw [Accurate,hscale,hbound,abs_div,abs_of_pos (by norm_num : (0 : ℚ) < 1193180),
    div_le_div_iff_of_pos_right (by norm_num)]
  exact_mod_cast Iff.rfl

def driftOf (rate : ℕ) : ℤ := drift (msOf rate) (1000 * reloadOf rate) 1193180

-- 18 Hz needs a divisor above 65535, which is cut to 751; at 20 Hz both divisions come out even
def KeepsTime (rate N : ℕ) : Prop :=
  if rate = 18 then
    |(N : ℤ) * 64873900 - (N * 55 / 2 ^ 64 : ℕ) * (2 ^ 64 * 1193180)| ≤ 1944180
  else if rate = 20 then N * 50 < 2 ^ 64
  else N ≤ (1000 * reloadOf rate + 1193180) / (driftOf rate).natAbs

theorem driftOf_ne {rate : ℕ} (hlow : 18 ≤ rate) (hhigh : rate ≤ 1000) (h : rate ≠ 20) :
    driftOf rate ≠ 0 := by
  have hall : ∀ r < 1001, 18 ≤ r → r ≠ 20 → driftOf r ≠ 0 := by decide +kernel
  exact hall rate (Nat.lt_succ_of_le hhigh) hlow h

theorem driftOf_le {rate : ℕ} (hlow : 18 < rate) (hhigh : rate ≤ 1000) : driftOf rate ≤ 1000 := by
  have hpos : 0 < rate := by omega
  have hfits : 1193180 / rate < 2 ^ 16 := by
    rw [Nat.div_lt_iff_lt_mul hpos]
    omega
  have hms : msOf rate * rate ≤ 1000 := Nat.div_mul_le_self 1000 rate
  have hdiv : 1193180 ≤ rate * (1193180 / rate + 1) := (Nat.lt_mul_div_succ 1193180 hpos).le
  have hcounts : msOf rate * 1193180 ≤ 1000 * (1193180 / rate + 1) :=
    calc msOf rate * 1193180 ≤ msOf rate * (rate * (1193180 / rate + 1)) :=
          Nat.mul_le_mul_left _ hdiv
      _ = msOf rate * rate * (1193180 / rate + 1) := (Nat.mul_assoc _ _ _).symm
      _ ≤ 1000 * (1193180 / rate + 1) := Nat.mul_le_mul_right _ hms
  rw [driftOf,drift,reloadOf,Nat.mod_eq_of_lt hfits]
  zify at hcounts
  push_cast
  linarith

theorem keepsTime_iff {rate N : ℕ} (hlow : 18 ≤ rate) (hhigh : rate ≤ 1000) :
    |error (msOf rate) (1000 * reloadOf rate) 1193180 (2 ^ 64) N| ≤
      (1000 * reloadOf rate + 1193180 : ℕ) ↔ KeepsTime rate N := by
  have hreload : reloadOf rate < 2 ^ 16 := Nat.mod_lt _ (by decide)
  have hms : 0 < msOf rate := Nat.div_pos hhigh (by omega)
  rw [KeepsTime]
  split
  · next h18 =>
    subst h18
    rw [error_eq]
    rfl
  · next h18 =>
    have hwrapped : 2 ^ 64 ≤ N * msOf rate → ((1000 * reloadOf rate + 1193180 : ℕ) : ℤ) <
        |error (msOf rate) (1000 * reloadOf rate) 1193180 (2 ^ 64) N| := fun hwrap =>
      wrapped_error hms hwrap (by decide) (driftOf_le (by omega) hhigh) (by decide) (by decide)
        (by push_cast; omega)
    split
    · next h20 =>
      subst h20
      have hzero : drift (msOf 20) (1000 * reloadOf 20) 1193180 = 0 := by decide
      refine ⟨fun h => ?_,fun h => ?_⟩
      · by_contra hwrap
        exact absurd h (not_le.mpr (hwrapped (not_lt.mp hwrap)))
      · have hlt : N * msOf 20 < 2 ^ 64 := h
        rw [error_of_lt hlt,hzero,mul_zero,abs_zero]
        exact Int.natCast_nonneg _
    · next h20 =>
      have hne : drift (msOf rate) (1000 * reloadOf rate) 1193180 ≠ 0 :=
        driftOf_ne hlow hhigh h20
      refine ⟨fun h => ?_,fun h => ?_⟩
      · have hlt : N * msOf rate < 2 ^ 64 := by
          by_contra hwrap
          exact absurd h (not_le.mpr (hwrapped (not_lt.mp hwrap)))
        rw [error_of_lt hlt] at h
        exact (drift_le_iff hne).mp h
      · have hN : N ≤ 1000 * reloadOf rate + 1193180 := h.trans (Nat.div_le_self _ _)
        have hmost : msOf rate ≤ 1000 := Nat.div_le_self 1000 rate
        have hlt : N * msOf rate < 2 ^ 64 :=
          calc N * msOf rate ≤ (1000 * reloadOf rate + 1193180) * 1000 := Nat.mul_le_mul hN hmost
            _ < 2 ^ 64 := by omega
        rw [error_of_lt hlt]
        exact (drift_le_iff hne).mpr h

end Accuracy

-- from the static timer of the boot, callbacks registered before or between the ticks
def afterTicks (callbacks : Callbacks) (handler frequency : Uint32) (s : TimerState)
    (cs : List TimerCall) : TimerState :=
  cs.foldl (timerStep callbacks) (pitInit handler frequency s)

theorem afterTicks_timer (callbacks : Callbacks) (handler frequency : Uint32)
    (kernel : KernelState) (interrupt_handlers : HandlerTable) (channel0 : Channel)
    (cs : List TimerCall) {s : TimerState}
    (hs : s = afterTicks callbacks handler frequency (boot kernel interrupt_handlers channel0) cs) :
    (getUptimeMs s).toNat = ticksIn cs * msOf (rateOf frequency) % 2 ^ 64 ∧
      s.channel0.reload.toNat = reloadOf (rateOf frequency) := by
  obtain ⟨hchannel,huptime⟩ := run_timer callbacks
    (pitInit handler frequency (boot kernel interrupt_handlers channel0)) cs
  obtain ⟨hms,hzero⟩ := pitInit_timer handler frequency (boot kernel interrupt_handlers channel0)
  rw [hms,hzero] at huptime
  subst hs
  refine ⟨huptime.trans (congrArg (· % 2 ^ 64) (Nat.zero_add _)),?_⟩
  rw [afterTicks,hchannel,pitInit_reload]

theorem uptime_accurate (callbacks : Callbacks) (handler frequency : Uint32)
    (kernel : KernelState) (interrupt_handlers : HandlerTable) (channel0 : Channel)
    (cs : List TimerCall) :
    Accurate (afterTicks callbacks handler frequency (boot kernel interrupt_handlers channel0) cs)
      (ticksIn cs) ↔ KeepsTime (rateOf frequency) (ticksIn cs) := by
  obtain ⟨huptime,hreload⟩ :=
    afterTicks_timer callbacks handler frequency kernel interrupt_handlers channel0 cs rfl
  obtain ⟨hlow,hhigh⟩ := rate_bounds frequency
  rw [accurate_iff huptime,hreload]
  exact keepsTime_iff hlow hhigh

-- under three minutes at the 100 Hz of kernel_main, and one tick at the lowest frequency
theorem uptime_drifts :
    ¬ Accurate (afterTicks (fun _ _ kernel => kernel) 0x100000#32 100#32
        (boot .boot (Vector.replicate 256 0#32) ⟨none,0#16⟩) (List.replicate 16406 .tick)) 16406 ∧
      ¬ Accurate (afterTicks (fun _ _ kernel => kernel) 0x100000#32 18#32
        (boot .boot (Vector.replicate 256 0#32) ⟨none,0#16⟩) [.tick]) 1 := by
  have hfast : ¬ KeepsTime 100 16406 := by
    rw [KeepsTime,if_neg (by decide),if_neg (by decide)]
    decide
  have hslow : ¬ KeepsTime 18 1 := by
    rw [KeepsTime,if_pos rfl]
    decide
  refine ⟨fun h => ?_,fun h => ?_⟩
  · have hticks : ticksIn (List.replicate 16406 .tick) = 16406 := List.count_replicate_self
    obtain ⟨huptime,hreload⟩ := afterTicks_timer (fun _ _ kernel => kernel) 0x100000#32 100#32
      .boot (Vector.replicate 256 0#32) ⟨none,0#16⟩ (List.replicate 16406 .tick) rfl
    rw [hticks] at huptime
    rw [accurate_iff huptime,hreload,keepsTime_iff (by decide) (by decide)] at h
    exact hfast h
  · obtain ⟨huptime,hreload⟩ := afterTicks_timer (fun _ _ kernel => kernel) 0x100000#32 18#32
      .boot (Vector.replicate 256 0#32) ⟨none,0#16⟩ [.tick] rfl
    have hticks : ticksIn [.tick] = 1 := rfl
    rw [hticks] at huptime
    rw [accurate_iff huptime,hreload,keepsTime_iff (by decide) (by decide)] at h
    exact hslow h

end KluxOS.Timer
