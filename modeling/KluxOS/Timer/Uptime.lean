import KluxOS.Drivers.PrintNumbers
import KluxOS.Timer.Pit

namespace KluxOS.Timer

open Interrupt TickCounter

-- the statics of main.c and of its timer_callback beside the state of pit.c
structure UptimeState where
  pit : TimerState
  init_complete : Bool
  seconds : Uint32
  last_tick : Uint32

def UptimeState.print (s : UptimeState) (text : CString) : UptimeState :=
  { s with pit := s.pit.print text }

def uptimeText (seconds : Uint32) : CString :=
  "Uptime: ".toList ++ intText seconds ++ "s ".toList

def timerCallback (s : UptimeState) : UptimeState :=
  let current_tick := s.pit.timer.ticks
  if current_tick - s.last_tick ≥ s.pit.timer.frequency then
    let s := { s with seconds := s.seconds + 1#32, last_tick := current_tick }
    if s.init_complete then s.print (uptimeText s.seconds) else s
  else s

inductive UptimeCall where
  | tick
  | complete
  | print (text : CString)
deriving DecidableEq

-- on a tick pit_handler counts, then it calls timer_callback, which kernel_main has registered
def uptimeStep (s : UptimeState) : UptimeCall → UptimeState
  | .tick => timerCallback { s with pit := pitHandler (fun _ _ kernel => kernel) s.pit }
  | .complete => { s with init_complete := true }
  | .print text => s.print text

def uptimeBoot (handler callback frequency : Uint32) (s : TimerState) : UptimeState :=
  ⟨registerTimerCallback callback (pitInit handler frequency s),false,0#32,0#32⟩

section Clock

-- ticks as many as came, and all the text since the boot
structure Clock where
  ticks : ℕ
  complete : Bool
  text : CString

variable (rate : ℕ)

def shownAt (c : Clock) : CString :=
  if rate ∣ c.ticks ∧ c.complete then uptimeText (BitVec.ofNat 32 (c.ticks / rate)) else []

def clockStep (c : Clock) : UptimeCall → Clock
  | .tick =>
    let c := { c with ticks := c.ticks + 1 }
    { c with text := c.text ++ shownAt rate c }
  | .complete => { c with complete := true }
  | .print text => { c with text := c.text ++ text }

structure Keeps (s : UptimeState) (c : Clock) : Prop where
  frequency : s.pit.timer.frequency.toNat = rate
  ticks : s.pit.timer.ticks = BitVec.ofNat 32 c.ticks
  seconds : s.seconds = BitVec.ofNat 32 (c.ticks / rate)
  last_tick : s.last_tick = BitVec.ofNat 32 (c.ticks / rate * rate)
  complete : s.init_complete = c.complete
  text : s.pit.kernel.terminal = c.text

variable {rate} {s : UptimeState} {c : Clock}

-- 32-bit ticks wrap, and the difference of two of them does not
theorem ticks_since {n : ℕ} (hpos : 0 < rate) (hrate : rate < 2 ^ 32) :
    (BitVec.ofNat 32 (n + 1) - BitVec.ofNat 32 (n / rate * rate)).toNat = n % rate + 1 := by
  have hsplit : n + 1 = n / rate * rate + (n % rate + 1) := by
    rw [← Nat.add_assoc,Nat.mul_comm,Nat.div_add_mod]
  have hlt := Nat.mod_lt n hpos
  have hsum : BitVec.ofNat 32 (n + 1) =
      BitVec.ofNat 32 (n / rate * rate) + BitVec.ofNat 32 (n % rate + 1) := by
    rw [← BitVec.ofNat_add,← hsplit]
  rw [hsum,BitVec.add_comm,BitVec.add_sub_cancel,BitVec.toNat_ofNat,Nat.mod_eq_of_lt (by omega)]

theorem pitHandler_idle (s : TimerState) : pitHandler (fun _ _ kernel => kernel) s =
    { s with timer := { s.timer with
        ticks := s.timer.ticks + 1#32
        uptime_ms := s.timer.uptime_ms + s.timer.ms_per_tick.setWidth 64 } } := by
  rw [pitHandler]
  split <;> rfl

theorem Keeps.tick (h : Keeps rate s c) (hpos : 0 < rate) (hrate : rate < 2 ^ 32) :
    Keeps rate (uptimeStep s .tick) (clockStep rate c .tick) := by
  have hticks : s.pit.timer.ticks + 1#32 = BitVec.ofNat 32 (c.ticks + 1) := by
    rw [h.ticks,← BitVec.ofNat_add]
  have hdue : s.pit.timer.ticks + 1#32 - s.last_tick ≥ s.pit.timer.frequency ↔
      rate ∣ c.ticks + 1 := by
    rw [ge_iff_le,BitVec.le_def,hticks,h.last_tick,h.frequency,ticks_since hpos hrate,
      period_due hpos]
  rw [uptimeStep,timerCallback,pitHandler_idle]
  dsimp only
  by_cases hround : rate ∣ c.ticks + 1
  · have hnext : s.seconds + 1#32 = BitVec.ofNat 32 ((c.ticks + 1) / rate) := by
      rw [h.seconds,← BitVec.ofNat_add,Nat.succ_div,if_pos hround]
    have hlast : s.pit.timer.ticks + 1#32 = BitVec.ofNat 32 ((c.ticks + 1) / rate * rate) := by
      rw [Nat.div_mul_cancel hround,hticks]
    rw [if_pos (hdue.mpr hround)]
    cases hcomplete : s.init_complete with
    | true =>
      have hshown : shownAt rate { c with ticks := c.ticks + 1 } = uptimeText (s.seconds + 1#32) := by
        rw [shownAt,if_pos ⟨hround,h.complete ▸ hcomplete⟩,hnext]
      refine ⟨h.frequency,hticks,hnext,hlast,hcomplete.symm.trans h.complete,?_⟩
      rw [clockStep,hshown,← h.text]
      rfl
    | false =>
      have hhidden : shownAt rate { c with ticks := c.ticks + 1 } = [] :=
        if_neg fun hshown => Bool.false_ne_true (hcomplete.symm.trans (h.complete.trans hshown.2))
      refine ⟨h.frequency,hticks,hnext,hlast,hcomplete.symm.trans h.complete,?_⟩
      rw [clockStep,hhidden,List.append_nil]
      exact h.text
  · have hsame : (c.ticks + 1) / rate = c.ticks / rate := by rw [Nat.succ_div,if_neg hround,Nat.add_zero]
    have hhidden : shownAt rate { c with ticks := c.ticks + 1 } = [] :=
      if_neg fun hshown => hround hshown.1
    rw [if_neg (mt hdue.mp hround)]
    refine ⟨h.frequency,hticks,?_,?_,h.complete,?_⟩
    · rw [clockStep,hsame,h.seconds]
    · rw [clockStep,hsame,h.last_tick]
    · rw [clockStep,hhidden,List.append_nil]
      exact h.text

theorem Keeps.step (h : Keeps rate s c) (hpos : 0 < rate) (hrate : rate < 2 ^ 32)
    (call : UptimeCall) : Keeps rate (uptimeStep s call) (clockStep rate c call) := by
  cases call with
  | tick => exact h.tick hpos hrate
  | complete => exact ⟨h.frequency,h.ticks,h.seconds,h.last_tick,rfl,h.text⟩
  | print text =>
    refine ⟨h.frequency,h.ticks,h.seconds,h.last_tick,h.complete,?_⟩
    exact congrArg (fun start => start ++ text) h.text

theorem Keeps.run (h : Keeps rate s c) (hpos : 0 < rate) (hrate : rate < 2 ^ 32)
    (calls : List UptimeCall) :
    Keeps rate (calls.foldl uptimeStep s) (calls.foldl (clockStep rate) c) := by
  induction calls generalizing s c with
  | nil => exact h
  | cons call calls ih => exact ih (h.step hpos hrate call)

end Clock

def uptimeRun (start : UptimeState) (calls : List UptimeCall) : UptimeState :=
  calls.foldl uptimeStep start

def clockRun (rate : ℕ) (text : CString) (calls : List UptimeCall) : Clock :=
  calls.foldl (clockStep rate) ⟨0,false,text⟩

theorem clockRun_ticks (rate : ℕ) (text : CString) (calls : List UptimeCall) :
    (clockRun rate text calls).ticks = calls.count .tick := by
  induction calls using List.reverseRecOn with
  | nil => rfl
  | append_singleton calls call ih =>
    rw [clockRun] at *
    rw [List.foldl_append,List.foldl_cons,List.foldl_nil,List.count_append,← ih]
    cases call <;> rfl

def ShowsSeconds (rate : ℕ) (start : UptimeState) (calls : List UptimeCall) : Prop :=
  (uptimeRun start calls).pit.kernel.terminal =
      (clockRun rate start.pit.kernel.terminal calls).text ∧
    (uptimeRun start calls).seconds.toNat = calls.count .tick / rate % 2 ^ 32

theorem uptimeBoot_keeps (handler callback frequency : Uint32) (kernel : KernelState)
    (interrupt_handlers : HandlerTable) (channel0 : Channel) {start : UptimeState}
    (h : start = uptimeBoot handler callback frequency (boot kernel interrupt_handlers channel0)) :
    Keeps (rateOf frequency) start ⟨0,false,start.pit.kernel.terminal⟩ := by
  subst h
  refine ⟨clamped_toNat frequency,rfl,?_,?_,rfl,rfl⟩
  · rw [Nat.zero_div]
    rfl
  · rw [Nat.zero_div,Nat.zero_mul]
    rfl

theorem uptime_shown_each_second (handler callback frequency : Uint32) (kernel : KernelState)
    (interrupt_handlers : HandlerTable) (channel0 : Channel) (calls : List UptimeCall) :
    ShowsSeconds (rateOf frequency)
      (uptimeBoot handler callback frequency (boot kernel interrupt_handlers channel0)) calls := by
  obtain ⟨hlow,hhigh⟩ := rate_bounds frequency
  have hstart := uptimeBoot_keeps handler callback frequency kernel interrupt_handlers channel0 rfl
  have hend := hstart.run (by omega) (by omega) calls
  refine ⟨hend.text,?_⟩
  rw [← clockRun_ticks (rateOf frequency) _ calls]
  exact (congrArg BitVec.toNat hend.seconds).trans (BitVec.toNat_ofNat _ _)

end KluxOS.Timer
