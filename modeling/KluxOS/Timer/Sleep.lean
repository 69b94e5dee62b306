import Mathlib.Algebra.Order.Floor.Div
import KluxOS.Timer.Pit

namespace KluxOS.Timer

open TickCounter

def getTicks (s : TimerState) : Uint32 := s.timer.ticks

section Sleep

variable (callbacks : Callbacks)

-- waits holds what happens before each check of the condition; the ticks among it are counted
def sleepLoop (end_ : Uint32) : List (List TimerCall) → TimerState → Option (ℕ × TimerState)
  | [],_ => none
  | cs :: waits,s =>
    let t := cs.foldl (timerStep callbacks) s
    if getTicks t < end_ then (sleepLoop end_ waits t).map fun r => (ticksIn cs + r.1,r.2)
    else some (ticksIn cs,t)

-- none also stands for the division error before pit_init
def sleepMs (ms : Uint32) (waits : List (List TimerCall)) (s : TimerState) :
    Option (ℕ × TimerState) :=
  let start := getTicks s
  if s.timer.ms_per_tick = 0#32 then none
  else
    let ticks_to_wait := (ms + s.timer.ms_per_tick - 1#32) / s.timer.ms_per_tick
    let end_ := start + ticks_to_wait
    sleepLoop callbacks end_ waits s

end Sleep

section Loop

variable {callbacks : Callbacks} {end_ : Uint32} {start wait e d : ℕ} {s t : TimerState}
  {waits : List (List TimerCall)}

theorem timerStep_ticks (callbacks : Callbacks) (s : TimerState) (c : TimerCall) :
    (timerStep callbacks s c).timer.ticks =
      s.timer.ticks + if c = .tick then 1#32 else 0#32 := by
  cases c with
  | tick =>
    simp only [timerStep,pitHandler]
    split <;> rfl
  | register callback =>
    rw [if_neg TimerCall.noConfusion,BitVec.add_zero]
    rfl

theorem run_ticks (callbacks : Callbacks) (s : TimerState) (cs : List TimerCall) :
    (getTicks (cs.foldl (timerStep callbacks) s)).toNat =
      ((getTicks s).toNat + ticksIn cs) % 2 ^ 32 := by
  induction cs generalizing s with
  | nil => exact (Nat.mod_eq_of_lt (getTicks s).isLt).symm
  | cons c cs ih =>
    rw [List.foldl_cons,ih,getTicks,timerStep_ticks,BitVec.toNat_add,Nat.mod_add_mod,ticksIn,
      ticksIn,List.count_cons,Nat.add_assoc,Nat.add_comm (List.count _ cs)]
    by_cases hc : c = .tick
    · rw [if_pos hc,if_pos (beq_iff_eq.mpr hc)]
      rfl
    · rw [if_neg hc,if_neg fun h => hc (beq_iff_eq.mp h)]
      rfl

theorem ticks_after (callbacks : Callbacks) (hs : (getTicks s).toNat = (start + e) % 2 ^ 32)
    (cs : List TimerCall) :
    (getTicks (cs.foldl (timerStep callbacks) s)).toNat = (start + (e + ticksIn cs)) % 2 ^ 32 := by
  rw [run_ticks,hs,Nat.mod_add_mod,Nat.add_assoc]

variable (hsum : start + wait < 2 ^ 32) (hend : end_.toNat = start + wait)

include hsum hend

theorem sleepLoop_least (hs : (getTicks s).toNat = (start + e) % 2 ^ 32)
    (h : sleepLoop callbacks end_ waits s = some (d,t)) : wait ≤ e + d := by
  induction waits generalizing s e d with
  | nil => cases h
  | cons cs waits ih =>
    have hafter := ticks_after callbacks hs cs
    rw [sleepLoop] at h
    split at h
    · obtain ⟨⟨d,u⟩,hrest,heq⟩ := Option.map_eq_some_iff.mp h
      cases heq
      have hmore := ih hafter hrest
      omega
    · next hstop =>
      cases h
      by_contra hearly
      refine hstop ?_
      rw [BitVec.lt_def,hafter,hend]
      exact before_deadline hsum (by omega)

-- with every count checked the loop cannot step over the deadline
theorem sleepLoop_exact (hs : (getTicks s).toNat = (start + e) % 2 ^ 32) (he : e < wait)
    (hone : ∀ cs ∈ waits, ticksIn cs ≤ 1) (htotal : wait ≤ e + ticksIn waits.flatten) :
    ∃ t, sleepLoop callbacks end_ waits s = some (wait - e,t) := by
  induction waits generalizing s e with
  | nil => exact absurd htotal (Nat.not_le.mpr he)
  | cons cs waits ih =>
    obtain ⟨hcs,hone⟩ := List.forall_mem_cons.mp hone
    have hafter := ticks_after callbacks hs cs
    rw [List.flatten_cons,ticksIn,List.count_append] at htotal
    rw [sleepLoop]
    rcases Nat.lt_or_ge (e + ticksIn cs) wait with hearly | hdue
    · have hwaits : getTicks (cs.foldl (timerStep callbacks) s) < end_ := by
        rw [BitVec.lt_def,hafter,hend]
        exact before_deadline hsum hearly
      obtain ⟨t,ht⟩ := ih hafter hearly hone (by rw [ticksIn,ticksIn]; omega)
      refine ⟨t,?_⟩
      rw [if_pos hwaits,ht]
      exact congrArg some (Prod.ext (by simp only; omega) rfl)
    · have hreached : e + ticksIn cs = wait := by omega
      have hstops : ¬ getTicks (cs.foldl (timerStep callbacks) s) < end_ := by
        rw [BitVec.lt_def,hafter,hend,hreached,at_deadline hsum]
        exact Nat.lt_irrefl _
      refine ⟨cs.foldl (timerStep callbacks) s,?_⟩
      rw [if_neg hstops]
      exact congrArg some (Prod.ext (by simp only; omega) rfl)

end Loop

section Duration

-- ceil(ms / ms_per_tick)
def ticksFor (s : TimerState) (ms : Uint32) : ℕ := ms.toNat ⌈/⌉ s.timer.ms_per_tick.toNat

-- the counter is checked before the first tick and again after each one
def ChecksEveryTick (waits : List (List TimerCall)) : Prop :=
  ∃ first rest, waits = first :: rest ∧ ticksIn first = 0 ∧ ∀ cs ∈ rest, ticksIn cs ≤ 1

structure SleepsEnough (callbacks : Callbacks) (s : TimerState) (ms : Uint32) : Prop where
  least : ∀ waits elapsed t, sleepMs callbacks ms waits s = some (elapsed,t) →
    ticksFor s ms ≤ elapsed
  exact_ : ∀ waits, ChecksEveryTick waits → ticksFor s ms ≤ ticksIn waits.flatten →
    ∃ t, sleepMs callbacks ms waits s = some (ticksFor s ms,t)

variable {callbacks : Callbacks} {s : TimerState} {ms : Uint32}

def deadline (s : TimerState) (ms : Uint32) : Uint32 :=
  getTicks s + (ms + s.timer.ms_per_tick - 1#32) / s.timer.ms_per_tick

theorem sleepMs_eq (hms : s.timer.ms_per_tick ≠ 0#32) (waits : List (List TimerCall)) :
    sleepMs callbacks ms waits s = sleepLoop callbacks (deadline s ms) waits s := if_neg hms

theorem ticksFor_le (hms : 0 < s.timer.ms_per_tick.toNat) : ticksFor s ms ≤ ms.toNat :=
  (ceilDiv_le_iff_le_mul hms).mpr (Nat.le_mul_of_pos_left _ hms)

theorem deadline_toNat (hms : 0 < s.timer.ms_per_tick.toNat)
    (hfits : ms.toNat + s.timer.ms_per_tick.toNat - 1 < 2 ^ 32) :
    (deadline s ms).toNat = ((getTicks s).toNat + ticksFor s ms) % 2 ^ 32 := by
  have hround : (ms + s.timer.ms_per_tick - 1#32).toNat =
      ms.toNat + s.timer.ms_per_tick.toNat - 1 := by
    rw [BitVec.toNat_sub,BitVec.toNat_add,BitVec.toNat_ofNat]
    omega
  rw [deadline,BitVec.toNat_add,BitVec.toNat_udiv,hround]
  rfl

-- the rounding sum has wrapped and is below one tick
theorem deadline_wrapped (hms : 0 < s.timer.ms_per_tick.toNat)
    (hwraps : ¬ ms.toNat + s.timer.ms_per_tick.toNat - 1 < 2 ^ 32) :
    deadline s ms = getTicks s := by
  have hround : (ms + s.timer.ms_per_tick - 1#32).toNat =
      ms.toNat + s.timer.ms_per_tick.toNat - 1 - 2 ^ 32 := by
    rw [BitVec.toNat_sub,BitVec.toNat_add,BitVec.toNat_ofNat]
    omega
  have hzero : (ms + s.timer.ms_per_tick - 1#32) / s.timer.ms_per_tick = 0#32 := by
    refine BitVec.eq_of_toNat_eq ?_
    rw [BitVec.toNat_udiv,hround,Nat.div_eq_of_lt (by omega)]
    rfl
  rw [deadline,hzero,BitVec.add_zero]

theorem not_before_deadline (hms : 0 < s.timer.ms_per_tick.toNat)
    (h : ¬ (ms.toNat + s.timer.ms_per_tick.toNat - 1 < 2 ^ 32 ∧
      (getTicks s).toNat + ticksFor s ms < 2 ^ 32)) : ¬ getTicks s < deadline s ms := by
  by_cases hfits : ms.toNat + s.timer.ms_per_tick.toNat - 1 < 2 ^ 32
  · rw [BitVec.lt_def,deadline_toNat hms hfits]
    have hwait := (ticksFor_le hms).trans_lt ms.isLt
    have hwrap : 2 ^ 32 ≤ (getTicks s).toNat + ticksFor s ms :=
      Nat.not_lt.mp fun hsum => h ⟨hfits,hsum⟩
    exact Nat.not_lt.mpr (wrapped_deadline (getTicks s).isLt hwait hwrap).le
  · rw [deadline_wrapped hms hfits,BitVec.lt_def]
    exact Nat.lt_irrefl _

theorem ticksFor_pos (hms : 0 < s.timer.ms_per_tick.toNat)
    (h : ¬ (ms.toNat + s.timer.ms_per_tick.toNat - 1 < 2 ^ 32 ∧
      (getTicks s).toNat + ticksFor s ms < 2 ^ 32)) : 0 < ticksFor s ms := by
  refine Nat.pos_of_ne_zero fun hzero => h ?_
  have hnone : ms.toNat = 0 := by
    have hle := (ceilDiv_le_iff_le_mul hms).mp hzero.le
    omega
  rw [hzero,hnone]
  exact ⟨by omega,(getTicks s).isLt⟩

section Fits

variable (hms : 0 < s.timer.ms_per_tick.toNat)
  (hfits : ms.toNat + s.timer.ms_per_tick.toNat - 1 < 2 ^ 32)
  (hsum : (getTicks s).toNat + ticksFor s ms < 2 ^ 32)

include hms hfits hsum

theorem deadline_fits : (deadline s ms).toNat = (getTicks s).toNat + ticksFor s ms :=
  (deadline_toNat hms hfits).trans (at_deadline hsum)

theorem sleepLoop_due {first : List TimerCall} (rest : List (List TimerCall))
    (hfirst : ticksIn first = 0) (hzero : ticksFor s ms = 0) :
    ∃ t, sleepLoop callbacks (deadline s ms) (first :: rest) s = some (ticksFor s ms,t) := by
  have hstops : ¬ getTicks (first.foldl (timerStep callbacks) s) < deadline s ms := by
    rw [BitVec.lt_def,run_ticks,deadline_fits hms hfits hsum,hfirst,hzero,Nat.add_zero,
      Nat.mod_eq_of_lt (getTicks s).isLt]
    exact Nat.lt_irrefl _
  refine ⟨first.foldl (timerStep callbacks) s,?_⟩
  rw [sleepLoop,if_neg hstops,hfirst,hzero]

theorem sleepLoop_enough : (∀ waits elapsed t, sleepLoop callbacks (deadline s ms) waits s =
      some (elapsed,t) → ticksFor s ms ≤ elapsed) ∧
    ∀ waits, ChecksEveryTick waits → ticksFor s ms ≤ ticksIn waits.flatten →
      ∃ t, sleepLoop callbacks (deadline s ms) waits s = some (ticksFor s ms,t) := by
  have hend := deadline_fits hms hfits hsum
  have hs : (getTicks s).toNat = ((getTicks s).toNat + 0) % 2 ^ 32 :=
    (Nat.mod_eq_of_lt (getTicks s).isLt).symm
  constructor
  · intro waits elapsed t hreturns
    have hleast := sleepLoop_least hsum hend hs hreturns
    rwa [Nat.zero_add] at hleast
  · rintro waits ⟨first,rest,rfl,hfirst,hone⟩ htotal
    rcases Nat.eq_zero_or_pos (ticksFor s ms) with hzero | hpos
    · exact sleepLoop_due hms hfits hsum rest hfirst hzero
    · have hall : ∀ cs ∈ first :: rest, ticksIn cs ≤ 1 :=
        List.forall_mem_cons.mpr ⟨by omega,hone⟩
      exact sleepLoop_exact hsum hend hs hpos hall (by omega)

end Fits

theorem sleep_ms_long_enough (callbacks : Callbacks) (s : TimerState) (ms : Uint32)
    (hms : 1 ≤ s.timer.ms_per_tick.toNat) : SleepsEnough callbacks s ms ↔
      ms.toNat + s.timer.ms_per_tick.toNat - 1 < 2 ^ 32 ∧
        (getTicks s).toNat + ticksFor s ms < 2 ^ 32 := by
  have hne : s.timer.ms_per_tick ≠ 0#32 := fun hzero => by
    rw [hzero] at hms
    exact absurd hms (by decide)
  constructor
  · intro henough
    by_contra h
    have hreturns : sleepMs callbacks ms [[]] s = some (0,s) := by
      rw [sleepMs_eq hne]
      exact if_neg (not_before_deadline hms h)
    exact absurd (henough.least _ _ _ hreturns) (Nat.not_le.mpr (ticksFor_pos hms h))
  · rintro ⟨hfits,hsum⟩
    obtain ⟨hleast,hexact⟩ := sleepLoop_enough hms hfits hsum
    constructor
    · intro waits elapsed t hreturns
      rw [sleepMs_eq hne] at hreturns
      exact hleast waits elapsed t hreturns
    · intro waits hchecks htotal
      rw [sleepMs_eq hne]
      exact hexact waits hchecks htotal

def bootedTimer (ticks : Uint32) : TimerState :=
  { boot .boot (Vector.replicate 256 0#32) ⟨none,0#16⟩ with
    timer := { ticks := ticks, frequency := 100#32, ms_per_tick := 10#32 } }

theorem sleep_ms_long_enough_boot :
    SleepsEnough (fun _ _ kernel => kernel) (bootedTimer 0#32) 25#32 :=
  (sleep_ms_long_enough (fun _ _ kernel => kernel) (bootedTimer 0#32) 25#32 (by decide)).mpr
    (by decide)

-- one tick before the counter wraps, a sleep of two ticks ends at once
theorem sleep_across_wrap :
    sleepMs (fun _ _ kernel => kernel) 20#32 [[]] (bootedTimer 0xFFFFFFFF#32) =
      some (0,bootedTimer 0xFFFFFFFF#32) ∧
    ¬ SleepsEnough (fun _ _ kernel => kernel) (bootedTimer 0xFFFFFFFF#32) 20#32 := by
  have hreturns : sleepMs (fun _ _ kernel => kernel) 20#32 [[]] (bootedTimer 0xFFFFFFFF#32) =
      some (0,bootedTimer 0xFFFFFFFF#32) := rfl
  exact ⟨hreturns,fun h => absurd (h.least _ _ _ hreturns) (by decide)⟩

end Duration

end KluxOS.Timer
