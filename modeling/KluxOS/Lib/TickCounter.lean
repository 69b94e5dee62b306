import Mathlib.Algebra.Order.Ring.Abs
import Mathlib.Algebra.Order.Ring.Int
import Mathlib.Data.Nat.Notation
import Mathlib.Tactic.Linarith
import Mathlib.Tactic.Ring

namespace TickCounter

-- each tick adds m to a counter that wraps at width; one count stands for unit, one tick takes d
variable (m d unit width N : ℕ)

def drift : ℤ := m * unit - d

def error : ℤ := (N * m % width : ℕ) * unit - N * d

variable {m d unit width N}

theorem error_eq : error m d unit width N =
    N * drift m d unit - (N * m / width : ℕ) * (width * unit) := by
  have hmod : ((N * m % width : ℕ) : ℤ) = N * m - width * (N * m / width : ℕ) := by
    have hdiv := Nat.div_add_mod (N * m) width
    zify at hdiv ⊢
    linarith
  rw [error,drift,hmod]
  ring

theorem error_of_lt (h : N * m < width) : error m d unit width N = N * drift m d unit := by
  rw [error_eq,Nat.div_eq_of_lt h,Nat.cast_zero,zero_mul,sub_zero]

-- once the counter has wrapped, a small drift does not make up for it
theorem wrapped_error {c B : ℤ} (hm : 0 < m) (hwrap : width ≤ N * m) (hwidth : 0 < width)
    (hdrift : drift m d unit ≤ c) (hc : 0 ≤ c) (hunit : 2 * c ≤ unit)
    (hB : B < (unit - 2 * c) * width) : B < |error m d unit width N| := by
  set k := N * m / width with hk
  have hpos : 1 ≤ k := (Nat.one_le_div_iff hwidth).mpr hwrap
  have hlt : N < (k + 1) * width := by
    have htop : N * m < (k + 1) * width := by
      rw [hk,mul_comm (N * m / width + 1)]
      exact Nat.lt_mul_div_succ (N * m) hwidth
    exact (Nat.le_mul_of_pos_right N hm).trans_lt htop
  have hN : (N : ℤ) ≤ 2 * k * width := by
    have htwice : (k + 1) * width ≤ 2 * k * width := Nat.mul_le_mul_right width (by omega)
    exact_mod_cast hlt.le.trans htwice
  have hsmall : (N : ℤ) * drift m d unit ≤ 2 * k * width * c :=
    calc (N : ℤ) * drift m d unit ≤ N * c := mul_le_mul_of_nonneg_left hdrift (Nat.cast_nonneg N)
      _ ≤ 2 * k * width * c := mul_le_mul_of_nonneg_right hN hc
  have hone : (unit - 2 * c) * width ≤ k * ((unit - 2 * c) * width) := by
    refine le_mul_of_one_le_left (mul_nonneg (by linarith) (Nat.cast_nonneg width)) ?_
    exact_mod_cast hpos
  have hneg : error m d unit width N ≤ -(k * ((unit - 2 * c) * width)) := by
    rw [error_eq,← hk]
    linarith
  exact (hB.trans_le (hone.trans (le_neg_of_le_neg hneg))).trans_le (neg_le_abs _)

theorem drift_le_iff {B : ℕ} (hd : drift m d unit ≠ 0) :
    |(N : ℤ) * drift m d unit| ≤ B ↔ N ≤ B / (drift m d unit).natAbs := by
  rw [Nat.le_div_iff_mul_le (Int.natAbs_pos.mpr hd),abs_mul,Nat.abs_cast,Int.abs_eq_natAbs]
  exact_mod_cast Iff.rfl

section Deadline

variable {start wait e : ℕ}

-- a deadline that the counter reaches without a wrap is passed at the wanted tick and not before
theorem before_deadline (h : start + wait < width) (he : e < wait) :
    (start + e) % width < start + wait := by
  rw [Nat.mod_eq_of_lt (by omega)]
  omega

theorem at_deadline (h : start + wait < width) : (start + wait) % width = start + wait :=
  Nat.mod_eq_of_lt h

theorem wrapped_deadline (hstart : start < width) (hwait : wait < width)
    (h : width ≤ start + wait) : (start + wait) % width < start := by
  rw [Nat.mod_eq_sub_mod h,Nat.mod_eq_of_lt (by omega)]
  omega

end Deadline

section Period

variable {period n : ℕ}

-- with period ticks to a round, tick n + 1 ends a round
theorem period_due (h : 0 < period) : period ≤ n % period + 1 ↔ period ∣ n + 1 := by
  obtain ⟨k,rfl⟩ : ∃ k, period = k + 1 := ⟨period - 1,by omega⟩
  have hlt := Nat.mod_lt n h
  rw [Nat.dvd_iff_mod_eq_zero,Nat.succ_mod_succ_eq_zero_iff]
  omega

end Period

end TickCounter
