import KluxOS.Lib.CArray

namespace ShiftUp

open CArray

variable {α : Type} {n : ℕ} (fill : α)

-- every cell takes what stood d cells further, and fill where there was none
def shiftUp (d : ℕ) (v : Vector α n) : Vector α n :=
  Vector.ofFn fun i => (v[i.val + d]?).getD fill

theorem shiftUp_getElem (d : ℕ) (v : Vector α n) {i : ℕ} (hi : i < n) :
    (shiftUp fill d v)[i] = (v[i + d]?).getD fill :=
  Vector.getElem_ofFn hi

theorem shiftUp_getElem? (d : ℕ) (v : Vector α n) (i : ℕ) :
    ((shiftUp fill d v)[i]?).getD fill = (v[i + d]?).getD fill := by
  by_cases hi : i < n
  · rw [Vector.getElem?_eq_getElem hi,shiftUp_getElem fill d v hi,Option.getD_some]
  · rw [Vector.getElem?_eq_none (by omega),Vector.getElem?_eq_none (by omega)]

theorem shiftUp_add (d e : ℕ) (v : Vector α n) :
    shiftUp fill e (shiftUp fill d v) = shiftUp fill (d + e) v := by
  refine Vector.ext fun i hi => ?_
  rw [shiftUp_getElem fill e _ hi,shiftUp_getElem fill (d + e) v hi,shiftUp_getElem?,
    Nat.add_assoc,Nat.add_comm e d]

theorem shiftUp_all {d : ℕ} (h : n ≤ d) (v : Vector α n) :
    shiftUp fill d v = Vector.replicate n fill := by
  refine Vector.ext fun i hi => ?_
  rw [shiftUp_getElem fill d v hi,Vector.getElem?_eq_none (by omega),Vector.getElem_replicate]
  rfl

theorem shiftUp_replicate (d : ℕ) :
    shiftUp fill d (Vector.replicate n fill) = Vector.replicate n fill := by
  refine Vector.ext fun i hi => ?_
  rw [shiftUp_getElem fill d _ hi,Vector.getElem_replicate]
  by_cases h : i + d < n
  · rw [Vector.getElem?_eq_getElem h,Vector.getElem_replicate,Option.getD_some]
  · rw [Vector.getElem?_eq_none (by omega),Option.getD_none]

theorem shiftUp_mul {d : ℕ} {v : Vector α n} (h : shiftUp fill d v = v) (k : ℕ) :
    shiftUp fill ((k + 1) * d) v = v := by
  induction k with
  | zero => rw [Nat.zero_add,Nat.one_mul,h]
  | succ k ih => rw [Nat.succ_mul,← shiftUp_add,ih,h]

-- only what is all fill already is left as it was
theorem shiftUp_eq_self {d : ℕ} (hd : 0 < d) (v : Vector α n) :
    shiftUp fill d v = v ↔ v = Vector.replicate n fill := by
  constructor
  · intro h
    rw [← shiftUp_mul fill h n]
    exact shiftUp_all fill (Nat.le_trans (Nat.le_succ n) (Nat.le_mul_of_pos_right _ hd)) v
  · rintro rfl
    exact shiftUp_replicate fill d

theorem get?_shiftUp (d : ℕ) (v : Vector α n) {m : ℕ} (hm : m < n) :
    get? (shiftUp fill d v) m = if m + d < n then get? v (m + d : ℕ) else some fill := by
  rw [get?_eq _ hm rfl,get_eq_getElem,shiftUp_getElem fill d v hm]
  split_ifs with h
  · rw [get?_eq _ h rfl,get_eq_getElem,Vector.getElem?_eq_getElem h,Option.getD_some]
  · rw [Vector.getElem?_eq_none (Nat.not_lt.mp h),Option.getD_none]

end ShiftUp
