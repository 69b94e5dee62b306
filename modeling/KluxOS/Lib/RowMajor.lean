import KluxOS.Lib.CArray

namespace RowMajor

open CArray

variable {α : Type} {n : ℕ}

theorem storeLoop_append (src : Vector α n → ℕ → Option α) (base k m : ℕ) (a : Vector α n) :
    storeLoop src base (k + m) a =
      (storeLoop src base k a).bind (storeLoop (fun a x => src a (k + x)) (base + k : ℕ) m) := by
  rw [storeLoop,List.range_add,List.foldlM_append]
  refine Option.bind_congr fun b _ => ?_
  rw [List.foldlM_map,storeLoop]
  push_cast
  simp only [Int.add_assoc]

theorem storeLoop_rows (src : Vector α n → ℕ → Option α) (w base k : ℕ) (a : Vector α n) :
    (List.range k).foldlM (fun a y => storeLoop (fun a x => src a (y * w + x))
      (base + y * w : ℕ) w a) a = storeLoop src base (k * w) a := by
  induction k with
  | zero => simp [storeLoop]
  | succ k ih =>
    rw [List.range_succ,List.foldlM_append,ih,Nat.succ_mul,storeLoop_append]
    refine Option.bind_congr fun b _ => ?_
    rw [List.foldlM_cons]
    exact bind_pure _

theorem storeLoop_rows_from (src : Vector α n → ℕ → Option α) (w first last : ℕ)
    (a : Vector α n) :
    (List.range' first (last - first)).foldlM (fun a y => storeLoop
      (fun a x => src a ((y - first) * w + x)) (y * w : ℕ) w a) a =
    storeLoop src (first * w : ℕ) ((last - first) * w) a := by
  rw [List.range'_eq_map_range,List.foldlM_map,← storeLoop_rows]
  simp only [Nat.add_sub_cancel_left,Nat.add_mul]

theorem cell_unique {w y x y' x' : ℕ} (hx : x < w) (hx' : x' < w)
    (h : y * w + x = y' * w + x') : y = y' ∧ x = x' := by
  have hw : 0 < w := by omega
  have hy := congrArg (· / w) h
  have hr := congrArg (· % w) h
  simp only [Nat.mul_comm _ w,Nat.mul_add_div hw,Nat.mul_add_mod,Nat.div_eq_of_lt hx,
    Nat.div_eq_of_lt hx',Nat.mod_eq_of_lt hx,Nat.mod_eq_of_lt hx'] at hy hr
  exact ⟨by simpa using hy,hr⟩

theorem cell_lt {w h y x : ℕ} (hy : y < h) (hx : x < w) : y * w + x < h * w :=
  calc y * w + x < y * w + w := by omega
    _ = (y + 1) * w := (Nat.succ_mul y w).symm
    _ ≤ h * w := Nat.mul_le_mul_right w hy

end RowMajor
