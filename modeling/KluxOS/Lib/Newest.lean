import Mathlib.Data.List.Basic

namespace Newest

variable {α : Type} {n : ℕ}

def newest (n : ℕ) (l : List α) : List α := l.drop (l.length - n)

theorem newest_length (l : List α) : (newest n l).length = min l.length n := by
  rw [newest,List.length_drop]
  omega

theorem newest_short {l : List α} (h : l.length ≤ n) : newest n l = l := by
  rw [newest,Nat.sub_eq_zero_of_le h,List.drop_zero]

theorem newest_concat (l : List α) (a : α) : newest (n + 1) (l ++ [a]) =
    (if (newest (n + 1) l).length < n + 1 then newest (n + 1) l else (newest (n + 1) l).tail) ++
      [a] := by
  rw [newest_length]
  by_cases h : l.length < n + 1
  · rw [if_pos (by omega),newest_short (Nat.le_of_lt h),newest_short]
    rw [List.length_append,List.length_singleton]
    exact h
  · have hdrop : (l ++ [a]).length - (n + 1) = l.length - (n + 1) + 1 := by
      rw [List.length_append,List.length_singleton]
      omega
    rw [if_neg (by omega),newest,hdrop,List.drop_append_of_le_length (by omega),newest,
      List.tail_drop]

theorem newest_succ_concat (l : List α) (a : α) : newest (n + 1) (l ++ [a]) = newest n l ++ [a] := by
  have hdrop : (l ++ [a]).length - (n + 1) = l.length - n := by
    rw [List.length_append,List.length_singleton]
    omega
  rw [newest,hdrop,List.drop_append_of_le_length (by omega),newest]

theorem newest_tail {l : List α} (h : n < l.length) : newest n l = (newest (n + 1) l).tail := by
  rw [newest,newest,List.tail_drop,show l.length - n = l.length - (n + 1) + 1 by omega]

theorem mem_newest {l : List α} {a : α} :
    a ∈ newest n l ↔ ∃ i, l.length ≤ i + n ∧ l[i]? = some a := by
  rw [newest,List.mem_iff_getElem?]
  constructor
  · rintro ⟨i,hi⟩
    rw [List.getElem?_drop] at hi
    exact ⟨l.length - n + i,by omega,hi⟩
  · rintro ⟨i,hle,hi⟩
    refine ⟨i - (l.length - n),?_⟩
    rw [List.getElem?_drop,Nat.add_sub_cancel' (by omega),hi]

end Newest
