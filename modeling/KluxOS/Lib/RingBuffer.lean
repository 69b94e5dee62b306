import KluxOS.Lib.CArray

namespace RingBuffer

open CArray

variable {α : Type} {n : ℕ}

def contents (buffer : Vector α n) (start count : ℕ) : List α :=
  (List.range count).filterMap fun i => get? buffer ((start + i) % n : ℕ)

theorem contents_succ (buffer : Vector α n) (start count : ℕ) :
    contents buffer start (count + 1) = contents buffer start count ++
      (get? buffer ((start + count) % n : ℕ)).toList := by
  rw [contents,List.range_succ,List.filterMap_append,contents]
  refine congrArg _ ?_
  rw [List.filterMap_cons]
  cases get? buffer ((start + count) % n : ℕ) with
  | none => rfl
  | some c => rfl

theorem contents_congr {a b : Vector α n} {start count : ℕ}
    (h : ∀ i < count, get? a ((start + i) % n : ℕ) = get? b ((start + i) % n : ℕ)) :
    contents a start count = contents b start count :=
  List.filterMap_congr fun i hi => h i (List.mem_range.mp hi)

theorem slot_ne {start count i : ℕ} (hi : i < count) (hc : count < n) :
    (start + i) % n ≠ (start + count) % n := by
  intro heq
  have hmod : (start + count - (start + i)) % n = 0 := Nat.sub_mod_eq_zero_of_mod_eq heq.symm
  rw [Nat.add_sub_add_left,Nat.mod_eq_of_lt (by omega)] at hmod
  omega

theorem contents_push (buffer : Vector α n) {start count : ℕ} (hc : count < n) (c : α) :
    contents (buffer.set ((start + count) % n) c (Nat.mod_lt _ (by omega))) start (count + 1) =
      contents buffer start count ++ [c] := by
  rw [contents_succ,get?_set,if_pos rfl]
  refine congrArg (· ++ [c]) (contents_congr fun i hi => ?_)
  rw [get?_set,if_neg (slot_ne hi hc)]

theorem contents_pop (buffer : Vector α n) (hn : 0 < n) (start count : ℕ) :
    contents buffer start (count + 1) = buffer.get ⟨start % n,Nat.mod_lt _ hn⟩ ::
      contents buffer ((start + 1) % n) count := by
  rw [contents,List.range_succ_eq_map,List.filterMap_cons,Nat.add_zero,
    get?_eq buffer (Nat.mod_lt start hn) rfl,List.filterMap_map]
  refine congrArg _ (List.filterMap_congr fun i _ => ?_)
  rw [Function.comp_apply,Nat.mod_add_mod,Nat.succ_eq_one_add,Nat.add_assoc]

theorem contents_length (buffer : Vector α n) (hn : 0 < n) (start count : ℕ) :
    (contents buffer start count).length = count := by
  induction count with
  | zero => rfl
  | succ count ih =>
    rw [contents_succ,get?_eq buffer (Nat.mod_lt _ hn) rfl,List.length_append,ih]
    rfl

end RingBuffer
