import Mathlib.Data.List.Perm.Basic
import KluxOS.Lib.CArray

namespace SwapRemove

open CArray
open scoped List

variable {α : Type} {n c i : ℕ} {x : α}

-- the entries in use are the first c of the table
def used (a : Vector α n) (c : ℕ) : List α := a.toList.take c

theorem used_succ (a : Vector α n) (hc : c < n) : used a (c + 1) = used a c ++ [a[c]] := by
  rw [used,List.take_add_one,List.getElem?_eq_getElem (by simpa using hc),Vector.getElem_toList]
  rfl

theorem used_set (a : Vector α n) (v : α) (hc : c < n) : used (a.set c v hc) c = used a c := by
  rw [used,Vector.toList_set,List.take_set_of_le (Nat.le_refl c)]
  rfl

theorem used_getElem? (a : Vector α n) (hi : i < c) (hn : i < n) : (used a c)[i]? = some a[i] := by
  rw [used,List.getElem?_take,if_pos hi,List.getElem?_eq_getElem (by simpa using hn),
    Vector.getElem_toList]

theorem used_length (a : Vector α n) (hc : c ≤ n) : (used a c).length = c := by
  rw [used,List.length_take,Vector.length_toList,Nat.min_eq_left hc]

theorem set_last_perm {init : List α} (hx : init[i]? = some x) (z : α) :
    x :: init.set i z ~ init ++ [z] := by
  obtain ⟨hi,rfl⟩ := List.getElem?_eq_some_iff.mp hx
  have hsplit : init.take i ++ init[i] :: init.drop (i + 1) = init := by
    rw [← List.drop_eq_getElem_cons hi,List.take_append_drop]
  calc init[i] :: init.set i z
      = init[i] :: (init.take i ++ z :: init.drop (i + 1)) := by
        rw [List.set_eq_take_append_cons_drop,if_pos hi]
    _ ~ init[i] :: z :: (init.take i ++ init.drop (i + 1)) := List.perm_middle.cons _
    _ ~ z :: init[i] :: (init.take i ++ init.drop (i + 1)) := List.Perm.swap _ _ _
    _ ~ z :: (init.take i ++ init[i] :: init.drop (i + 1)) := List.perm_middle.symm.cons _
    _ = z :: init := by rw [hsplit]
    _ ~ init ++ [z] := (List.perm_append_singleton z init).symm

-- entry i gives its place to the last one, and the last place is cleared
def removed (a : Vector α n) (v : α) (hc : c < n) (hi : i < c + 1) : Vector α n :=
  (a.set i a[c] (by omega)).set c v hc

theorem removed_perm (a : Vector α n) (v : α) (hc : c < n) (hi : i < c + 1) :
    a[i] :: used (removed a v hc hi) c ~ used a (c + 1) := by
  rw [removed,used_set,used_succ a hc]
  rcases Nat.lt_succ_iff_lt_or_eq.mp hi with hi | rfl
  · have hset : used (a.set i a[c] (by omega)) c = (used a c).set i a[c] := by
      rw [used,Vector.toList_set,List.take_set]
      rfl
    rw [hset]
    exact set_last_perm (used_getElem? a hi (by omega)) a[c]
  · rw [used_set]
    exact (List.perm_append_singleton _ _).symm

theorem remove_bind {β : Type} (a : Vector α n) (v : α) (hc : c < n) (hi : i < c + 1)
    (k : Vector α n → Option β) : ((get? a c).bind fun last => (set? a i last).bind fun b =>
      (set? b c v).bind k) = k (removed a v hc hi) := by
  have hread : get? a c = some a[c] := get?_eq a hc rfl
  have hmove : set? a i a[c] = some (a.set i a[c] (by omega)) := set?_eq a a[c] (by omega) rfl
  rw [hread,Option.bind_some,hmove,Option.bind_some,set?_eq _ v hc rfl]
  rfl

theorem get?_removed (a : Vector α n) (v : α) (hc : c < n) (hi : i < c + 1) {m : ℕ} (hm : c ≤ m) :
    get? (removed a v hc hi) m = if m = c then some v else get? a m := by
  rw [removed,get?_set]
  by_cases hmc : m = c
  · rw [if_pos hmc,if_pos hmc]
  · rw [if_neg hmc,if_neg hmc,get?_set,if_neg (by omega)]

section Find
variable [DecidableEq α]

-- a search through the entries in use; an entry outside the table gives none
def findUsed (a : Vector α n) (c : ℕ) (x : α) : Option (Option ℕ) :=
  (List.range c).findM? fun i => (get? a i).map fun y => decide (y = x)

theorem findM?_some {ι : Type} {p : ι → Option Bool} {q : ι → Bool} {l : List ι}
    (h : ∀ i ∈ l, p i = some (q i)) : l.findM? p = some (l.find? q) := by
  induction l with
  | nil => rfl
  | cons i l ih =>
    rw [List.findM?,h i List.mem_cons_self,List.find?_cons,
      ih fun j hj => h j (List.mem_cons_of_mem i hj)]
    cases q i <;> rfl

theorem findUsed_cases (a : Vector α n) (hc : c ≤ n) (x : α) :
    (findUsed a c x = some none ∧ x ∉ used a c) ∨
      ∃ i, ∃ hi : i < c, findUsed a c x = some (some i) ∧ a[i] = x := by
  have hread : ∀ i ∈ List.range c, ((get? a i).map fun y => decide (y = x)) =
      some (decide ((used a c)[i]? = some x)) := by
    intro i hi
    have hlt := List.mem_range.mp hi
    rw [get?_eq a (Nat.lt_of_lt_of_le hlt hc) rfl,
      used_getElem? a hlt (Nat.lt_of_lt_of_le hlt hc)]
    simp only [Option.map_some,Option.some.injEq]
    rfl
  rw [findUsed,findM?_some hread]
  cases hfind : (List.range c).find? (fun i => decide ((used a c)[i]? = some x)) with
  | none =>
    refine .inl ⟨rfl,fun hmem => ?_⟩
    obtain ⟨i,hx⟩ := List.mem_iff_getElem?.mp hmem
    have hi := (List.getElem?_eq_some_iff.mp hx).1
    rw [used_length a hc] at hi
    exact List.find?_eq_none.mp hfind i (List.mem_range.mpr hi) (decide_eq_true hx)
  | some i =>
    have hi := List.mem_range.mp (List.mem_of_find?_eq_some hfind)
    refine .inr ⟨i,hi,rfl,?_⟩
    have hfound := List.find?_some hfind
    have hx := of_decide_eq_true hfound
    rw [used_getElem? a hi (Nat.lt_of_lt_of_le hi hc)] at hx
    exact Option.some.inj hx

end Find

end SwapRemove
