import Mathlib.Data.List.Basic
import Mathlib.Logic.Function.Basic

namespace Priority

variable {α : Type} {order : List α} {p q : α → Bool} {n : ℕ}

theorem find?_congr (h : ∀ a ∈ order, p a = q a) : order.find? p = order.find? q := by
  rw [← List.head?_filter,← List.head?_filter,List.filter_congr h]

variable [DecidableEq α]

-- n services, each of the first member of order that still asks for one
def drained (order : List α) : ℕ → (α → Bool) → List α
  | 0,_ => []
  | n + 1,p =>
    match order.find? p with
    | none => []
    | some a => a :: drained order n (Function.update p a false)

theorem filter_update (hnodup : order.Nodup) {a : α} (h : order.find? p = some a) :
    order.filter p = a :: order.filter (Function.update p a false) := by
  induction order with
  | nil => cases h
  | cons b order ih =>
    obtain ⟨hb,hnodup⟩ := List.nodup_cons.mp hnodup
    cases hpb : p b with
    | true =>
      rw [List.find?_cons_of_pos hpb] at h
      obtain rfl := Option.some.inj h
      have hrest : ∀ c ∈ order, p c = Function.update p b false c := fun c hc =>
        (Function.update_of_ne (ne_of_mem_of_not_mem hc hb) false p).symm
      rw [List.filter_cons_of_pos hpb,List.filter_cons_of_neg (by simp),List.filter_congr hrest]
    | false =>
      rw [List.find?_cons_of_neg (by simp [hpb])] at h
      have hne : b ≠ a := fun heq => hb (heq ▸ List.mem_of_find?_eq_some h)
      rw [List.filter_cons_of_neg (by simp [hpb]),ih hnodup h,
        List.filter_cons_of_neg (by rw [Function.update_of_ne hne]; simp [hpb])]

theorem drained_eq (hnodup : order.Nodup) (n : ℕ) (p : α → Bool) :
    drained order n p = (order.filter p).take n := by
  induction n generalizing p with
  | zero => rfl
  | succ n ih =>
    rw [drained]
    cases hfind : order.find? p with
    | none =>
      rw [List.filter_eq_nil_iff.mpr (List.find?_eq_none.mp hfind),List.take_nil]
    | some a =>
      dsimp only
      rw [filter_update hnodup hfind,List.take_succ_cons,ih]

end Priority
