import Mathlib.Algebra.Group.Nat.Defs
import Mathlib.Logic.Function.Basic
import Mathlib.Data.Nat.Notation

namespace StackWords

variable {w stride : ℕ} {α : Type}

-- the words xs of a stack that grows down lie at sp, sp + stride and so on
def Holds (stride : ℕ) (m : BitVec w → α) (sp : BitVec w) (xs : List α) : Prop :=
  ∀ i x, xs[i]? = some x → m (sp + BitVec.ofNat w (stride * i)) = x

variable {m m' : BitVec w → α} {sp : BitVec w} {x : α} {xs ys : List α}

theorem Holds.top (h : Holds stride m sp (x :: xs)) : m sp = x := by
  have hx := h 0 x rfl
  rwa [Nat.mul_zero,BitVec.add_zero] at hx

variable (xs) in
theorem Holds.drop (h : Holds stride m sp (xs ++ ys)) :
    Holds stride m (sp + BitVec.ofNat w (stride * xs.length)) ys := by
  intro i y hy
  have hlast := h (xs.length + i) y (by
    rw [List.getElem?_append_right (Nat.le_add_right _ _),Nat.add_sub_cancel_left]
    exact hy)
  rw [Nat.mul_add,BitVec.ofNat_add,← BitVec.add_assoc] at hlast
  exact hlast

theorem Holds.pop (h : Holds stride m sp (x :: xs)) :
    Holds stride m (sp + BitVec.ofNat w stride) xs := by
  have hrest := Holds.drop [x] h
  rwa [List.length_singleton,Nat.mul_one] at hrest

theorem Holds.left (h : Holds stride m sp (xs ++ ys)) : Holds stride m sp xs := fun i x hx =>
  h i x ((List.getElem?_append_left (List.getElem?_eq_some_iff.mp hx).1).trans hx)

theorem length_records {β : Type} {f : β → List α} {k : ℕ} (hlen : ∀ b, (f b).length = k)
    (records : List β) : (records.flatMap f).length = k * records.length := by
  rw [List.length_flatMap,List.map_congr_left fun b _ => hlen b,List.map_const',
    List.sum_replicate_nat,Nat.mul_comm]

-- records of k words each, one behind the other
theorem Holds.record {β : Type} {f : β → List α} {k i : ℕ} {records : List β} {b : β}
    (h : Holds stride m sp (records.flatMap f)) (hlen : ∀ b, (f b).length = k)
    (hb : records[i]? = some b) : Holds stride m (sp + BitVec.ofNat w (stride * (k * i))) (f b) := by
  obtain ⟨hi,rfl⟩ := List.getElem?_eq_some_iff.mp hb
  have hsplit : records = records.take i ++ records[i] :: records.drop (i + 1) := by
    rw [← List.drop_eq_getElem_cons hi,List.take_append_drop]
  rw [hsplit,List.flatMap_append,List.flatMap_cons] at h
  have hrest := h.drop
  rw [length_records hlen,List.length_take_of_le (Nat.le_of_lt hi)] at hrest
  exact hrest.left

theorem Holds.cons (hx : m sp = x) (h : Holds stride m (sp + BitVec.ofNat w stride) xs) :
    Holds stride m sp (x :: xs) := by
  intro i y hy
  cases i with
  | zero =>
    cases hy
    rwa [Nat.mul_zero,BitVec.add_zero]
  | succ i =>
    have hword := h i y hy
    rwa [BitVec.add_assoc,← BitVec.ofNat_add,Nat.add_comm,← Nat.mul_succ] at hword

theorem Holds.congr (h : Holds stride m sp xs) (hsame : ∀ i < xs.length,
    m' (sp + BitVec.ofNat w (stride * i)) = m (sp + BitVec.ofNat w (stride * i))) :
    Holds stride m' sp xs := by
  intro i x hx
  rw [hsame i (List.getElem?_eq_some_iff.mp hx).1]
  exact h i x hx

theorem word_ne_below {i n : ℕ} (hstride : 0 < stride) (hi : i < n) (hroom : stride * n < 2 ^ w)
    (sp : BitVec w) : sp + BitVec.ofNat w (stride * i) ≠ sp - BitVec.ofNat w stride := by
  intro heq
  have hself : sp + BitVec.ofNat w (stride * (i + 1)) = sp := by
    rw [Nat.mul_succ,BitVec.ofNat_add,← BitVec.add_assoc,heq,BitVec.sub_add_cancel]
  have hzero := congrArg BitVec.toNat (BitVec.add_right_eq_self.mp hself)
  have hle : stride * (i + 1) ≤ stride * n := Nat.mul_le_mul_left _ hi
  have hpos : 0 < stride * (i + 1) := Nat.mul_pos hstride (Nat.succ_pos i)
  rw [BitVec.toNat_ofNat,Nat.mod_eq_of_lt (Nat.lt_of_le_of_lt hle hroom)] at hzero
  exact absurd hzero (Nat.ne_of_gt hpos)

-- a push does not reach the words above it while they fill less than the address space
theorem Holds.push (h : Holds stride m sp xs) (hstride : 0 < stride)
    (hroom : stride * xs.length < 2 ^ w) (x : α) :
    Holds stride (Function.update m (sp - BitVec.ofNat w stride) x) (sp - BitVec.ofNat w stride)
      (x :: xs) := by
  refine Holds.cons (Function.update_self _ _ _) ?_
  rw [BitVec.sub_add_cancel]
  refine h.congr fun i hi => ?_
  exact Function.update_of_ne (word_ne_below hstride hi hroom sp) _ _

theorem holds_self (stride : ℕ) (m : BitVec w → α) (sp : BitVec w) (n : ℕ) : Holds stride m sp
    ((List.range n).map fun i => m (sp + BitVec.ofNat w (stride * i))) := by
  intro i x hx
  rw [List.getElem?_map,Option.map_eq_some_iff] at hx
  obtain ⟨j,hj,rfl⟩ := hx
  obtain ⟨hlt,rfl⟩ := List.getElem?_eq_some_iff.mp hj
  rw [List.getElem_range]

theorem holds_placed (d : α) (hlen : xs.length ≤ 2 ^ w) :
    Holds 1 (fun a => xs[(a - sp).toNat]?.getD d) sp xs := by
  intro i x hx
  have hi := (List.getElem?_eq_some_iff.mp hx).1
  have hback : (sp + BitVec.ofNat w (1 * i) - sp).toNat = i := by
    rw [BitVec.add_comm,BitVec.add_sub_cancel,Nat.one_mul,BitVec.toNat_ofNat,
      Nat.mod_eq_of_lt (Nat.lt_of_lt_of_le hi hlen)]
  dsimp only
  rw [hback,hx,Option.getD_some]

end StackWords
