import Mathlib.Algebra.Group.Nat.Defs
import Mathlib.Logic.Function.Basic
import KluxOS.Lib.CArray

namespace ByteMemory

variable {α : Type} {n : ℕ}

abbrev Memory (α : Type) := ℕ → α

def Inside (base len x : ℕ) : Prop := base ≤ x ∧ x < base + len

def Apart (a m b n : ℕ) : Prop := a + m ≤ b ∨ b + n ≤ a

instance (base len x : ℕ) : Decidable (Inside base len x) :=
  inferInstanceAs (Decidable (_ ∧ _))

instance (a m b n : ℕ) : Decidable (Apart a m b n) :=
  inferInstanceAs (Decidable (_ ∨ _))

theorem inside_add {base len i : ℕ} (h : i < len) : Inside base len (base + i) :=
  ⟨Nat.le_add_right base i,Nat.add_lt_add_left h base⟩

-- a part of a block, at an offset into it
theorem Inside.part {base len i k x : ℕ} (h : Inside (base + i) k x) (hi : i + k ≤ len) :
    Inside base len x := by
  unfold Inside at *
  omega

theorem Apart.not_inside {a m b n x : ℕ} (h : Apart a m b n) (hx : Inside a m x) :
    ¬ Inside b n x := by
  unfold Apart Inside at *
  omega

theorem Apart.symm {a m b n : ℕ} (h : Apart a m b n) : Apart b n a m := Or.symm h

def storeLoop (src : Memory α → ℕ → α) (base len : ℕ) (m : Memory α) : Memory α :=
  (List.range len).foldl (fun m i => Function.update m (base + i) (src m i)) m

theorem storeLoop_outside (src : Memory α → ℕ → α) {base len x : ℕ} (m : Memory α)
    (h : ¬ Inside base len x) : storeLoop src base len m x = m x := by
  induction len with
  | zero => rfl
  | succ len ih =>
    have ih := ih (by unfold Inside at *; omega)
    rw [storeLoop] at ih ⊢
    rw [List.range_succ,List.foldl_append,List.foldl_cons,List.foldl_nil,
      Function.update_of_ne (by unfold Inside at h; omega)]
    exact ih

-- src may read the memory under way: its first k values must not depend on the cells the loop writes
theorem storeLoop_inside (src : Memory α → ℕ → α) (val : ℕ → α) {base len k x : ℕ} (m : Memory α)
    (hk : k ≤ len) (hsrc : ∀ m' : Memory α, (∀ x, ¬ Inside base len x → m' x = m x) → ∀ i < k,
      src m' i = val i) (h : Inside base k x) : storeLoop src base len m x = val (x - base) := by
  have hprefix : ∀ n ≤ len, ∀ i < n, i < k → storeLoop src base n m (base + i) = val i := by
    intro n
    induction n with
    | zero => exact fun _ i hi => absurd hi (Nat.not_lt_zero i)
    | succ n ih =>
      intro hn i hi hik
      have ih := ih (by omega) i
      have hkeep : ∀ x, ¬ Inside base len x → storeLoop src base n m x = m x := fun x hx =>
        storeLoop_outside src m (by unfold Inside at *; omega)
      rw [storeLoop] at ih hkeep ⊢
      rw [List.range_succ,List.foldl_append,List.foldl_cons,List.foldl_nil,Function.update_apply]
      by_cases hlast : i = n
      · subst hlast
        rw [if_pos rfl]
        exact hsrc _ hkeep i hik
      · rw [if_neg (by omega)]
        exact ih (by omega) hik
  obtain ⟨i,rfl⟩ := Nat.exists_eq_add_of_le h.1
  rw [Nat.add_sub_cancel_left]
  exact hprefix len le_rfl i (by have := h.2; omega) (by have := h.2; omega)

theorem storeLoop_apply (src : Memory α → ℕ → α) (val : ℕ → α) (base len : ℕ) (m : Memory α)
    (hsrc : ∀ m' : Memory α, (∀ x, ¬ Inside base len x → m' x = m x) → ∀ i < len,
      src m' i = val i) (x : ℕ) :
    storeLoop src base len m x = if Inside base len x then val (x - base) else m x := by
  split
  · next h => exact storeLoop_inside src val m le_rfl hsrc h
  · next h => exact storeLoop_outside src m h

def loadBytes (memory : Memory α) (src n : ℕ) : List α :=
  (List.range n).map fun i => memory (src + i)

section Addresses

variable {w : ℕ} {base offset : BitVec w} {len : ℕ}

-- len cells at an offset into a block: the sum only wraps when there are none
theorem toNat_add_block (h : base.toNat + offset.toNat + len ≤ 2 ^ w) (hlen : len ≠ 0) :
    (base + offset).toNat = base.toNat + offset.toNat :=
  BitVec.toNat_add_of_lt (by omega)

theorem storeLoop_add (h : base.toNat + offset.toNat + len ≤ 2 ^ w) (src : Memory α → ℕ → α)
    (m : Memory α) : storeLoop src (base + offset).toNat len m =
      storeLoop src (base.toNat + offset.toNat) len m := by
  by_cases hlen : len = 0
  · subst hlen
    rfl
  · rw [toNat_add_block h hlen]

theorem loadBytes_add (h : base.toNat + offset.toNat + len ≤ 2 ^ w) (m : Memory α) :
    loadBytes m (base + offset).toNat len = loadBytes m (base.toNat + offset.toNat) len := by
  by_cases hlen : len = 0
  · subst hlen
    rfl
  · rw [toNat_add_block h hlen]

end Addresses

def load (m : Memory α) (base : ℕ) : Vector α n := Vector.ofFn fun i => m (base + i)

def store (m : Memory α) (base : ℕ) (v : Vector α n) : Memory α :=
  fun x => if h : Inside base n x then v.get ⟨x - base,by unfold Inside at h; omega⟩ else m x

@[simp] theorem load_get (m : Memory α) (base : ℕ) (i : Fin n) :
    (load m base : Vector α n).get i = m (base + i) := CArray.get_ofFn _ i

theorem load_congr {m m' : Memory α} {base : ℕ} (h : ∀ x, Inside base n x → m x = m' x) :
    (load m base : Vector α n) = load m' base := by
  apply CArray.ext_get
  intro i
  rw [load_get,load_get]
  exact h _ ⟨by omega,by omega⟩

theorem load_store_same (m : Memory α) (base : ℕ) (v : Vector α n) :
    load (store m base v) base = v := by
  apply CArray.ext_get
  intro i
  rw [load_get,store,dif_pos ⟨by omega,by omega⟩]
  congr 1
  exact Fin.ext (by simp)

theorem store_outside (m : Memory α) {base x : ℕ} (v : Vector α n) (h : ¬ Inside base n x) :
    store m base v x = m x := dif_neg h

theorem load_store_apart (m : Memory α) {a b k : ℕ} (v : Vector α n) (h : Apart a k b n) :
    (load (store m b v) a : Vector α k) = load m a :=
  load_congr fun _ hx => store_outside m v (h.not_inside hx)

theorem store_load (m m' : Memory α) {base : ℕ} (v : Vector α n) (hv : load m' base = v)
    (h : ∀ x, ¬ Inside base n x → m' x = m x) : m' = store m base v := by
  funext x
  by_cases hx : Inside base n x
  · have hget := congrArg (fun w : Vector α n => w.get ⟨x - base,by unfold Inside at hx; omega⟩) hv
    rw [store,dif_pos hx,← hget,load_get]
    congr 1
    unfold Inside at hx
    simp only
    omega
  · rw [h x hx,store_outside m v hx]

end ByteMemory
