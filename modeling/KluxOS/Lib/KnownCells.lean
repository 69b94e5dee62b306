import KluxOS.Lib.ByteMemory

namespace KnownCells

open ByteMemory

variable {α : Type}

-- what is known of the cells of a block: none where nothing has been stored yet
def Agrees (m : Memory α) (base : ℕ) (cells : List (Option α)) : Prop :=
  ∀ i v, cells[i]? = some (some v) → m (base + i) = v

def unknown (n : ℕ) : List (Option α) := List.replicate n none

-- n cells that begin with the first k of the given ones
def copied (k n : ℕ) (cells : List (Option α)) : List (Option α) :=
  (cells.take k ++ unknown n).take n

section Agrees

variable {m m' : Memory α} {base : ℕ} {cells : List (Option α)}

theorem unknown_length (n : ℕ) : (unknown n : List (Option α)).length = n := List.length_replicate

theorem copied_length (k n : ℕ) (cells : List (Option α)) : (copied k n cells).length = n := by
  rw [copied,List.length_take,List.length_append,unknown_length]
  omega

theorem agrees_unknown (m : Memory α) (base n : ℕ) : Agrees m base (unknown n) := by
  intro i v h
  rw [unknown,List.getElem?_replicate] at h
  split at h <;> cases h

theorem Agrees.frame (h : Agrees m base cells)
    (hkeep : ∀ x, Inside base cells.length x → m' x = m x) : Agrees m' base cells := by
  intro i v hi
  have hlt := (List.getElem?_eq_some_iff.mp hi).1
  rw [hkeep (base + i) ⟨Nat.le_add_right base i,Nat.add_lt_add_left hlt base⟩]
  exact h i v hi

theorem Agrees.store (h : Agrees m base cells) (j : ℕ) (v : α) :
    Agrees (Function.update m (base + j) v) base (cells.set j (some v)) := by
  intro i w hi
  rw [List.getElem?_set] at hi
  split at hi
  · next hij =>
    subst hij
    split at hi
    · cases hi
      exact Function.update_self ..
    · cases hi
  · next hij =>
    rw [Function.update_of_ne (by omega)]
    exact h i w hi

-- a forward copy to a block elsewhere, of cells that need not all belong to the old block
theorem Agrees.copy (h : Agrees m base cells) {dest k n : ℕ} (hk : k ≤ n)
    (hapart : Apart base cells.length dest n) :
    Agrees (storeLoop (fun memory i => memory (base + i)) dest k m) dest (copied k n cells) := by
  intro i v hi
  rw [copied,List.getElem?_take] at hi
  split at hi
  · rw [List.getElem?_append] at hi
    split at hi
    · next hlt =>
      rw [List.length_take] at hlt
      have hcell : cells[i]? = some (some v) := by
        rw [List.getElem?_take,if_pos (by omega)] at hi
        exact hi
      rw [storeLoop_inside (k := min k cells.length) _ (fun j => m (base + j)) m (Nat.min_le_left ..)]
      · rw [Nat.add_sub_cancel_left]
        exact h i v hcell
      · intro m' hkeep j hj
        refine hkeep (base + j) ?_
        unfold Apart at hapart
        unfold Inside
        omega
      · unfold Inside
        omega
    · rw [unknown,List.getElem?_replicate] at hi
      split at hi <;> cases hi
  · cases hi

theorem agrees_copied_nil (m : Memory α) (base k n : ℕ) : Agrees m base (copied k n []) := by
  intro i v hi
  rw [copied,List.take_nil,List.nil_append,unknown,List.take_replicate,List.getElem?_replicate] at hi
  split at hi <;> cases hi

end Agrees

end KnownCells
