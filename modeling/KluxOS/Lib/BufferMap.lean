import KluxOS.Lib.ByteMemory

namespace BufferMap

open ByteMemory

variable {α : Type}

-- byte i of the input goes through f to byte i of the output, from the first byte on; f may read
-- the memory as the loop has left it so far
def mapLoop (f : Memory α → ℕ → α → Option α) (input output n : ℕ) (m : Memory α) :
    Option (Memory α) :=
  (List.range n).foldlM (fun m i => do
    let b ← f m i (m (input + i))
    return Function.update m (output + i) b) m

def mapped (g : ℕ → α → α) (input output n : ℕ) (m : Memory α) : Memory α :=
  fun x => if Inside output n x then g (x - output) (m (input + (x - output))) else m x

def ApartOrSame (a b n : ℕ) : Prop := Apart a n b n ∨ a = b

variable {f : Memory α → ℕ → α → Option α} {g h : ℕ → α → α} {input output plain n : ℕ}
  {m : Memory α}

theorem mapped_outside {x : ℕ} (hx : ¬ Inside output n x) : mapped g input output n m x = m x :=
  if_neg hx

-- what f reads of the memory must lie outside the output
theorem mapLoop_eq (hf : ∀ m' : Memory α, (∀ x, ¬ Inside output n x → m' x = m x) → ∀ i < n, ∀ b,
      f m' i b = some (g i b))
    (hio : ∀ i < n, ∀ j < i, input + i ≠ output + j) :
    mapLoop f input output n m = some (mapped g input output n m) := by
  induction n with
  | zero =>
    refine congrArg some (funext fun x => ?_)
    exact (if_neg (by unfold Inside; omega)).symm
  | succ n ih =>
    have hwider : ∀ {x}, ¬ Inside output (n + 1) x → ¬ Inside output n x := fun hx hin =>
      hx (by unfold Inside at *; omega)
    have ih := ih (fun m' hm' i hi => hf m' (fun x hx => hm' x (hwider hx)) i (by omega))
      fun i hi => hio i (by omega)
    -- the loop has not written over the byte it reads next
    have hread : mapped g input output n m (input + n) = m (input + n) := by
      refine if_neg fun hin => hio n (by omega) (input + n - output) ?_ ?_ <;>
        unfold Inside at hin <;> omega
    have hlast := hf (mapped g input output n m) (fun x hx => mapped_outside (hwider hx)) n
      (by omega)
    rw [mapLoop] at ih ⊢
    rw [List.range_succ,List.foldlM_append,ih]
    simp only [Option.bind_eq_bind,Option.bind_some,List.foldlM_cons,List.foldlM_nil,hread,
      hlast,Option.pure_def,Option.some.injEq]
    funext x
    by_cases hlast : x = output + n
    · subst hlast
      rw [Function.update_self,mapped,if_pos (inside_add (Nat.lt_succ_self n)),
        Nat.add_sub_cancel_left]
    · rw [Function.update_of_ne hlast,mapped,mapped]
      exact if_congr (by unfold Inside; omega) rfl rfl

theorem mapLoop_returns (hf : ∀ m i b, (f m i b).isSome) (input output n : ℕ) (m : Memory α) :
    ∃ m', mapLoop f input output n m = some m' := by
  induction n with
  | zero => exact ⟨m,rfl⟩
  | succ n ih =>
    obtain ⟨m',hm'⟩ := ih
    obtain ⟨b,hb⟩ := Option.isSome_iff_exists.mp (hf m' n (m' (input + n)))
    refine ⟨Function.update m' (output + n) b,?_⟩
    rw [mapLoop] at hm' ⊢
    rw [List.range_succ,List.foldlM_append,hm']
    simp only [Option.bind_eq_bind,Option.bind_some,List.foldlM_cons,List.foldlM_nil,hb,
      Option.pure_def]

theorem ApartOrSame.ahead (hio : ApartOrSame input output n) {i j : ℕ} (hi : i < n) (hj : j < i) :
    input + i ≠ output + j := by
  unfold ApartOrSame Apart at hio
  omega

theorem mapped_inside {i : ℕ} (hi : i < n) :
    mapped g input output n m (output + i) = g i (m (input + i)) := by
  rw [mapped,if_pos (inside_add hi),Nat.add_sub_cancel_left]

theorem mapped_mapped (hinv : ∀ i b, h i (g i b) = b) {i : ℕ} (hi : i < n) :
    mapped h output plain n (mapped g input output n m) (plain + i) = m (input + i) := by
  rw [mapped_inside hi,mapped_inside hi,hinv]

end BufferMap
