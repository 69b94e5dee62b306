import KluxOS.Kernel.State

namespace KluxOS.Syscall

open ByteMemory

-- every block is new: inside the address space and apart from the ones given before
def FreshBlocks (alloc : Allocator) : Prop :=
  ∀ (blocks : List (Uint32 × Uint32)) (size : Uint32), alloc blocks size ≠ 0#32 →
    (alloc blocks size).toNat + size.toNat ≤ 2 ^ 32 ∧ ∀ b n, (b,n) ∈ blocks →
      Apart (alloc blocks size).toNat size.toNat b.toNat n.toNat

-- the blocks given before are still there, with the bytes they had
structure Extends (s t : KernelState) : Prop where
  blocks : s.blocks ⊆ t.blocks
  memory : ∀ b n, (b,n) ∈ s.blocks → ∀ x, Inside b.toNat n.toNat x → t.memory x = s.memory x

theorem Extends.refl (s : KernelState) : Extends s s := ⟨List.Subset.refl _,fun _ _ _ _ _ => rfl⟩

theorem Extends.trans {s t u : KernelState} (h : Extends s t) (h' : Extends t u) : Extends s u :=
  ⟨List.Subset.trans h.blocks h'.blocks,fun b n hb x hx =>
    (h'.memory b n (h.blocks hb) x hx).trans (h.memory b n hb x hx)⟩

-- what is stored in a new block leaves the older ones as they are
theorem Extends.stored {alloc : Allocator} (hfresh : FreshBlocks alloc) {s t : KernelState}
    {size : Uint32} (hnull : alloc s.blocks size ≠ 0#32)
    (hblocks : t.blocks = (alloc s.blocks size,size) :: s.blocks)
    (hmemory : ∀ x, ¬ Inside (alloc s.blocks size).toNat size.toNat x →
      t.memory x = s.memory x) : Extends s t where
  blocks := by
    rw [hblocks]
    exact List.subset_cons_self _ _
  memory := fun b n hb x hx => hmemory x fun hin =>
    ((hfresh s.blocks size hnull).2 b n hb).not_inside hin hx

-- blocks one after another from 2 MiB on
def bumpEnd (blocks : List (Uint32 × Uint32)) : ℕ :=
  blocks.foldr (fun b top => max (b.1.toNat + b.2.toNat) top) 0x200000

def bumpAllocator : Allocator := fun blocks size =>
  if bumpEnd blocks + size.toNat ≤ 2 ^ 32 then BitVec.ofNat 32 (bumpEnd blocks) else 0#32

theorem le_bumpEnd {blocks : List (Uint32 × Uint32)} {b n : Uint32} (h : (b,n) ∈ blocks) :
    b.toNat + n.toNat ≤ bumpEnd blocks := by
  induction blocks with
  | nil => cases h
  | cons c blocks ih =>
    rw [bumpEnd,List.foldr_cons]
    rcases List.mem_cons.mp h with rfl | h
    · exact le_max_left _ _
    · exact (ih h).trans (le_max_right _ _)

theorem bumpAllocator_fresh : FreshBlocks bumpAllocator := by
  intro blocks size h
  unfold bumpAllocator at h ⊢
  split
  · next hfits =>
    rw [if_pos hfits] at h
    have hlt : bumpEnd blocks < 2 ^ 32 := by
      refine lt_of_le_of_ne ((Nat.le_add_right _ _).trans hfits) fun htop => h ?_
      rw [htop]
      rfl
    rw [BitVec.toNat_ofNat,Nat.mod_eq_of_lt hlt]
    exact ⟨hfits,fun b n hb => .inr (le_bumpEnd hb)⟩
  · next hfull => exact absurd (if_neg hfull) h

end KluxOS.Syscall
