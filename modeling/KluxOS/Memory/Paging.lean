import Mathlib.Data.Nat.Bitwise
import KluxOS.Memory.FrameBitmap

namespace KluxOS.Memory

theorem low_mask_getLsbD : ∀ i < 32, (0xFFF#32).getLsbD i = decide (i < 12) := by decide

theorem page_base (e : Uint32) : (e &&& ~~~0xFFF#32).toNat = e.toNat / 4096 * 4096 := by
  have hshift : e &&& ~~~0xFFF#32 = e >>> 12 <<< 12 := by
    apply BitVec.eq_of_getLsbD_eq
    intro i hi
    rw [BitVec.getLsbD_and,BitVec.getLsbD_not,low_mask_getLsbD i hi,BitVec.getLsbD_shiftLeft,
      BitVec.getLsbD_ushiftRight]
    by_cases h : i < 12
    · simp [h]
    · simp [h,hi,Nat.add_sub_cancel' (Nat.le_of_not_lt h)]
  rw [hshift,BitVec.toNat_shiftLeft,BitVec.toNat_ushiftRight,Nat.shiftRight_eq_div_pow,
    Nat.shiftLeft_eq]
  omega

theorem page_offset (v : Uint32) : (v &&& 0xFFF#32).toNat = v.toNat % 4096 := by
  rw [BitVec.toNat_and]
  exact Nat.and_two_pow_sub_one_eq_mod v.toNat 12

section Translation

variable (image : KernelImage)

theorem getPhysaddr_page {s : MemoryState} {virtualaddr : Uint32}
    (hpd : image.page_directory (pdIndex virtualaddr) &&& 1#32 ≠ 0#32)
    (hpt : s.words (entryAddress image virtualaddr) &&& 1#32 ≠ 0#32) :
    (getPhysaddr image s virtualaddr).toNat / 4096 =
      (s.words (entryAddress image virtualaddr)).toNat / 4096 := by
  rw [getPhysaddr,if_neg hpd]
  simp only [if_neg hpt]
  rw [BitVec.toNat_add,page_base,page_offset]
  omega

theorem getPhysaddr_absent {s : MemoryState} {virtualaddr : Uint32}
    (hpd : image.page_directory (pdIndex virtualaddr) &&& 1#32 = 0#32) :
    getPhysaddr image s virtualaddr = 0#32 := by
  rw [getPhysaddr,if_pos hpd]

end Translation

theorem mapped_word_present (physaddr flags : Uint32) :
    (physaddr ||| flags ||| 1#32) &&& 1#32 ≠ 0#32 := by
  intro h
  have hbit := congrArg (fun w => BitVec.getLsbD w 0) h
  simp at hbit

theorem mapped_word_page {idx : Uint32} (h : idx.toNat < 1048576) (flags : Uint32) :
    (idx * pageSize ||| (flags &&& 0xFFF#32) ||| 1#32).toNat / 4096 = idx.toNat := by
  have hflags : (flags &&& 0xFFF#32).toNat >>> 12 = 0 := by
    rw [page_offset,Nat.shiftRight_eq_div_pow]
    omega
  have hidx : (idx * pageSize).toNat >>> 12 = idx.toNat := by
    rw [Nat.shiftRight_eq_div_pow]
    exact frame_addr_div h
  have hone : (1#32).toNat >>> 12 = 0 := by decide
  calc (idx * pageSize ||| (flags &&& 0xFFF#32) ||| 1#32).toNat / 4096
      = (idx * pageSize ||| (flags &&& 0xFFF#32) ||| 1#32).toNat >>> 12 :=
        (Nat.shiftRight_eq_div_pow _ 12).symm
    _ = idx.toNat := by
      rw [BitVec.toNat_or,BitVec.toNat_or,Nat.shiftRight_or_distrib,Nat.shiftRight_or_distrib,
        hidx,hflags,hone,Nat.or_zero,Nat.or_zero]

end KluxOS.Memory
