import KluxOS.Memory.FrameBitmap

namespace KluxOS.Memory

open Bitmap

def frameOf (frame_addr : Uint32) : ℕ := frame_addr.toNat / 4096

section Operations

variable (frames : Frames) (frame_addr : Uint32)

theorem setFrame_members :
    members (setFrame frames frame_addr) = insert (frameOf frame_addr) (members frames) := by
  rw [setFrame_eq]
  exact members_setBit frames (by decide) (frame_word_lt frame_addr)

theorem clearFrame_members :
    members (clearFrame frames frame_addr) = members frames \ {frameOf frame_addr} := by
  rw [clearFrame_eq]
  exact members_clearBit frames (by decide) _

theorem testFrame_iff : testFrame frames frame_addr ≠ 0#32 ↔ frameOf frame_addr ∈ members frames :=
  masked_iff frames (by decide) (frame_word_lt frame_addr)

end Operations

-- the frames below the last whole word that are not in the set
def missing (s : MemoryState) : Set ℕ :=
  {f | f < s.nframes.toNat / 32 * 32 ∧ f ∉ members s.frames}

theorem firstFreeFrame_least {s : MemoryState} (h : (missing s).Nonempty) :
    IsLeast (missing s) (firstFreeFrame s).toNat := by
  obtain ⟨f,hf,hmem⟩ := h
  obtain ⟨hlt,hclear,hset⟩ := firstFreeFrame_free ⟨f,hf,(not_mem_members s.frames).mp hmem⟩
  exact isLeast_clear s.frames hlt hclear hset

-- the word a frame address selects is inside the array
theorem frame_bitmap_refines_set (s : MemoryState) (frame_addr : Uint32) :
    frameOf frame_addr / 32 < 32768 ∧
      members (setFrame s.frames frame_addr) = insert (frameOf frame_addr) (members s.frames) ∧
      members (clearFrame s.frames frame_addr) = members s.frames \ {frameOf frame_addr} ∧
      (testFrame s.frames frame_addr ≠ 0#32 ↔ frameOf frame_addr ∈ members s.frames) ∧
      ((missing s).Nonempty → IsLeast (missing s) (firstFreeFrame s).toNat) :=
  ⟨frame_word_lt frame_addr,setFrame_members s.frames frame_addr,
    clearFrame_members s.frames frame_addr,testFrame_iff s.frames frame_addr,firstFreeFrame_least⟩

end KluxOS.Memory
