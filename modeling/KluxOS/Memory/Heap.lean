import KluxOS.Lib.Run
import KluxOS.Memory.Paging

namespace KluxOS.Memory

inductive HeapRequest where
  | kmalloc (size : Uint32)
  | kmallocAligned (size : Uint32)
  | kmallocPhysical (size : Uint32)
  | kmallocAlignedPhysical (size : Uint32)

namespace HeapRequest

def size : HeapRequest → Uint32
  | kmalloc size => size
  | kmallocAligned size => size
  | kmallocPhysical size => size
  | kmallocAlignedPhysical size => size

def align : HeapRequest → Bool
  | kmalloc _ => false
  | kmallocAligned _ => true
  | kmallocPhysical _ => false
  | kmallocAlignedPhysical _ => true

def phys : HeapRequest → Bool
  | kmalloc _ => false
  | kmallocAligned _ => false
  | kmallocPhysical _ => true
  | kmallocAlignedPhysical _ => true

end HeapRequest

section Request

variable (image : KernelImage)

def heapCall (s : MemoryState) : HeapRequest → MemoryState × Uint32 × Option Uint32
  | .kmalloc size => kmalloc image s size
  | .kmallocAligned size => kmallocAligned image s size
  | .kmallocPhysical size => kmallocPhysical image s size
  | .kmallocAlignedPhysical size => kmallocAlignedPhysical image s size

theorem heapCall_eq (s : MemoryState) (r : HeapRequest) :
    heapCall image s r = kmallocInternal image s r.size r.align r.phys := by
  cases r <;> rfl

def heapStep (s : MemoryState) (r : HeapRequest) : Option MemoryState :=
  some (heapCall image s r).1

def blockStart (heap_end : ℕ) (align : Bool) : ℕ :=
  if align then (heap_end + 4095) / 4096 * 4096 else heap_end

def heapLimit : ℕ := image.kernel_heap.toNat + heapSize.toNat

def Fits (s : MemoryState) (r : HeapRequest) (_ : Option MemoryState) : Prop :=
  blockStart s.heap_end.toNat r.align + r.size.toNat ≤ heapLimit image

def Contained (s : MemoryState) (r : HeapRequest) (_ : Option MemoryState) : Prop :=
  match heapCall image s r with
  | (t,addr,_) =>
    (addr ≠ 0#32 → image.kernel_heap.toNat ≤ addr.toNat ∧
      addr.toNat + r.size.toNat ≤ heapLimit image) ∧
    (¬ Fits image s r none → addr = 0#32 ∧ t.heap_end = s.heap_end)

structure HeapInvariant (s : MemoryState) : Prop where
  above : image.kernel_heap.toNat ≤ s.heap_end.toNat
  below : s.heap_end.toNat ≤ heapLimit image

theorem heapLimit_le : heapLimit image ≤ 0xFFFFF000 := image.fits

-- below the last page, rounding heap_end up does not wrap
theorem aligned_toNat {heap_end : Uint32} (h : heap_end.toNat ≤ 0xFFFFF000) (align : Bool) :
    (if align ∧ heap_end &&& 0xFFF#32 ≠ 0#32
      then (heap_end + 0x1000#32) &&& 0xFFFFF000#32 else heap_end).toNat =
      blockStart heap_end.toNat align := by
  have hlow : heap_end &&& 0xFFF#32 = 0#32 ↔ heap_end.toNat % 4096 = 0 := by
    rw [← page_offset]
    exact BitVec.toNat_inj.symm
  have hmask : 0xFFFFF000#32 = ~~~0xFFF#32 := by decide
  cases align with
  | false => simp [blockStart]
  | true =>
    by_cases hz : heap_end &&& 0xFFF#32 = 0#32
    · have hmod := hlow.mp hz
      rw [if_neg (fun hand => hand.2 hz),blockStart,if_pos rfl]
      omega
    · have hmod := mt hlow.mpr hz
      rw [if_pos ⟨rfl,hz⟩,blockStart,if_pos rfl,hmask,page_base,BitVec.toNat_add,BitVec.toNat_ofNat]
      omega

theorem blockStart_le (heap_end : ℕ) (align : Bool) : heap_end ≤ blockStart heap_end align := by
  cases align <;> simp only [blockStart,if_true,Bool.false_eq_true,if_false] <;> omega

variable {image}

theorem heapCall_addr {s : MemoryState} (h : HeapInvariant image s) (r : HeapRequest) :
    (heapCall image s r).2.1.toNat = blockStart s.heap_end.toNat r.align ∧
      (heapCall image s r).1.heap_end = (heapCall image s r).2.1 + r.size := by
  rw [heapCall_eq]
  exact ⟨aligned_toNat (h.below.trans (heapLimit_le image)) r.align,rfl⟩

theorem contained_iff {s : MemoryState} (h : HeapInvariant image s) (r : HeapRequest)
    (result : Option MemoryState) : Contained image s r result ↔ Fits image s r result := by
  obtain ⟨haddr,hend⟩ := heapCall_addr h r
  have hstart := blockStart_le s.heap_end.toNat r.align
  have hbase := h.above
  have hlinked := image.linked
  rw [Contained]
  cases hcall : heapCall image s r with
  | mk t out =>
    rw [hcall] at haddr
    have hnonnull : out.1 ≠ 0#32 := by
      intro hnull
      have hzero := congrArg BitVec.toNat hnull
      simp only [BitVec.toNat_ofNat] at haddr hzero
      omega
    constructor
    · intro hcontained
      by_contra hnot
      exact hnonnull (hcontained.2 hnot).1
    · intro hfits
      refine ⟨fun _ => ⟨by simp only at haddr; omega,?_⟩,fun hnot => absurd hfits hnot⟩
      simp only at haddr
      rw [haddr]
      exact hfits

theorem fits_step {s : MemoryState} (h : HeapInvariant image s) {r : HeapRequest}
    {result : Option MemoryState} (hfits : Fits image s r result) :
    HeapInvariant image (heapCall image s r).1 := by
  obtain ⟨haddr,hend⟩ := heapCall_addr h r
  have hstart := blockStart_le s.heap_end.toNat r.align
  have hbase := h.above
  have hlimit := heapLimit_le image
  have hsum : (heapCall image s r).1.heap_end.toNat =
      blockStart s.heap_end.toNat r.align + r.size.toNat := by
    rw [hend,BitVec.toNat_add,haddr]
    unfold Fits at hfits
    omega
  refine ⟨?_,?_⟩
  · omega
  · rw [hsum]
    exact hfits

variable (image)

theorem heapInvariant_init {s : MemoryState} (h : s.heap_end = image.kernel_heap) :
    HeapInvariant image s := by
  refine ⟨by rw [h],?_⟩
  rw [h,heapLimit]
  omega

theorem initFrames_heap_end (s : MemoryState) :
    (initFrames image s).heap_end = image.kernel_heap := by
  rw [initFrames]

theorem kernel_heap_containment (s : MemoryState) (requests : List HeapRequest) :
    Run.Every (heapStep image) (Contained image) (initFrames image s) requests ↔
      Run.Every (heapStep image) (Fits image) (initFrames image s) requests := by
  have hall : ∀ r ∈ requests, True := fun _ _ => trivial
  refine Run.every_iff (heapInvariant_init image (initFrames_heap_end image s)) hall
    (fun s r h _ => contained_iff h r _) ?_
  intro s r t h _ hfits ht
  cases ht
  exact fits_step h hfits

theorem kmalloc_overruns_heap : ¬ Run.Every (heapStep bootImage) (Contained bootImage)
    (initFrames bootImage bootState) [.kmalloc 0x100001#32] := by
  rintro ⟨hcontained,-⟩
  rw [contained_iff (heapInvariant_init bootImage (initFrames_heap_end bootImage bootState)),Fits,
    initFrames_heap_end,heapLimit] at hcontained
  exact absurd hcontained (by decide)

end Request

end KluxOS.Memory
