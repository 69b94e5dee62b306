import Mathlib.Order.CompletePartialOrder
import Mathlib.Order.Interval.Set.Disjoint
import KluxOS.Memory.Heap

namespace KluxOS.Memory

-- what one request took: heap_end as it found it, and the address it returned
structure HeapBlock where
  request : HeapRequest
  heap_end : Uint32
  addr : Uint32

namespace HeapBlock

def stop (b : HeapBlock) : ℕ := b.addr.toNat + b.request.size.toNat

def cells (b : HeapBlock) : Set ℕ := Set.Ico b.addr.toNat b.stop

def Placed (b : HeapBlock) : Prop :=
  b.heap_end.toNat ≤ b.addr.toNat ∧ b.addr.toNat - b.heap_end.toNat < 4096 ∧
    (b.request.align = true → b.addr.toNat % 4096 = 0)

def Precedes (a b : HeapBlock) : Prop := a.stop ≤ b.addr.toNat

theorem addr_le_stop (b : HeapBlock) : b.addr.toNat ≤ b.stop := Nat.le_add_right _ _

theorem Precedes.disjoint {a b : HeapBlock} (h : a.Precedes b) : Disjoint a.cells b.cells :=
  Set.disjoint_left.mpr fun _ ha hb => absurd (ha.2.trans_le (h.trans hb.1)) (lt_irrefl _)

theorem Precedes.addr_le {a b : HeapBlock} (h : a.Precedes b) : a.addr.toNat ≤ b.addr.toNat :=
  a.addr_le_stop.trans h

end HeapBlock

section Blocks

variable (image : KernelImage)

def heapBlocks : MemoryState → List HeapRequest → List HeapBlock
  | _, [] => []
  | s, r :: rs =>
    match heapCall image s r with
    | (t,addr,_) => ⟨r,s.heap_end,addr⟩ :: heapBlocks t rs

def nextBlock (s : MemoryState) (r : HeapRequest) : HeapBlock :=
  ⟨r,s.heap_end,(heapCall image s r).2.1⟩

theorem heapBlocks_cons (s : MemoryState) (r : HeapRequest) (rs : List HeapRequest) :
    heapBlocks image s (r :: rs) = nextBlock image s r :: heapBlocks image (heapCall image s r).1 rs :=
  rfl

theorem blockStart_padding (heap_end : ℕ) (align : Bool) :
    blockStart heap_end align - heap_end < 4096 := by
  cases align <;> simp only [blockStart,if_true,Bool.false_eq_true,if_false] <;> omega

theorem blockStart_aligned (heap_end : ℕ) : blockStart heap_end true % 4096 = 0 :=
  Nat.mul_mod_left _ _

variable {image}

theorem Fits.heap_end_le {s : MemoryState} {r : HeapRequest} {result : Option MemoryState}
    (h : Fits image s r result) : s.heap_end.toNat ≤ 0xFFFFF000 := by
  have hstart := blockStart_le s.heap_end.toNat r.align
  have hlimit := heapLimit_le image
  unfold Fits at h
  omega

theorem Fits.addr {s : MemoryState} {r : HeapRequest} {result : Option MemoryState}
    (h : Fits image s r result) :
    (nextBlock image s r).addr.toNat = blockStart s.heap_end.toNat r.align := by
  rw [nextBlock,heapCall_eq]
  exact aligned_toNat h.heap_end_le r.align

theorem Fits.placed {s : MemoryState} {r : HeapRequest} {result : Option MemoryState}
    (h : Fits image s r result) : (nextBlock image s r).Placed := by
  rw [HeapBlock.Placed,h.addr]
  refine ⟨blockStart_le _ _,blockStart_padding _ _,fun halign => ?_⟩
  have hr : r.align = true := halign
  rw [hr]
  exact blockStart_aligned _

theorem Fits.stop_le {s : MemoryState} {r : HeapRequest} {result : Option MemoryState}
    (h : Fits image s r result) : (nextBlock image s r).stop ≤ heapLimit image := by
  rw [HeapBlock.stop,h.addr]
  exact h

-- the next request starts where this block stops
theorem Fits.next {s : MemoryState} {r : HeapRequest} {result : Option MemoryState}
    (h : Fits image s r result) :
    (heapCall image s r).1.heap_end.toNat = (nextBlock image s r).stop := by
  have hlimit := heapLimit_le image
  have hstop : (nextBlock image s r).addr.toNat + r.size.toNat ≤ heapLimit image := h.stop_le
  have hend : (heapCall image s r).1.heap_end = (nextBlock image s r).addr + r.size := by
    rw [nextBlock,heapCall_eq]
    rfl
  rw [hend,BitVec.toNat_add]
  exact Nat.mod_eq_of_lt (by omega)

theorem heapBlocks_above {s : MemoryState} {requests : List HeapRequest}
    (h : Run.Every (heapStep image) (Fits image) s requests) :
    ∀ b ∈ heapBlocks image s requests, s.heap_end.toNat ≤ b.addr.toNat := by
  induction requests generalizing s with
  | nil => simp [heapBlocks]
  | cons r rs ih =>
    have hplaced := h.1.placed
    rw [heapBlocks_cons,List.forall_mem_cons]
    refine ⟨hplaced.1,fun b hb => ?_⟩
    have hlater := ih (h.2 _ rfl) b hb
    rw [h.1.next] at hlater
    exact hplaced.1.trans ((nextBlock image s r).addr_le_stop.trans hlater)

theorem heapBlocks_precedes {s : MemoryState} {requests : List HeapRequest}
    (h : Run.Every (heapStep image) (Fits image) s requests) :
    (heapBlocks image s requests).Pairwise HeapBlock.Precedes := by
  induction requests generalizing s with
  | nil => exact .nil
  | cons r rs ih =>
    refine .cons (fun b hb => ?_) (ih (h.2 _ rfl))
    have hlater := heapBlocks_above (h.2 _ rfl) b hb
    rw [h.1.next] at hlater
    exact hlater

theorem heapBlocks_placed {s : MemoryState} {requests : List HeapRequest}
    (h : Run.Every (heapStep image) (Fits image) s requests) :
    ∀ b ∈ heapBlocks image s requests, b.Placed ∧ b.stop ≤ heapLimit image := by
  induction requests generalizing s with
  | nil => simp [heapBlocks]
  | cons r rs ih =>
    rw [heapBlocks_cons,List.forall_mem_cons]
    exact ⟨⟨h.1.placed,h.1.stop_le⟩,ih (h.2 _ rfl)⟩

theorem heapBlocks_requests (s : MemoryState) (requests : List HeapRequest) :
    (heapBlocks image s requests).map HeapBlock.request = requests := by
  induction requests generalizing s with
  | nil => rfl
  | cons r rs ih => rw [heapBlocks_cons,List.map_cons,ih,nextBlock]

theorem heap_blocks_disjoint_and_aligned (image : KernelImage) (s : MemoryState)
    (requests : List HeapRequest) (h : Run.Every (heapStep image) (Fits image) s requests) :
    (heapBlocks image s requests).map HeapBlock.request = requests ∧
      (heapBlocks image s requests).Pairwise (fun a b => Disjoint a.cells b.cells ∧
        a.addr.toNat ≤ b.addr.toNat) ∧
      ∀ b ∈ heapBlocks image s requests, b.Placed ∧ b.stop ≤ heapLimit image :=
  ⟨heapBlocks_requests s requests,
    (heapBlocks_precedes h).imp fun hab => ⟨hab.disjoint,hab.addr_le⟩,heapBlocks_placed h⟩

def mixedRequests : List HeapRequest :=
  [.kmalloc 12#32,.kmallocAligned 0#32,.kmallocAlignedPhysical 0x1000#32,.kmallocPhysical 5#32]

theorem mixed_requests_disjoint :
    (heapBlocks bootImage { bootState with heap_end := 0x200000#32 } mixedRequests).Pairwise
      (fun a b => Disjoint a.cells b.cells ∧ a.addr.toNat ≤ b.addr.toNat) := by
  refine (heap_blocks_disjoint_and_aligned bootImage { bootState with heap_end := 0x200000#32 }
    mixedRequests ?_).2.1
  refine ⟨by rw [Fits]; decide,fun t ht => ?_⟩
  cases ht
  refine ⟨by rw [Fits]; decide,fun t ht => ?_⟩
  cases ht
  refine ⟨by rw [Fits]; decide,fun t ht => ?_⟩
  cases ht
  exact ⟨by rw [Fits]; decide,fun _ _ => trivial⟩

end Blocks

end KluxOS.Memory
