import KluxOS.Lib.ByteMemory
import KluxOS.Memory.FrameAlloc

namespace KluxOS.Memory

open ByteMemory

def memoryRegionAvailable : Uint32 := 1#32

def memoryRegionReserved : Uint32 := 2#32

structure MemoryRegion where
  base_addr : Uint64
  length : Uint64
  type : Uint32

-- memory_regions[0..num_regions) as init_memory records them
def memoryRegions : List MemoryRegion :=
  [⟨0x100000#64,96#64 * 1024#64 * 1024#64,memoryRegionAvailable⟩,
    ⟨96#64 * 1024#64 * 1024#64 + 0x100000#64,32#64 * 1024#64 * 1024#64,memoryRegionReserved⟩]

-- the image lies between 1 MB and _kernel_end, and kernel_heap lies in it
structure LoadedKernel extends KernelImage where
  kernel_end : Uint32
  heap_inside : kernel_heap.toNat + heapSize.toNat ≤ kernel_end.toNat

def bootKernel : LoadedKernel where
  toKernelImage := bootImage
  kernel_end := 0x400000#32
  heap_inside := by decide

section Frame

structure FreeRam (kernel : LoadedKernel) (f : ℕ) : Prop where
  outside_kernel : Apart (f * 4096) 4096 0x100000 (kernel.kernel_end.toNat - 0x100000)
  available : ∃ r ∈ memoryRegions, r.type = memoryRegionAvailable ∧
    r.base_addr.toNat ≤ f * 4096 ∧ f * 4096 + 4096 ≤ r.base_addr.toNat + r.length.toNat
  not_reserved : ∀ r ∈ memoryRegions, r.type = memoryRegionReserved →
    Apart (f * 4096) 4096 r.base_addr.toNat r.length.toNat

-- frames 256 to 24831 are the 96 MB from 1 MB on
theorem freeRam_iff (kernel : LoadedKernel) (f : ℕ) :
    FreeRam kernel f ↔ 256 ≤ f ∧ f < 24832 ∧ kernel.kernel_end.toNat ≤ f * 4096 := by
  have hend := kernel.heap_inside
  have hlinked := kernel.linked
  have hbase : (0x100000#64).toNat = 0x100000 := rfl
  have hlength : (96#64 * 1024#64 * 1024#64).toNat = 24576 * 4096 := rfl
  have hreserved : (96#64 * 1024#64 * 1024#64 + 0x100000#64).toNat = 24832 * 4096 := rfl
  constructor
  · rintro ⟨hkernel,⟨r,hr,htype,hlow,hhigh⟩,-⟩
    simp only [memoryRegions,List.mem_cons,List.not_mem_nil,or_false] at hr
    rcases hr with rfl | rfl
    · dsimp only at hlow hhigh
      rw [hbase] at hlow hhigh
      rw [hlength] at hhigh
      unfold Apart at hkernel
      omega
    · exact absurd htype (by decide)
  · rintro ⟨hlow,hhigh,hkernel⟩
    refine ⟨.inr (by omega),⟨_,List.mem_cons_self,rfl,?_,?_⟩,fun r hr htype => ?_⟩
    · dsimp only
      omega
    · dsimp only
      omega
    · simp only [memoryRegions,List.mem_cons,List.not_mem_nil,or_false] at hr
      rcases hr with rfl | rfl
      · exact absurd htype (by decide)
      · refine .inl ?_
        dsimp only
        omega

end Frame

section Run

variable (image : KernelImage) {s t : MemoryState} {m : ℕ}

theorem Filled.congr (h : Filled s m) (hframes : t.frames = s.frames)
    (hnframes : t.nframes = s.nframes) : Filled t m := by
  rw [Filled,hframes,hnframes]
  exact h

-- each page of init_paging takes one frame, or none where its descriptor is in use already
theorem initPages_filled (kernel_directory : Uint32) (l : List ℕ) (h : Filled s (min m 32768)) :
    ∃ t k, l.foldlM (initPage image kernel_directory) s = some t ∧ k ≤ l.length ∧
      Filled t (min (m + k) 32768) := by
  induction l generalizing s m with
  | nil => exact ⟨s,0,rfl,Nat.le_refl 0,h⟩
  | cons i l ih =>
    have hother := getPage_frames image s (BitVec.ofNat 32 i * pageSize) true kernel_directory
    obtain ⟨u,k,hu,hk,hfilled⟩ : ∃ u k, initPage image kernel_directory s i = some u ∧ k ≤ 1 ∧
        Filled u (min (m + k) 32768) := by
      rw [initPage]
      cases hpage : getPage image s (BitVec.ofNat 32 i * pageSize) true kernel_directory with
      | mk s' page =>
        rw [hpage] at hother
        have hs' : Filled s' (min m 32768) := h.congr hother.1 hother.2
        cases hused : used s' page with
        | true => exact ⟨s',0,allocFrame_used image hused _ _,Nat.zero_le 1,hs'⟩
        | false =>
          obtain ⟨u,hu,hfilled⟩ := allocFrame_filled image hs' hused true false
          exact ⟨u,1,hu,Nat.le_refl 1,hfilled⟩
    obtain ⟨t,j,ht,hj,hend⟩ := ih hfilled
    refine ⟨t,k + j,?_,?_,?_⟩
    · rw [List.foldlM_cons,hu]
      exact ht
    · rw [List.length_cons]
      omega
    · rw [← Nat.add_assoc]
      exact hend

theorem initMemory_filled (s : MemoryState) : ∃ t m, initMemory image s = some t ∧ 256 ≤ m ∧
    m ≤ 1280 ∧ Filled t m := by
  have hframes : Filled (initFrames image s) (min 256 32768) := initFrames_filled image s
  rw [initMemory,initPaging]
  cases hdir : kmallocAligned image (initFrames image s) pageDirectorySize with
  | mk s' out =>
    have hother := kmallocInternal_frames image (initFrames image s) pageDirectorySize true false
    rw [← kmallocAligned,hdir] at hother
    obtain ⟨t,k,ht,hk,hfilled⟩ := initPages_filled image
      (s := { s' with words := memsetZero s'.words out.1 pageDirectorySize.toNat }) out.1
      (List.range 1024) (hframes.congr hother.1 hother.2)
    rw [List.length_range] at hk
    rw [Nat.min_eq_left (by omega)] at hfilled
    exact ⟨t,256 + k,ht,by omega,by omega,hfilled⟩

end Run

section Grants

variable (kernel : LoadedKernel) {s : MemoryState} {m : ℕ}

def HandsOutFreeRam (s : MemoryState) (es : List FrameEvent) : Prop :=
  ∀ f ∈ grants kernel.toKernelImage s es, FreeRam kernel f

-- the grants are the frames from m on, so the first and the last of them decide
theorem handsOutFreeRam_iff (h : Filled s m) (hlow : 256 ≤ m) (hhigh : m ≤ 24832)
    (es : List FrameEvent) : HandsOutFreeRam kernel s es ↔
      requests kernel.toKernelImage s es = 0 ∨ kernel.kernel_end.toNat ≤ m * 4096 ∧
        m + requests kernel.toKernelImage s es ≤ 24832 := by
  have hmin : Filled s (min m 32768) := by
    rw [Nat.min_eq_left (by omega)]
    exact h
  rw [HandsOutFreeRam,grants_filled kernel.toKernelImage hmin]
  have hmem : ∀ f, f ∈ List.range' m (requests kernel.toKernelImage s es) ↔
      m ≤ f ∧ f < m + requests kernel.toKernelImage s es := fun f => List.mem_range'_1
  constructor
  · intro hall
    by_cases hzero : requests kernel.toKernelImage s es = 0
    · exact .inl hzero
    · have hfree : ∀ f, m ≤ f → f < m + requests kernel.toKernelImage s es → f < 32768 →
          FreeRam kernel f := by
        intro f hmf hf hlt
        have hf' := hall _ (List.mem_map_of_mem ((hmem f).mpr ⟨hmf,hf⟩))
        rwa [if_pos hlt] at hf'
      have hfirst := (freeRam_iff kernel m).mp (hfree m (Nat.le_refl m) (by omega) (by omega))
      refine .inr ⟨hfirst.2.2,?_⟩
      by_contra hmany
      have hlast := (freeRam_iff kernel 24832).mp (hfree 24832 hhigh (by omega) (by decide))
      omega
  · intro hcond f hf
    obtain ⟨g,hg,rfl⟩ := List.mem_map.mp hf
    have hg' := (hmem g).mp hg
    rcases hcond with hzero | ⟨hend,hfew⟩
    · omega
    · rw [if_pos (by omega),freeRam_iff]
      omega

theorem frames_are_free_ram (s : MemoryState) :
    (∃ t, initMemory kernel.toKernelImage s = some t ∧ ∀ es : List FrameEvent,
      HandsOutFreeRam kernel t es ↔ requests kernel.toKernelImage t es = 0 ∨
        kernel.kernel_end.toNat ≤ (firstFreeFrame t).toNat * 4096 ∧
          (firstFreeFrame t).toNat + requests kernel.toKernelImage t es ≤ 24832) ∧
    ∀ es : List FrameEvent, HandsOutFreeRam kernel (initFrames kernel.toKernelImage s) es ↔
      requests kernel.toKernelImage (initFrames kernel.toKernelImage s) es = 0 := by
  constructor
  · obtain ⟨t,m,ht,hlow,hhigh,hfilled⟩ := initMemory_filled kernel.toKernelImage s
    refine ⟨t,ht,fun es => ?_⟩
    rw [hfilled.first (by omega)]
    exact handsOutFreeRam_iff kernel hfilled hlow (by omega) es
  · intro es
    have hlinked := kernel.linked
    have hinside := kernel.heap_inside
    have hsize : heapSize.toNat = 0x100000 := rfl
    rw [handsOutFreeRam_iff kernel (initFrames_filled kernel.toKernelImage s) (by decide)
      (by decide) es]
    omega

end Grants

section Example

-- code that clears the descriptor between two calls
def freshPages : ℕ → List FrameEvent
  | 0 => []
  | n + 1 => .other 0#32 (fun _ => 0#32) :: .alloc 0x300000#32 true false :: freshPages n

theorem freshPages_requests (image : KernelImage) (s : MemoryState) (n : ℕ) :
    requests image s (freshPages n) = n := by
  induction n generalizing s with
  | zero => rfl
  | succ n ih =>
    obtain ⟨t,ht,-⟩ := allocFrame_returns image
      { s with heap_end := 0#32, words := fun _ => 0#32 } 0x300000#32 true false
    have hunused : used { s with heap_end := 0#32, words := fun _ => 0#32 } 0x300000#32 = false := by
      simp [used]
    simp only [freshPages,requests,frameStep,ht,ih,hunused]
    simp [Nat.add_comm]

-- the bitmap covers 128 MB from address 0, the available region ends at 97 MB
theorem alloc_frame_hands_out_reserved : ∃ t, initMemory bootKernel.toKernelImage bootState = some t ∧
    ¬ HandsOutFreeRam bootKernel t (freshPages 24577) := by
  obtain ⟨t,m,ht,hlow,hhigh,hfilled⟩ := initMemory_filled bootKernel.toKernelImage bootState
  refine ⟨t,ht,?_⟩
  rw [handsOutFreeRam_iff bootKernel hfilled hlow (by omega),freshPages_requests]
  omega

end Example

end KluxOS.Memory
