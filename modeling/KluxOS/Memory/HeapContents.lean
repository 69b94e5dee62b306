import KluxOS.Lib.KnownCells
import KluxOS.Memory.Heap
import KluxOS.Syscall.Syscall

namespace KluxOS.Memory

open ByteMemory KnownCells Run Syscall

section Allocator

variable (image : KernelImage) (m : MemoryState)

-- heap_end after the requests so far, read off the newest block
def heapTop : List (Uint32 × Uint32) → Uint32
  | [] => image.kernel_heap
  | (addr,size) :: _ => addr + size

def heapAllocator : Allocator := fun blocks size =>
  (kmalloc image { m with heap_end := heapTop image blocks } size).2.1

theorem heapAllocator_top (blocks : List (Uint32 × Uint32)) (size : Uint32) :
    heapAllocator image m blocks size = heapTop image blocks := rfl

theorem kmalloc_top (blocks : List (Uint32 × Uint32)) (size : Uint32) :
    (kmalloc image { m with heap_end := heapTop image blocks } size).1.heap_end =
      heapTop image ((heapAllocator image m blocks size,size) :: blocks) := rfl

end Allocator

section Calls

inductive ByteCall where
  | kmalloc (size : Uint32)
  | krealloc (ptr size : Uint32)
  | kfree (ptr : Uint32)
  | store (ptr : Uint32) (i : ℕ) (value : Uint8)

-- the pointer returned, null for the calls that return none
def byteStep (alloc : Allocator) (s : KernelState) : ByteCall → Option (KernelState × Uint32)
  | .kmalloc size => some (allocate alloc s size)
  | .krealloc ptr size => some (krealloc alloc s ptr size)
  | .kfree ptr => some (kfree s ptr,0#32)
  | .store ptr i value =>
    some ({ s with memory := Function.update s.memory (ptr.toNat + i) value },0#32)

end Calls

section Known

structure KnownBlock where
  addr : Uint32
  cells : List (Option Uint8)

def KnownBlock.entry (b : KnownBlock) : Uint32 × Uint32 := (b.addr,BitVec.ofNat 32 b.cells.length)

def stored (ptr : Uint32) (i : ℕ) (value : Uint8) (b : KnownBlock) : KnownBlock :=
  if b.addr = ptr then { b with cells := b.cells.set i (some value) } else b

variable (image : KernelImage)

def top (heap : List KnownBlock) : Uint32 := heapTop image (heap.map KnownBlock.entry)

def cellsAt (heap : List KnownBlock) (ptr : Uint32) : List (Option Uint8) :=
  ((heap.find? fun b => b.addr = ptr).map KnownBlock.cells).getD []

def place (heap : List KnownBlock) (cells : List (Option Uint8)) : List KnownBlock × Uint32 :=
  (⟨top image heap,cells⟩ :: heap,top image heap)

def knownStep (heap : List KnownBlock) : ByteCall → Option (List KnownBlock × Uint32)
  | .kmalloc size => some (place image heap (unknown size.toNat))
  | .krealloc ptr size =>
    if ptr = 0#32 then some (place image heap (unknown size.toNat))
    else if size = 0#32 then some (heap,0#32)
    else some (place image heap (copied (min size.toNat 256) size.toNat (cellsAt heap ptr)))
  | .kfree _ => some (heap,0#32)
  | .store ptr i value =>
    some (heap.map (stored ptr i value),0#32)

def Room (heap : List KnownBlock) (size : Uint32) : Prop :=
  (top image heap).toNat + size.toNat ≤ heapLimit image

-- requests fit the heap, and stores stay inside a block
def InHeap (heap : List KnownBlock) : ByteCall → Prop
  | .kmalloc size => Room image heap size
  | .krealloc ptr size => ptr = 0#32 ∨ size ≠ 0#32 → Room image heap size
  | .kfree _ => True
  | .store ptr i _ => ∃ b ∈ heap, b.addr = ptr ∧ i < b.cells.length

def stop (b : KnownBlock) : ℕ := b.addr.toNat + b.cells.length

structure Kept (s : KernelState) (heap : List KnownBlock) : Prop where
  blocks : s.blocks = heap.map KnownBlock.entry
  agrees : ∀ b ∈ heap, Agrees s.memory b.addr.toNat b.cells
  apart : heap.Pairwise fun newer older => stop older ≤ newer.addr.toNat
  inside : ∀ b ∈ heap, image.kernel_heap.toNat ≤ b.addr.toNat ∧ stop b ≤ heapLimit image

end Known

section Step

variable {image : KernelImage} {m : MemoryState} {s t : KernelState} {heap : List KnownBlock}

theorem top_above (h : Kept image s heap) :
    image.kernel_heap.toNat ≤ (top image heap).toNat ∧ ∀ b ∈ heap, stop b ≤ (top image heap).toNat := by
  cases heap with
  | nil => exact ⟨Nat.le_refl _,fun b hb => by cases hb⟩
  | cons newest heap =>
    obtain ⟨hbase,hlimit⟩ := h.inside newest List.mem_cons_self
    have hfits := heapLimit_le image
    have htop : (top image (newest :: heap)).toNat = stop newest := by
      change (newest.addr + BitVec.ofNat 32 newest.cells.length).toNat = stop newest
      unfold stop at hlimit ⊢
      rw [BitVec.toNat_add,BitVec.toNat_ofNat]
      omega
    rw [htop]
    refine ⟨?_,?_⟩
    · unfold stop
      omega
    · intro b hb
      rcases List.mem_cons.mp hb with rfl | hb
      · exact Nat.le_refl _
      · have holder := List.rel_of_pairwise_cons h.apart hb
        unfold stop at holder ⊢
        omega

theorem Kept.place (h : Kept image s heap) {size : Uint32} (hroom : Room image heap size)
    {cells : List (Option Uint8)} (hlength : cells.length = size.toNat)
    (hblocks : t.blocks = (top image heap,size) :: s.blocks)
    (hmemory : ∀ x, ¬ Inside (top image heap).toNat size.toNat x → t.memory x = s.memory x)
    (hcells : Agrees t.memory (top image heap).toNat cells) :
    Kept image t (⟨top image heap,cells⟩ :: heap) := by
  obtain ⟨hbase,hbelow⟩ := top_above h
  refine ⟨?_,?_,?_,?_⟩
  · rw [hblocks,h.blocks,List.map_cons,KnownBlock.entry,hlength,BitVec.ofNat_toNat,BitVec.setWidth_eq]
  · refine List.forall_mem_cons.mpr ⟨hcells,fun b hb => (h.agrees b hb).frame fun x hx => ?_⟩
    refine hmemory x ?_
    have hstop := hbelow b hb
    unfold stop at hstop
    unfold Inside at hx ⊢
    omega
  · exact List.pairwise_cons.mpr ⟨hbelow,h.apart⟩
  · refine List.forall_mem_cons.mpr ⟨⟨hbase,?_⟩,h.inside⟩
    rw [stop,hlength]
    exact hroom

theorem top_ne_zero (h : Kept image s heap) : top image heap ≠ 0#32 := by
  intro hzero
  have hbase := (top_above h).1
  have hlinked := image.linked
  rw [hzero] at hbase
  simp only [BitVec.toNat_ofNat] at hbase
  omega

theorem allocate_top (h : Kept image s heap) (size : Uint32) :
    allocate (heapAllocator image m) s size =
      ({ s with blocks := (top image heap,size) :: s.blocks },top image heap) := by
  have htop : heapAllocator image m s.blocks size = top image heap := by
    rw [heapAllocator_top,h.blocks]
    rfl
  rw [allocate_block _ _ (by rw [htop]; exact top_ne_zero h),htop]

theorem kmalloc_kept (h : Kept image s heap) {size : Uint32} (hroom : Room image heap size) :
    ∃ t, allocate (heapAllocator image m) s size = (t,top image heap) ∧
      Kept image t (⟨top image heap,unknown size.toNat⟩ :: heap) :=
  ⟨_,allocate_top h size,h.place hroom (unknown_length _) rfl (fun _ _ => rfl)
    (agrees_unknown _ _ _)⟩

-- the copy reads the old block below the new one, and past it whatever lies there
theorem copy_agrees (h : Kept image s heap) (ptr : Uint32) {k n : ℕ} (hk : k ≤ n) :
    Agrees (memcpy s (top image heap).toNat ptr.toNat k).memory (top image heap).toNat
      (copied k n (cellsAt heap ptr)) := by
  rw [cellsAt]
  cases hfind : heap.find? fun b => b.addr = ptr with
  | none => exact agrees_copied_nil _ _ _ _
  | some b =>
    have hb := List.mem_of_find?_eq_some hfind
    obtain rfl : b.addr = ptr := by simpa using List.find?_some hfind
    exact (h.agrees b hb).copy hk (.inl ((top_above h).2 b hb))

theorem kfree_kept (h : Kept image s heap) (ptr : Uint32) : Kept image (kfree s ptr) heap :=
  ⟨(kfree_blocks s ptr).trans h.blocks,kfree_memory s ptr ▸ h.agrees,h.apart,h.inside⟩

theorem krealloc_kept (h : Kept image s heap) {ptr size : Uint32} (hptr : ptr ≠ 0#32)
    (hsize : size ≠ 0#32) (hroom : Room image heap size) :
    ∃ t, krealloc (heapAllocator image m) s ptr size = (t,top image heap) ∧
      Kept image t (⟨top image heap,
        copied (min size.toNat 256) size.toNat (cellsAt heap ptr)⟩ :: heap) := by
  have hk : min size.toNat 256 ≤ size.toNat := Nat.min_le_left ..
  have hcopy : (if size.toNat < 256 then size.toNat else 256) = min size.toNat 256 := by
    split <;> omega
  rw [krealloc,if_neg hptr,if_neg hsize,allocate_top h]
  dsimp only
  rw [if_neg (top_ne_zero h),hcopy]
  refine ⟨_,rfl,h.place hroom (copied_length ..) ?_ (fun x hx => ?_) ?_⟩
  · exact kfree_blocks _ ptr
  · rw [kfree_memory]
    exact storeLoop_outside _ _ fun hin => hx ⟨hin.1,by have := hin.2; omega⟩
  · rw [kfree_memory]
    exact copy_agrees h ptr hk

theorem stored_place (ptr : Uint32) (i : ℕ) (value : Uint8) (b : KnownBlock) :
    (stored ptr i value b).addr = b.addr ∧ (stored ptr i value b).cells.length = b.cells.length := by
  rw [stored]
  split
  · exact ⟨rfl,List.length_set⟩
  · exact ⟨rfl,rfl⟩

def Clear (a b : KnownBlock) : Prop := stop a ≤ b.addr.toNat ∨ stop b ≤ a.addr.toNat

instance clear_symm : Std.Symm Clear := ⟨fun _ _ => Or.symm⟩

-- no byte belongs to two blocks
theorem other_block (h : Kept image s heap) {a b : KnownBlock} (ha : a ∈ heap) (hb : b ∈ heap)
    (hab : a.addr ≠ b.addr) : Clear a b := by
  have hclear : heap.Pairwise Clear := h.apart.imp Or.inr
  exact hclear.forall ha hb fun heq => hab (congrArg KnownBlock.addr heq)

theorem store_kept (h : Kept image s heap) {ptr : Uint32} {i : ℕ} (value : Uint8)
    (hinside : ∃ b ∈ heap, b.addr = ptr ∧ i < b.cells.length) :
    Kept image { s with memory := Function.update s.memory (ptr.toNat + i) value }
      (heap.map (stored ptr i value)) := by
  obtain ⟨target,htarget,rfl,hi⟩ := hinside
  have hsame := stored_place target.addr i value
  have hstop : ∀ b, stop (stored target.addr i value b) = stop b := fun b => by
    rw [stop,(hsame b).1,(hsame b).2,stop]
  refine ⟨?_,?_,?_,?_⟩
  · rw [List.map_map]
    refine h.blocks.trans (List.map_congr_left fun b _ => ?_)
    rw [Function.comp_apply,KnownBlock.entry,KnownBlock.entry,(hsame b).1,(hsame b).2]
  · refine List.forall_mem_map.mpr fun b hb => ?_
    rw [(hsame b).1,stored]
    split
    · next hptr =>
      rw [← hptr]
      exact (h.agrees b hb).store i value
    · next hptr =>
      refine (h.agrees b hb).frame fun x hx => Function.update_of_ne ?_ _ _
      have hapart := other_block h hb htarget hptr
      unfold Clear stop at hapart
      unfold Inside at hx
      omega
  · refine List.pairwise_map.mpr (h.apart.imp fun hab => ?_)
    rw [hstop,(hsame _).1]
    exact hab
  · refine List.forall_mem_map.mpr fun b hb => ?_
    rw [hstop,(hsame b).1]
    exact h.inside b hb

theorem byteStep_kept (h : Kept image s heap) {c : ByteCall} (hc : InHeap image heap c) :
    ∃ t u ptr, byteStep (heapAllocator image m) s c = some (t,ptr) ∧
      knownStep image heap c = some (u,ptr) ∧ Kept image t u := by
  cases c with
  | kmalloc size =>
    obtain ⟨t,ht,hkept⟩ := kmalloc_kept (m := m) h hc
    exact ⟨t,_,_,congrArg some ht,rfl,hkept⟩
  | krealloc ptr size =>
    by_cases hptr : ptr = 0#32
    · obtain ⟨t,ht,hkept⟩ := kmalloc_kept (m := m) h (hc (.inl hptr))
      refine ⟨t,_,_,congrArg some ?_,if_pos hptr,hkept⟩
      rw [krealloc,if_pos hptr,ht]
    · by_cases hsize : size = 0#32
      · refine ⟨kfree s ptr,heap,0#32,congrArg some ?_,?_,kfree_kept h ptr⟩
        · rw [krealloc,if_neg hptr,if_pos hsize]
        · rw [knownStep,if_neg hptr,if_pos hsize]
      · obtain ⟨t,ht,hkept⟩ := krealloc_kept (m := m) h hptr hsize (hc (.inr hsize))
        refine ⟨t,_,_,congrArg some ht,?_,hkept⟩
        rw [knownStep,if_neg hptr,if_neg hsize]
        rfl
  | kfree ptr => exact ⟨_,_,_,rfl,rfl,kfree_kept h ptr⟩
  | store ptr i value => exact ⟨_,_,_,rfl,rfl,store_kept h value hc⟩

end Step

-- whatever is stored in a block stays there, and krealloc keeps the first 256 bytes of the old block
theorem heap_contents_kept (image : KernelImage) (m : MemoryState) (s : KernelState)
    (hs : s.blocks = []) (calls : List ByteCall)
    (hcalls : Every (fun heap c => (knownStep image heap c).map Prod.fst)
      (fun heap c _ => InHeap image heap c) [] calls) :
    ∃ t heap pointers, run (logged (byteStep (heapAllocator image m))) (s,[]) calls =
        some (t,pointers) ∧
      run (logged (knownStep image)) ([],[]) calls = some (heap,pointers) ∧
      Kept image t heap := by
  have hstart : Kept image s [] :=
    ⟨hs,fun b hb => (by cases hb),.nil,fun b hb => (by cases hb)⟩
  have hsim : ∀ s heap c, Kept image s heap → InHeap image heap c →
      ∃ t u ptr, byteStep (heapAllocator image m) s c = some (t,ptr) ∧
        knownStep image heap c = some (u,ptr) ∧ Kept image t u :=
    fun _ _ _ hkept hc => byteStep_kept hkept hc
  exact run_logged_simulates hsim hstart hcalls

-- the second byte of a block of 2, before and after it grows to 300
def grownBlock : List ByteCall :=
  [.kmalloc 2#32,.store 0x200000#32 1 7#8,.krealloc 0x200000#32 300#32]

theorem heap_contents_kept_grown : ∃ t heap pointers,
    run (logged (byteStep (heapAllocator bootImage bootState))) (.boot,[]) grownBlock =
        some (t,pointers) ∧
      run (logged (knownStep bootImage)) ([],[]) grownBlock = some (heap,pointers) ∧
      Kept bootImage t heap := by
  refine heap_contents_kept bootImage bootState .boot rfl grownBlock ?_
  refine ⟨?_,fun t ht => ?_⟩
  · change Room bootImage [] 2#32
    unfold Room
    decide
  · cases ht
    refine ⟨⟨_,List.mem_cons_self,rfl,by decide⟩,fun t ht => ?_⟩
    cases ht
    refine ⟨fun _ => ?_,fun _ _ => trivial⟩
    unfold Room
    decide

end KluxOS.Memory
