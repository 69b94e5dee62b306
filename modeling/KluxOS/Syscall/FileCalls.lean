import KluxOS.Kernel.Allocators
import KluxOS.Lib.ByteSequence
import KluxOS.Syscall.CallCases

namespace KluxOS.Syscall

open ByteMemory ByteSequence KernelState Fs

-- a file without driver hooks that may be read and written
structure PlainFile (node : FsNode) : Prop where
  type : node.type = .file
  read : node.read = none
  write : node.write = none
  truncate : node.truncate = none
  readable : node.mask &&& fsPermRead ≠ 0#32
  writable : node.mask &&& fsPermWrite ≠ 0#32

def HasBytes (s : KernelState) (p : NodePtr) (bytes : List Uint8) : Prop :=
  ∃ node, s.nodes[p]? = some node ∧ node.length.toNat = bytes.length ∧
    loadBytes s.memory node.contents.toNat node.length.toNat = bytes

structure ContentsBacked (s : KernelState) (p : NodePtr) (node : FsNode) (bytes : List Uint8) :
    Prop where
  found : s.nodes[p]? = some node
  plain : PlainFile node
  length : node.length.toNat = bytes.length
  bytes : loadBytes s.memory node.contents.toNat node.length.toNat = bytes
  null : node.contents = 0#32 → node.length = 0#32
  block : node.length ≠ 0#32 → ∃ size, (node.contents,size) ∈ s.blocks ∧
    node.length.toNat ≤ size.toNat ∧ node.contents.toNat + size.toNat ≤ 2 ^ 32

-- the block behind a file's contents, which ends inside the address space
structure Backing (s : KernelState) (node : FsNode) (bytes : List Uint8) : Prop where
  length : node.length.toNat = bytes.length
  bytes : loadBytes s.memory node.contents.toNat node.length.toNat = bytes
  null : node.contents = 0#32 → node.length = 0#32
  block : node.length ≠ 0#32 → ∃ size, (node.contents,size) ∈ s.blocks ∧
    node.length.toNat ≤ size.toNat ∧ node.contents.toNat + size.toNat ≤ 2 ^ 32

theorem Backing.inside {s : KernelState} {node : FsNode} {bytes : List Uint8}
    (h : Backing s node bytes) : node.contents.toNat + node.length.toNat ≤ 2 ^ 32 := by
  by_cases hempty : node.length = 0#32
  · have hlt := node.contents.isLt
    rw [hempty]
    simp only [BitVec.toNat_zero]
    omega
  · obtain ⟨size,-,hle,hfits⟩ := h.block hempty
    omega

theorem ContentsBacked.backing {s : KernelState} {p : NodePtr} {node : FsNode} {bytes : List Uint8}
    (h : ContentsBacked s p node bytes) : Backing s node bytes :=
  ⟨h.length,h.bytes,h.null,h.block⟩

theorem HasBytes.unique {s : KernelState} {p : NodePtr} {bytes bytes' : List Uint8}
    (h : HasBytes s p bytes) (h' : HasBytes s p bytes') : bytes = bytes' := by
  obtain ⟨node,hnode,-,hbytes⟩ := h
  obtain ⟨node',hnode',-,hbytes'⟩ := h'
  rw [hnode] at hnode'
  cases hnode'
  exact hbytes.symm.trans hbytes'

theorem ContentsBacked.hasBytes {s : KernelState} {p : NodePtr} {node : FsNode}
    {bytes : List Uint8} (h : ContentsBacked s p node bytes) : HasBytes s p bytes :=
  ⟨node,h.found,h.length,h.bytes⟩

theorem ContentsBacked.of_same {s t : KernelState} {p : NodePtr} {node : FsNode}
    {bytes : List Uint8} (h : ContentsBacked s p node bytes) {node' : FsNode}
    (hnode : t.nodes[p]? = some node') (hplain : PlainFile node')
    (hlength : node'.length = node.length) (hcontents : node'.contents = node.contents)
    (hmemory : ∀ x, Inside node.contents.toNat node.length.toNat x → t.memory x = s.memory x)
    (hblocks : ∀ b ∈ s.blocks, b ∈ t.blocks) : ContentsBacked t p node' bytes := by
  refine ⟨hnode,hplain,hlength ▸ h.length,?_,?_,?_⟩
  · rw [hlength,hcontents,loadBytes_congr hmemory,h.bytes]
  · rw [hlength,hcontents]
    exact h.null
  · rw [hlength,hcontents]
    intro hpos
    obtain ⟨size,hblock,hle⟩ := h.block hpos
    exact ⟨size,hblocks _ hblock,hle⟩

section Krealloc

variable (alloc : Allocator) (s : KernelState) {size : Uint32}

theorem krealloc_null (ptr : Uint32) (hsize : size ≠ 0#32) (h : alloc s.blocks size = 0#32) :
    krealloc alloc s ptr size = (s,0#32) := by
  unfold krealloc
  by_cases hptr : ptr = 0#32
  · rw [if_pos hptr,allocate_null alloc s h]
  · rw [if_neg hptr,if_neg hsize,allocate_null alloc s h]
    simp only [if_true]

-- krealloc copies at most 256 bytes, whatever the file's length
theorem krealloc_block (ptr : Uint32) (hsize : size ≠ 0#32) (h : alloc s.blocks size ≠ 0#32) :
    ∃ t, krealloc alloc s ptr size = (t,alloc s.blocks size) ∧ t.nodes = s.nodes ∧
      t.fs_root = s.fs_root ∧ t.fd_table = s.fd_table ∧
      t.blocks = (alloc s.blocks size,size) :: s.blocks ∧
      t.memory = if ptr = 0#32 then s.memory else
        storeLoop (fun memory i => memory (ptr.toNat + i)) (alloc s.blocks size).toNat
          (min size.toNat 256) s.memory := by
  unfold krealloc
  by_cases hptr : ptr = 0#32
  · rw [if_pos hptr,if_pos hptr,allocate_block alloc s h]
    exact ⟨_,rfl,rfl,rfl,rfl,rfl,rfl⟩
  · have hcopy : (if size.toNat < 256 then size.toNat else 256) = min size.toNat 256 := by
      split <;> omega
    rw [if_neg hptr,if_neg hsize,if_neg hptr,allocate_block alloc s h]
    simp only [if_neg h,hcopy,kfree,if_neg hptr]
    exact ⟨_,rfl,rfl,rfl,rfl,rfl,rfl⟩

end Krealloc

section Resize

variable {alloc : Allocator} {s : KernelState} {p : NodePtr} {node : FsNode} {new_size : Uint32}

theorem resize_keep (h : ¬ new_size > node.length) :
    resize alloc s p node new_size = some (s,node) := by
  rw [resize,if_neg h]

theorem grown_ne_zero (h : new_size > node.length) : new_size ≠ 0#32 := by
  rintro rfl
  bv_omega

theorem resize_null (h : new_size > node.length) (halloc : alloc s.blocks new_size = 0#32) :
    resize alloc s p node new_size = none := by
  rw [resize,if_pos h,krealloc_null alloc s _ (grown_ne_zero h) halloc]
  simp

def grownNode (node : FsNode) (contents length : Uint32) : FsNode :=
  { node with contents := contents, length := length }

theorem PlainFile.grown {contents length : Uint32} (h : PlainFile node) :
    PlainFile (grownNode node contents length) :=
  ⟨h.type,h.read,h.write,h.truncate,h.readable,h.writable⟩

-- the copied bytes and the zeros behind the old length
theorem resize_block (h : new_size > node.length) (halloc : alloc s.blocks new_size ≠ 0#32) :
    ∃ t, resize alloc s p node new_size =
        some (t,grownNode node (alloc s.blocks new_size) new_size) ∧
      t.nodes = s.nodes.set p (grownNode node (alloc s.blocks new_size) new_size) ∧
      t.fs_root = s.fs_root ∧ t.fd_table = s.fd_table ∧
      t.blocks = (alloc s.blocks new_size,new_size) :: s.blocks ∧
      t.memory = storeLoop (fun _ _ => 0#8) (alloc s.blocks new_size + node.length).toNat
        (new_size.toNat - node.length.toNat) (if node.contents = 0#32 then s.memory else
          storeLoop (fun memory i => memory (node.contents.toNat + i))
            (alloc s.blocks new_size).toNat (min new_size.toNat 256) s.memory) := by
  obtain ⟨t,ht,hnodes,hroot,hfds,hblocks,hmemory⟩ :=
    krealloc_block alloc s node.contents (grown_ne_zero h) halloc
  rw [resize,if_pos h,ht]
  simp only [if_neg halloc]
  refine ⟨_,rfl,?_,hroot,hfds,hblocks,?_⟩
  · simp only [setNode_nodes,memset,hnodes,grownNode]
  · rw [setNode_memory,memset,hmemory,BitVec.toNat_sub_of_le (BitVec.le_of_lt h)]

theorem resize_grow (hfresh : FreshBlocks alloc) {bytes : List Uint8}
    (hfile : Backing s node bytes) (h : new_size > node.length)
    (halloc : alloc s.blocks new_size ≠ 0#32) :
    ∃ t, resize alloc s p node new_size =
        some (t,grownNode node (alloc s.blocks new_size) new_size) ∧
      t.nodes = s.nodes.set p (grownNode node (alloc s.blocks new_size) new_size) ∧
      t.fs_root = s.fs_root ∧ t.fd_table = s.fd_table ∧
      t.blocks = (alloc s.blocks new_size,new_size) :: s.blocks ∧
      ∀ i < node.length.toNat, t.memory ((alloc s.blocks new_size).toNat + i) =
        if i < 256 then s.memory (node.contents.toNat + i)
        else s.memory ((alloc s.blocks new_size).toNat + i) := by
  have hlt : node.length.toNat < new_size.toNat := BitVec.lt_def.mp h
  obtain ⟨t,ht,hnodes,hroot,hfds,hblocks,hmemory⟩ := resize_block (p := p) h halloc
  refine ⟨t,ht,hnodes,hroot,hfds,hblocks,fun i hi => ?_⟩
  have hzero : ¬ Inside ((alloc s.blocks new_size).toNat + node.length.toNat)
      (new_size.toNat - node.length.toNat) ((alloc s.blocks new_size).toNat + i) := by
    unfold Inside
    omega
  have hlength : node.length ≠ 0#32 := by
    intro hzero
    rw [hzero] at hi
    exact absurd hi (Nat.not_lt_zero i)
  have hptr : node.contents ≠ 0#32 := fun hptr => hlength (hfile.null hptr)
  have hnew : (alloc s.blocks new_size).toNat + node.length.toNat +
      (new_size.toNat - node.length.toNat) ≤ 2 ^ 32 := by
    have hend := (hfresh s.blocks new_size halloc).1
    omega
  rw [hmemory,storeLoop_add hnew,storeLoop_outside _ _ hzero,if_neg hptr]
  by_cases hcopy : i < 256
  · obtain ⟨size,hold,hle,-⟩ := hfile.block hlength
    have hapart := (hfresh s.blocks new_size halloc).2 _ _ hold
    rw [if_pos hcopy,storeLoop_inside _ (fun i => s.memory (node.contents.toNat + i)) (k := i + 1)
      s.memory (by omega) (fun m' hm' j hj => hm' _ ?_) (inside_add (Nat.lt_succ_self i)),
      Nat.add_sub_cancel_left]
    unfold Inside
    unfold Apart at hapart
    omega
  · rw [if_neg hcopy,storeLoop_outside]
    unfold Inside
    omega

variable {bytes : List Uint8} {offset count : Uint32}

theorem Backing.address (hfile : Backing s node bytes) {n : ℕ}
    (hfits : offset.toNat + n ≤ bytes.length) :
    node.contents.toNat + offset.toNat + n ≤ 2 ^ 32 := by
  have hinside := hfile.inside
  have hlength := hfile.length
  omega

theorem Backing.keep (hfile : Backing s node bytes) (hoffset : offset.toNat ≤ bytes.length)
    (hsize : offset.toNat + count.toNat < 2 ^ 32) (hkeep : ¬ offset + count > node.length)
    (buf : ℕ → Uint8) :
    Backing (memcpyFrom s (node.contents + offset).toNat buf count.toNat) node
      (overwrite 0#8 bytes offset.toNat ((List.range count.toNat).map buf)) := by
  have hfits : offset.toNat + count.toNat ≤ bytes.length := by
    rw [← hfile.length,← BitVec.toNat_add_of_lt hsize]
    exact Nat.le_of_not_lt fun hlt => hkeep (BitVec.lt_def.mpr hlt)
  have hstored := (loadBytes_overwrite s.memory node.contents.toNat 0#8 buf count.toNat
    hoffset).mpr fun k hk _ =>
      (loadBytes_eq_iff.mp hfile.bytes).2 k (hfile.length.symm ▸ hk)
  rw [max_eq_left hfits,← hfile.length,← storeLoop_add (hfile.address hfits)] at hstored
  refine ⟨?_,hstored,hfile.null,hfile.block⟩
  rw [overwrite_length,List.length_map,List.length_range,max_eq_left hfits]
  exact hfile.length

-- what the new block holds below the offset past the 256 bytes that krealloc copies
def BlockCopied (alloc : Allocator) (s : KernelState) (node : FsNode) (offset count : Uint32) :
    Prop :=
  ∀ k, 256 ≤ k → k < offset.toNat →
    s.memory ((alloc s.blocks (offset + count)).toNat + k) = s.memory (node.contents.toNat + k)

theorem blockCopied_iff (hfile : Backing s node bytes) (hoffset : offset.toNat ≤ bytes.length)
    (hmore : bytes.length < offset.toNat + count.toNat) {m : Memory Uint8}
    (hm : ∀ k < node.length.toNat, m ((alloc s.blocks (offset + count)).toNat + k) =
      if k < 256 then s.memory (node.contents.toNat + k)
      else s.memory ((alloc s.blocks (offset + count)).toNat + k)) :
    (∀ k < bytes.length, ¬ (offset.toNat ≤ k ∧ k < offset.toNat + count.toNat) →
      bytes[k]? = some (m ((alloc s.blocks (offset + count)).toNat + k))) ↔
        BlockCopied alloc s node offset count := by
  have hlength := hfile.length
  have hold : ∀ k < bytes.length, bytes[k]? = some (s.memory (node.contents.toNat + k)) :=
    fun k hk => (loadBytes_eq_iff.mp hfile.bytes).2 k (hlength ▸ hk)
  constructor
  · intro hall k hlow hk
    have hk' := hall k (by omega) (by omega)
    rw [hold k (by omega),hm k (by omega),if_neg (by omega)] at hk'
    exact (Option.some.inj hk').symm
  · intro hcopy k hk hout
    rw [hold k hk,hm k (by omega)]
    by_cases hlow : k < 256
    · rw [if_pos hlow]
    · rw [if_neg hlow,hcopy k (by omega) (by omega)]

theorem Backing.grow (hfresh : FreshBlocks alloc) (hfile : Backing s node bytes)
    (hoffset : offset.toNat ≤ bytes.length) (hsize : offset.toNat + count.toNat < 2 ^ 32)
    (hgrow : offset + count > node.length) (halloc : alloc s.blocks (offset + count) ≠ 0#32)
    (buf : ℕ → Uint8) : ∃ t, resize alloc s p node (offset + count) =
        some (t,grownNode node (alloc s.blocks (offset + count)) (offset + count)) ∧
      t.nodes = s.nodes.set p
        (grownNode node (alloc s.blocks (offset + count)) (offset + count)) ∧
      t.fd_table = s.fd_table ∧
      (BlockCopied alloc s node offset count →
        Backing (memcpyFrom t (alloc s.blocks (offset + count) + offset).toNat buf
          count.toNat) (grownNode node (alloc s.blocks (offset + count)) (offset + count))
            (overwrite 0#8 bytes offset.toNat ((List.range count.toNat).map buf))) ∧
      (loadBytes (memcpyFrom t (alloc s.blocks (offset + count) + offset).toNat buf
          count.toNat).memory (alloc s.blocks (offset + count)).toNat (offset + count).toNat =
            overwrite 0#8 bytes offset.toNat ((List.range count.toNat).map buf) →
        BlockCopied alloc s node offset count) := by
  obtain ⟨t,hresize,hnodes,-,hfds,hblocks,hcopied⟩ :=
    resize_grow (p := p) hfresh hfile hgrow halloc
  have hnew := BitVec.toNat_add_of_lt hsize
  have hmore : bytes.length < offset.toNat + count.toNat := by
    rw [← hfile.length,← hnew]
    exact BitVec.lt_def.mp hgrow
  have hend := (hfresh s.blocks (offset + count) halloc).1
  have hstored := loadBytes_overwrite t.memory (alloc s.blocks (offset + count)).toNat 0#8 buf
    count.toNat hoffset
  rw [max_eq_right hmore.le,blockCopied_iff hfile hoffset hmore hcopied,← hnew,
    ← storeLoop_add (by omega)] at hstored
  refine ⟨t,hresize,hnodes,hfds,fun hcopy => ⟨?_,hstored.mpr hcopy,fun hnull => absurd hnull halloc,
    fun _ => ⟨_,?_,le_rfl,hend⟩⟩,hstored.mp⟩
  · rw [overwrite_length,List.length_map,List.length_range,max_eq_right hmore.le]
    exact hnew
  · have hmem : (alloc s.blocks (offset + count),offset + count) ∈ t.blocks :=
      hblocks ▸ List.mem_cons_self
    exact hmem

end Resize

section Results

variable {hooks : Hooks} {alloc : Allocator} {s : KernelState} {p : NodePtr} {node : FsNode}
  {bytes : List Uint8} {fd : ℤ} {i : Fin 32}

variable (hooks) in
theorem syscallRead_plain (h : ContentsBacked s p node bytes) (hfd : fdIndex fd = some i)
    (hopens : Opens (s.fd_table.get i) p) (hi : 3 ≤ i.val)
    (hoffset : (s.fd_table.get i).offset.toNat ≤ bytes.length) (count : Uint32) :
    ∃ n data, syscallRead hooks s fd count = some (s.setFd i
        { s.fd_table.get i with offset := (s.fd_table.get i).offset + n },n,data) ∧
      data = slice bytes (s.fd_table.get i).offset.toNat count.toNat ∧ n.toNat = data.length := by
  have hstdin : i ≠ 0 := by
    rintro rfl
    simp at hi
  simp only [syscallRead,hfd,hopens.1,hopens.2,h.found,h.plain.read,Bool.true_eq_false,if_neg hstdin,
    if_neg h.plain.readable,if_false,Option.bind_eq_bind,Option.bind_some]
  have hlength := h.length
  by_cases hnull : node.contents = 0#32
  · have hempty : bytes = [] := by
      rw [h.null hnull] at hlength
      exact List.length_eq_zero_iff.mp hlength.symm
    simp only [hnull,ne_eq,not_true_eq_false,if_false]
    exact ⟨_,_,rfl,by simp [hempty,slice],rfl⟩
  · simp only [ne_eq,hnull,not_false_eq_true,if_true]
    refine ⟨_,_,rfl,?_,by rw [loadBytes_length]⟩
    have hremaining : (node.length - (s.fd_table.get i).offset).toNat =
        bytes.length - (s.fd_table.get i).offset.toNat := by
      rw [BitVec.toNat_sub_of_le (BitVec.le_def.mpr (hlength ▸ hoffset)),hlength]
    have hfits : (s.fd_table.get i).offset.toNat + (if count > node.length -
        (s.fd_table.get i).offset then node.length - (s.fd_table.get i).offset else
          count).toNat ≤ bytes.length := by
      split <;> bv_omega
    rw [loadBytes_add (h.backing.address hfits),loadBytes_slice h.bytes (hlength ▸ hfits)]
    split
    · next hgt =>
      rw [hremaining,slice,slice,List.take_of_length_le (by simp),List.take_of_length_le]
      rw [List.length_drop,← hremaining]
      bv_omega
    · rfl

theorem finish_eq (hnode : s.nodes[p]? = some node) (n : Uint32) :
    syscallWrite.finish s i p n = some ((s.setFd i { s.fd_table.get i with
      offset := (s.fd_table.get i).offset + n }).setNode p
        { node with modified_time := s.tick_count },n) := by
  simp only [syscallWrite.finish,setFd_nodes,hnode,Option.bind_eq_bind,Option.bind_some]
  rfl

-- the write after the checks, once it is known how the file was resized
theorem syscallWrite_resized (hfile : OnFile s fd i p node) (hout : ¬ (i = 1 ∨ i = 2))
    (hwrite : node.write = none) (hmask : node.mask &&& fsPermWrite ≠ 0#32) (buf : ℕ → Uint8)
    (count : Uint32) :
    syscallWrite hooks alloc s fd buf count =
      match resize alloc s p node ((s.fd_table.get i).offset + count) with
      | none => some ((krealloc alloc s node.contents ((s.fd_table.get i).offset + count)).1.print
          "ERROR: File could not be resized - insufficient memory\n".toList,failed)
      | some (t,node') => syscallWrite.finish
          (memcpyFrom t (node'.contents + (s.fd_table.get i).offset).toNat buf count.toNat)
          i p count := by
  rw [syscallWrite_served hfile hout hmask]
  cases hresize : resize alloc s p node ((s.fd_table.get i).offset + count) with
  | none => simp only [writeBody,hwrite,hresize]
  | some r => simp only [writeBody,hwrite,hresize]

theorem syscallWrite_full (hfile : OnFile s fd i p node) (hout : ¬ (i = 1 ∨ i = 2))
    (hwrite : node.write = none) (hmask : node.mask &&& fsPermWrite ≠ 0#32) (buf : ℕ → Uint8)
    {count : Uint32} (hgrow : (s.fd_table.get i).offset + count > node.length)
    (hnull : alloc s.blocks ((s.fd_table.get i).offset + count) = 0#32) :
    syscallWrite hooks alloc s fd buf count =
      some (s.print "ERROR: File could not be resized - insufficient memory\n".toList,failed) := by
  rw [syscallWrite_resized hfile hout hwrite hmask,resize_null hgrow hnull,
    krealloc_null alloc s _ (grown_ne_zero hgrow) hnull]

theorem syscallClose_plain (hclose : ∀ hook s p, hooks.close hook s p = some s)
    (h : ContentsBacked s p node bytes) (hfd : fdIndex fd = some i)
    (hopens : Opens (s.fd_table.get i) p) (hi : 3 ≤ i.val) :
    syscallClose hooks s fd = some (s.setFd i ⟨false,none,0#32⟩,0) := by
  have hstd : ¬ i.val ≤ 2 := by omega
  simp only [syscallClose,hfd,hopens.1,hopens.2,h.found,if_neg hstd,Bool.true_eq_false,if_false,
    Option.bind_eq_bind,Option.bind_some]
  cases node.close with
  | none => rfl
  | some hook => simp only [hclose,Option.bind_some]

theorem truncateNode_plain (h : ContentsBacked s p node bytes) :
    ∃ t node', truncateNode hooks s p node = some t ∧ ContentsBacked t p node' [] ∧
      t.fd_table = s.fd_table := by
  simp only [truncateNode,h.plain.truncate]
  by_cases hshows : node.length > 0#32 ∧ node.contents ≠ 0#32
  · rw [if_pos hshows]
    refine ⟨_,_,rfl,⟨setNode_self h.found,?_,rfl,rfl,fun _ => rfl,fun hne => absurd rfl hne⟩,rfl⟩
    exact ⟨h.plain.type,h.plain.read,h.plain.write,rfl,h.plain.readable,h.plain.writable⟩
  · rw [if_neg hshows]
    have hzero : node.length = 0#32 := by
      by_contra hne
      refine hshows ⟨?_,fun hnull => hne (h.null hnull)⟩
      bv_omega
    have hempty : bytes = [] := by
      have hlength := h.length
      rw [hzero] at hlength
      exact List.length_eq_zero_iff.mp hlength.symm
    exact ⟨s,node,rfl,hempty ▸ h,rfl⟩

end Results

end KluxOS.Syscall
