import KluxOS.Syscall.ReadBounds

namespace KluxOS.Syscall

open ByteMemory KernelState Fs

def BlockOf (s : KernelState) (contents size : Uint32) : Prop :=
  contents = 0#32 ∧ size = 0#32 ∨ (contents,size) ∈ s.blocks

-- less than size bytes behind contents, in 32-bit addresses
def InBlock (contents size : Uint32) (x : ℕ) : Prop := BitVec.ofNat 32 x - contents < size

-- u is s after a write of count bytes: no byte outside the block of the file has changed, and the
-- file reaches to the last byte written
def StaysInBuffer (s u : KernelState) (i : Fin 32) (p : NodePtr) (count : Uint32) : Prop :=
  ∃ node size, u.nodes[p]? = some node ∧ BlockOf u node.contents size ∧
    (∀ x, ¬ InBlock node.contents size x → u.memory x = s.memory x) ∧
    (s.fd_table.get i).offset.toNat + count.toNat ≤ node.length.toNat

structure FailsUnchanged (s u : KernelState) (r : Uint32) : Prop where
  status : r = failed
  nodes : u.nodes = s.nodes
  fd_table : u.fd_table = s.fd_table
  memory : u.memory = s.memory

-- the 32-bit sum does not wrap, or the call is refused
def SumFits (alloc : Allocator) (s : KernelState) (node : FsNode) (offset count : Uint32) : Prop :=
  node.mask &&& fsPermWrite = 0#32 ∨ offset.toNat + count.toNat < 2 ^ 32 ∨
    (offset + count > node.length ∧ alloc s.blocks (offset + count) = 0#32)

section Block

variable {contents offset size : Uint32} {x : ℕ}

-- for a block that ends inside the address space these are its addresses
theorem inBlock_iff (h : contents.toNat + size.toNat ≤ 2 ^ 32) (hx : x < 2 ^ 32) :
    InBlock contents size x ↔ Inside contents.toNat size.toNat x := by
  unfold InBlock Inside
  rw [BitVec.lt_def,BitVec.toNat_sub,BitVec.toNat_ofNat,Nat.mod_eq_of_lt hx]
  omega

-- n bytes from an offset on, as far as the block reaches
theorem not_inside_of_block (h : ¬ InBlock contents size x) {n : ℕ}
    (hfits : offset.toNat + n ≤ size.toNat) : ¬ Inside (contents + offset).toNat n x := by
  unfold InBlock at h
  unfold Inside
  rw [BitVec.lt_def,BitVec.toNat_sub,BitVec.toNat_ofNat] at h
  rw [BitVec.toNat_add]
  omega

end Block

section Stored

variable {s t : KernelState} {p : NodePtr} {node node' : FsNode} {i : Fin 32} {count : Uint32}

-- the copy and the new offset and time, on the file in t
theorem finish_stored (hnode : t.nodes[p]? = some node') (i : Fin 32) (count : Uint32)
    (buf : ℕ → Uint8) (dest : ℕ) :
    ∃ u, syscallWrite.finish (memcpyFrom t dest buf count.toNat) i p count = some (u,count) ∧
      u.nodes[p]? = some { node' with modified_time := t.tick_count } ∧ u.blocks = t.blocks ∧
      u.memory = storeLoop (fun _ j => buf j) dest count.toNat t.memory ∧
      (u.fd_table.get i).offset = (t.fd_table.get i).offset + count := by
  refine ⟨_,finish_eq (s := memcpyFrom t dest buf count.toNat) hnode count,
    setNode_self (n := node') hnode,rfl,rfl,?_⟩
  rw [setNode_fd_table,setFd_get,if_pos rfl]
  rfl

theorem finish_stays {u : KernelState} {size : Uint32} {buf : ℕ → Uint8}
    (hblock : BlockOf t node'.contents size)
    (hframe : ∀ x, ¬ InBlock node'.contents size x → t.memory x = s.memory x)
    (hsize : (s.fd_table.get i).offset.toNat + count.toNat ≤ size.toNat)
    (hlength : (s.fd_table.get i).offset.toNat + count.toNat ≤ node'.length.toNat)
    (hnode : u.nodes[p]? = some { node' with modified_time := t.tick_count })
    (hblocks : u.blocks = t.blocks)
    (hmemory : u.memory = storeLoop (fun _ j => buf j)
      (node'.contents + (s.fd_table.get i).offset).toNat count.toNat t.memory) :
    StaysInBuffer s u i p count := by
  refine ⟨_,size,hnode,?_,fun x hx => ?_,hlength⟩
  · rw [BlockOf,hblocks]
    exact hblock
  · have hx : ¬ InBlock node'.contents size x := hx
    rw [hmemory,storeLoop_outside _ _ (not_inside_of_block hx hsize),hframe x hx]

end Stored

section Write

variable (hooks : Hooks) {alloc : Allocator} {s : KernelState} {fd : ℤ} {i : Fin 32} {p : NodePtr}
  {node : FsNode} {count : Uint32}

theorem write_refused (hfile : OnFile s fd i p node) (hout : ¬ (i = 1 ∨ i = 2))
    (hwrite : node.write = none) (hmask : node.mask &&& fsPermWrite ≠ 0#32) (buf : ℕ → Uint8)
    (hgrow : (s.fd_table.get i).offset + count > node.length)
    (hnull : alloc s.blocks ((s.fd_table.get i).offset + count) = 0#32) :
    ∃ u r, syscallWrite hooks alloc s fd buf count = some (u,r) ∧ FailsUnchanged s u r := by
  rw [syscallWrite_full hfile hout hwrite hmask buf hgrow hnull]
  exact ⟨_,_,rfl,rfl,rfl,rfl,rfl⟩

-- into the new block, which starts with the old contents and is zero up to the offset
theorem write_grows (hfile : OnFile s fd i p node) (hout : ¬ (i = 1 ∨ i = 2))
    (hwrite : node.write = none) (hmask : node.mask &&& fsPermWrite ≠ 0#32) (buf : ℕ → Uint8)
    (hfits : (s.fd_table.get i).offset.toNat + count.toNat < 2 ^ 32)
    (hgrow : (s.fd_table.get i).offset + count > node.length)
    (hblock : alloc s.blocks ((s.fd_table.get i).offset + count) ≠ 0#32) :
    ∃ u r, syscallWrite hooks alloc s fd buf count = some (u,r) ∧ StaysInBuffer s u i p count := by
  have hsum := BitVec.toNat_add_of_lt hfits
  obtain ⟨t,hresize,hnodes,-,hfds,hblocks,hmemory⟩ := resize_block (p := p) hgrow hblock
  have hnode : t.nodes[p]? = some (grownNode node
      (alloc s.blocks ((s.fd_table.get i).offset + count))
      ((s.fd_table.get i).offset + count)) := by
    rw [hnodes,List.getElem?_set_self (lt_of_node hfile.found)]
  obtain ⟨u,hu,hfound,hublocks,humemory,-⟩ := finish_stored hnode i count buf
    (alloc s.blocks ((s.fd_table.get i).offset + count) + (s.fd_table.get i).offset).toNat
  rw [syscallWrite_resized hfile hout hwrite hmask,hresize]
  refine ⟨u,count,hu,finish_stays (.inr (hblocks ▸ List.mem_cons_self)) ?_ hsum.ge hsum.ge
    hfound hublocks humemory⟩
  intro x hx
  have hlt := BitVec.lt_def.mp hgrow
  have hx : ¬ InBlock (alloc s.blocks ((s.fd_table.get i).offset + count))
    ((s.fd_table.get i).offset + count) x := hx
  rw [hmemory,storeLoop_outside _ _ (not_inside_of_block hx (by omega))]
  split
  · rfl
  · have hcopied : ¬ Inside (alloc s.blocks ((s.fd_table.get i).offset + count) + 0#32).toNat
        (min ((s.fd_table.get i).offset + count).toNat 256) x :=
      not_inside_of_block hx (by simp)
    rw [BitVec.add_zero] at hcopied
    exact storeLoop_outside _ _ hcopied

theorem write_in_place (hfile : OnFile s fd i p node) (hout : ¬ (i = 1 ∨ i = 2))
    (hwrite : node.write = none) (hmask : node.mask &&& fsPermWrite ≠ 0#32) (buf : ℕ → Uint8)
    {size : Uint32} (hblock : BlockOf s node.contents size) (hlength : node.length ≤ size)
    (hfits : (s.fd_table.get i).offset.toNat + count.toNat < 2 ^ 32)
    (hkeep : ¬ (s.fd_table.get i).offset + count > node.length) :
    ∃ u r, syscallWrite hooks alloc s fd buf count = some (u,r) ∧ StaysInBuffer s u i p count := by
  have hle : (s.fd_table.get i).offset.toNat + count.toNat ≤ node.length.toNat :=
    BitVec.toNat_add_of_lt hfits ▸ BitVec.le_def.mp (BitVec.not_lt.mp hkeep)
  obtain ⟨u,hu,hfound,hublocks,humemory,-⟩ := finish_stored hfile.found i count buf
    (node.contents + (s.fd_table.get i).offset).toNat
  rw [syscallWrite_resized hfile hout hwrite hmask,resize_keep hkeep]
  exact ⟨u,count,hu,finish_stays hblock (fun _ _ => rfl) (hle.trans (BitVec.le_def.mp hlength)) hle
    hfound hublocks humemory⟩

theorem write_fits (hfile : OnFile s fd i p node) (hout : ¬ (i = 1 ∨ i = 2))
    (hwrite : node.write = none) (hmask : node.mask &&& fsPermWrite ≠ 0#32) (buf : ℕ → Uint8)
    {size : Uint32} (hblock : BlockOf s node.contents size) (hlength : node.length ≤ size)
    (hfits : (s.fd_table.get i).offset.toNat + count.toNat < 2 ^ 32) :
    ∃ u r, syscallWrite hooks alloc s fd buf count = some (u,r) ∧
      (FailsUnchanged s u r ∨ StaysInBuffer s u i p count) := by
  by_cases hgrow : (s.fd_table.get i).offset + count > node.length
  · by_cases hnull : alloc s.blocks ((s.fd_table.get i).offset + count) = 0#32
    · obtain ⟨u,r,hu,hfails⟩ := write_refused hooks hfile hout hwrite hmask buf hgrow hnull
      exact ⟨u,r,hu,.inl hfails⟩
    · obtain ⟨u,r,hu,hstays⟩ := write_grows hooks hfile hout hwrite hmask buf hfits hgrow hnull
      exact ⟨u,r,hu,.inr hstays⟩
  · obtain ⟨u,r,hu,hstays⟩ :=
      write_in_place hooks hfile hout hwrite hmask buf hblock hlength hfits hgrow
    exact ⟨u,r,hu,.inr hstays⟩

-- the file ends before the last byte that is written, and the offset moves
theorem write_wraps (hfile : OnFile s fd i p node) (hout : ¬ (i = 1 ∨ i = 2))
    (hwrite : node.write = none) (hmask : node.mask &&& fsPermWrite ≠ 0#32) (buf : ℕ → Uint8)
    (hwrap : 2 ^ 32 ≤ (s.fd_table.get i).offset.toNat + count.toNat)
    (hroom : ¬ ((s.fd_table.get i).offset + count > node.length ∧
      alloc s.blocks ((s.fd_table.get i).offset + count) = 0#32)) :
    ∃ u r, syscallWrite hooks alloc s fd buf count = some (u,r) ∧
      ¬ (FailsUnchanged s u r ∨ StaysInBuffer s u i p count) := by
  obtain ⟨t,node',hresize,hnode,hfds⟩ : ∃ t node',
      resize alloc s p node ((s.fd_table.get i).offset + count) = some (t,node') ∧
      t.nodes[p]? = some node' ∧ t.fd_table = s.fd_table := by
    by_cases hgrow : (s.fd_table.get i).offset + count > node.length
    · obtain ⟨t,hresize,hnodes,-,hfds,-⟩ := resize_block (p := p) hgrow fun hnull => hroom ⟨hgrow,hnull⟩
      refine ⟨t,_,hresize,?_,hfds⟩
      rw [hnodes,List.getElem?_set_self (lt_of_node hfile.found)]
    · exact ⟨s,node,resize_keep hgrow,hfile.found,rfl⟩
  obtain ⟨u,hu,hfound,-,-,hoffset⟩ := finish_stored hnode i count buf
    (node'.contents + (s.fd_table.get i).offset).toNat
  rw [syscallWrite_resized hfile hout hwrite hmask,hresize]
  refine ⟨u,count,hu,not_or.mpr ⟨fun hfails => ?_,?_⟩⟩
  · rw [hfails.fd_table,hfds] at hoffset
    have hlt := (s.fd_table.get i).offset.isLt
    have hlt' := count.isLt
    bv_omega
  · rintro ⟨m,size,hm,-,-,hreach⟩
    exact absurd (hwrap.trans hreach) (Nat.not_le.mpr m.length.isLt)

theorem write_stays_in_buffer (hfile : OnFile s fd i p node) (hout : ¬ (i = 1 ∨ i = 2))
    (hwrite : node.write = none)
    (hblock : ∃ size, BlockOf s node.contents size ∧ node.length ≤ size) (buf : ℕ → Uint8)
    (count : Uint32) : ∃ u r, syscallWrite hooks alloc s fd buf count = some (u,r) ∧
      ((FailsUnchanged s u r ∨ StaysInBuffer s u i p count) ↔
        SumFits alloc s node (s.fd_table.get i).offset count) := by
  obtain ⟨size,hblock,hlength⟩ := hblock
  by_cases hmask : node.mask &&& fsPermWrite = 0#32
  · rw [syscallWrite_denied hfile hout hmask]
    exact ⟨_,_,rfl,iff_of_true (.inl ⟨rfl,rfl,rfl,rfl⟩) (.inl hmask)⟩
  · by_cases hfits : (s.fd_table.get i).offset.toNat + count.toNat < 2 ^ 32
    · obtain ⟨u,r,hu,hgood⟩ := write_fits hooks hfile hout hwrite hmask buf
        hblock hlength hfits
      exact ⟨u,r,hu,iff_of_true hgood (.inr (.inl hfits))⟩
    · by_cases hroom : (s.fd_table.get i).offset + count > node.length ∧
        alloc s.blocks ((s.fd_table.get i).offset + count) = 0#32
      · obtain ⟨u,r,hu,hfails⟩ :=
          write_refused hooks hfile hout hwrite hmask buf hroom.1 hroom.2
        exact ⟨u,r,hu,iff_of_true (.inl hfails) (.inr (.inr hroom))⟩
      · obtain ⟨u,r,hu,hbad⟩ := write_wraps hooks hfile hout hwrite hmask buf
          (Nat.le_of_not_lt hfits) hroom
        exact ⟨u,r,hu,iff_of_false hbad fun h => h.elim hmask fun h => h.elim hfits hroom⟩

end Write

-- the four bytes of /a in a block of that size, and descriptor 3 at offset 2
def fourByteBlock : KernelState :=
  { fourByteRoot with blocks := [(0x200000#32,4#32)] }.setFd 3 ⟨true,some 1,2#32⟩

theorem fourByteBlock_opens : OnFile fourByteBlock 3 3 1 fourBytes := ⟨rfl,⟨rfl,rfl⟩,rfl⟩

theorem fourByteBlock_block : ∃ size, BlockOf fourByteBlock fourBytes.contents size ∧
    fourBytes.length ≤ size := ⟨4#32,.inr List.mem_cons_self,BitVec.le_refl _⟩

theorem write_stays_in_buffer_byte : ∃ u r,
    syscallWrite treeHooks constantAllocator fourByteBlock 3 (fun _ => 1#8) 1#32 = some (u,r) ∧
      (FailsUnchanged fourByteBlock u r ∨ StaysInBuffer fourByteBlock u 3 1 1#32) := by
  obtain ⟨u,r,hu,hiff⟩ := write_stays_in_buffer treeHooks fourByteBlock_opens (by decide) rfl
    fourByteBlock_block (fun _ => 1#8) 1#32
  exact ⟨u,r,hu,hiff.mpr (.inr (.inl (by decide)))⟩

-- the byte behind the block is overwritten, and the file keeps its four bytes
theorem wrapped_write_leaves_buffer :
    (∃ size, BlockOf fourByteBlock fourBytes.contents size ∧ fourBytes.length ≤ size) ∧
    fourByteBlock.blocks = [(fourBytes.contents,4#32)] ∧
    ∃ u, syscallWrite treeHooks constantAllocator fourByteBlock 3 (fun _ => 1#8) 0xFFFFFFFF#32 =
        some (u,0xFFFFFFFF#32) ∧ (u.nodes[1]?).map FsNode.length = some 4#32 ∧
      fourByteBlock.memory 0x200004 = 0#8 ∧ u.memory 0x200004 = 1#8 ∧
      ¬ (FailsUnchanged fourByteBlock u 0xFFFFFFFF#32 ∨
        StaysInBuffer fourByteBlock u 3 1 0xFFFFFFFF#32) := by
  have hkeep : resize constantAllocator fourByteBlock 1 fourBytes
      ((fourByteBlock.fd_table.get 3).offset + 0xFFFFFFFF#32) = some (fourByteBlock,fourBytes) :=
    resize_keep (by decide)
  have hnode : fourByteBlock.nodes[1]? = some fourBytes := rfl
  have hcall : syscallWrite treeHooks constantAllocator fourByteBlock 3 (fun _ => 1#8)
      0xFFFFFFFF#32 = _ :=
    syscallWrite_resized fourByteBlock_opens (by decide) rfl (by decide) (fun _ => 1#8) _
  obtain ⟨u,hu,hfound,-,hmemory,-⟩ :=
    finish_stored hnode 3 0xFFFFFFFF#32 (fun _ => 1#8) 0x200002
  obtain ⟨v,r,hv,hbad⟩ : ∃ v r, syscallWrite treeHooks constantAllocator fourByteBlock 3
      (fun _ => 1#8) 0xFFFFFFFF#32 = some (v,r) ∧ ¬ (FailsUnchanged fourByteBlock v r ∨
        StaysInBuffer fourByteBlock v 3 1 0xFFFFFFFF#32) :=
    write_wraps treeHooks fourByteBlock_opens (by decide) rfl (by decide) (fun _ => 1#8) (by decide)
      (by decide)
  rw [hkeep] at hcall
  have hw := hcall.trans hu
  rw [hv] at hw
  cases hw
  refine ⟨fourByteBlock_block,rfl,u,hv,?_,rfl,?_,hbad⟩
  · rw [hfound]
    rfl
  · rw [hmemory]
    exact storeLoop_inside (k := 3) _ (fun _ => 1#8) _ (by decide) (fun _ _ _ _ => rfl) (by decide)

end KluxOS.Syscall
