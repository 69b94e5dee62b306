import KluxOS.Syscall.FileContents
import KluxOS.Syscall.DescriptorTable

namespace KluxOS.Syscall

open ByteMemory ByteSequence KernelState Fs Run

inductive AppendCall where
  | open_ (pathname : CString) (flags : Uint32)
  | write (fd : ℤ) (buf : ℕ → Uint8) (count : Uint32)

-- the kernel, and the initial contents followed by the chunks written so far
structure AppendRun where
  state : KernelState
  written : List Uint8

def appendStep (hooks : Hooks) (alloc : Allocator) (r : AppendRun) : AppendCall → Option AppendRun
  | .open_ pathname flags => (syscallOpen hooks alloc r.state (some pathname) flags).map fun x =>
      ⟨x.1,r.written⟩
  | .write fd buf count => (syscallWrite hooks alloc r.state fd buf count).map fun x =>
      ⟨x.1,if x.2 = failed then r.written else r.written ++ (List.range count.toNat).map buf⟩

def AppendCall.toFdCall : AppendCall → FdCall
  | .open_ pathname flags => .open_ (some pathname) flags
  | .write fd buf count => .write fd buf count

-- O_APPEND opens of the file and writes through its descriptors, 256 bytes in all
def Appends (hooks : Hooks) (p : NodePtr) (r : AppendRun) : AppendCall → Prop
  | .open_ pathname flags => fsResolvePath hooks r.state (some pathname) = some (some p) ∧
      flags &&& oAppend ≠ 0#32 ∧ flags &&& oTrunc = 0#32
  | .write fd _ count => IsDescriptor p r.state fd ∧ r.written.length + count.toNat ≤ 256

-- a write that needs a longer block when there is none
def NoSpace (alloc : Allocator) (s : KernelState) (node : FsNode) (size : Uint32) : Prop :=
  size > node.length ∧ alloc s.blocks size = 0#32

def AtEnd (alloc : Allocator) (p : NodePtr) (r : AppendRun) : AppendCall → Prop
  | .open_ _ _ => True
  | .write fd _ count => ∀ node, r.state.nodes[p]? = some node → count = 0#32 ∨
      offsetOf r.state fd = node.length ∨
      NoSpace alloc r.state node (offsetOf r.state fd + count)

-- a writable file without a driver, and descriptors that lie inside it
structure AppendFile (p : NodePtr) (s : KernelState) (bytes : List Uint8) : Prop where
  backed : ∃ node, s.nodes[p]? = some node ∧ node.type = .file ∧ node.write = none ∧
    node.mask &&& fsPermWrite ≠ 0#32 ∧ Backing s node bytes
  descriptor : ∀ i : Fin 32, Opens (s.fd_table.get i) p →
    3 ≤ i.val ∧ (s.fd_table.get i).offset.toNat ≤ bytes.length

section Write

variable {hooks : Hooks} {alloc : Allocator} {s t u : KernelState} {p : NodePtr} {node : FsNode}
  {bytes : List Uint8} {fd : ℤ} {i : Fin 32} {offset count : Uint32}

-- the write fails for want of memory, or overwrites the file's bytes at the offset
theorem resize_backing (hfresh : FreshBlocks alloc) (hfile : Backing s node bytes)
    (hoffset : offset.toNat ≤ bytes.length) (hsize : offset.toNat + count.toNat ≤ 256)
    (buf : ℕ → Uint8) : NoSpace alloc s node (offset + count) ∧
      resize alloc s p node (offset + count) = none ∨
        ¬ NoSpace alloc s node (offset + count) ∧
        ∃ t node', resize alloc s p node (offset + count) = some (t,node') ∧
          Backing (memcpyFrom t (node'.contents + offset).toNat buf count.toNat) node'
            (overwrite 0#8 bytes offset.toNat ((List.range count.toNat).map buf)) := by
  by_cases hgrow : offset + count > node.length
  · by_cases halloc : alloc s.blocks (offset + count) = 0#32
    · exact .inl ⟨⟨hgrow,halloc⟩,resize_null hgrow halloc⟩
    · obtain ⟨t,hresize,-,-,hstored,-⟩ :=
        hfile.grow (p := p) hfresh hoffset (by omega) hgrow halloc buf
      -- up to 256 bytes krealloc copies the whole file
      exact .inr ⟨fun h => halloc h.2,t,_,hresize,hstored fun k hlow hk => by omega⟩
  · exact .inr ⟨fun h => hgrow h.1,s,node,resize_keep hgrow,
      hfile.keep hoffset (by omega) hgrow buf⟩

theorem AppendFile.of_same (h : AppendFile p s bytes) (hnodes : u.nodes = s.nodes)
    (hmemory : u.memory = s.memory) (hblocks : u.blocks = s.blocks)
    (hentries : ∀ i : Fin 32, Opens (u.fd_table.get i) p →
      3 ≤ i.val ∧ (u.fd_table.get i).offset.toNat ≤ bytes.length) : AppendFile p u bytes := by
  obtain ⟨node,hfound,htype,hwrite,hmask,hfile⟩ := h.backed
  refine ⟨⟨node,hnodes ▸ hfound,htype,hwrite,hmask,hfile.length,?_,hfile.null,?_⟩,hentries⟩
  · rw [hmemory]
    exact hfile.bytes
  · rw [hblocks]
    exact hfile.block

theorem AppendFile.stored (h : AppendFile p s bytes) (hopens : Opens (s.fd_table.get i) p)
    (hfits : (s.fd_table.get i).offset.toNat + count.toNat ≤ 256) {buf : ℕ → Uint8}
    (hfds : t.fd_table = s.fd_table) (hnode : t.nodes[p]? = some node) (htype : node.type = .file)
    (hwrite : node.write = none) (hmask : node.mask &&& fsPermWrite ≠ 0#32)
    (hfile : Backing t node (overwrite 0#8 bytes (s.fd_table.get i).offset.toNat
      ((List.range count.toNat).map buf))) : ∃ u, syscallWrite.finish t i p count = some (u,count) ∧
        AppendFile p u (overwrite 0#8 bytes (s.fd_table.get i).offset.toNat
          ((List.range count.toNat).map buf)) := by
  refine ⟨_,finish_eq hnode count,⟨_,setNode_self hnode,htype,hwrite,hmask,hfile.length,hfile.bytes,
    hfile.null,hfile.block⟩,fun j hj => ?_⟩
  rw [overwrite_length,List.length_map,List.length_range]
  rw [setNode_fd_table,setFd_get,hfds] at hj ⊢
  by_cases hji : j = i
  · rw [if_pos hji]
    refine ⟨hji ▸ (h.descriptor i hopens).1,?_⟩
    rw [BitVec.toNat_add_of_lt (by omega)]
    exact le_max_right _ _
  · rw [if_neg hji] at hj ⊢
    obtain ⟨hj3,hoffset⟩ := h.descriptor j hj
    exact ⟨hj3,hoffset.trans (le_max_left _ _)⟩

variable (hooks) in
theorem AppendFile.write (hfresh : FreshBlocks alloc) (h : AppendFile p s bytes)
    (hfd : fdIndex fd = some i) (hopens : Opens (s.fd_table.get i) p)
    (hsize : bytes.length + count.toNat ≤ 256) (buf : ℕ → Uint8) :
    ∃ u n node, syscallWrite hooks alloc s fd buf count = some (u,n) ∧
      s.nodes[p]? = some node ∧ node.length.toNat = bytes.length ∧
      (n = failed ∧ NoSpace alloc s node ((s.fd_table.get i).offset + count) ∧
          AppendFile p u bytes ∨
        n = count ∧ ¬ NoSpace alloc s node ((s.fd_table.get i).offset + count) ∧
          AppendFile p u (overwrite 0#8 bytes (s.fd_table.get i).offset.toNat
            ((List.range count.toNat).map buf))) := by
  obtain ⟨node,hfound,htype,hwrite,hmask,hfile⟩ := h.backed
  obtain ⟨hi,hoffset⟩ := h.descriptor i hopens
  have hout := not_standardOut hi
  have hfits : (s.fd_table.get i).offset.toNat + count.toNat ≤ 256 := by omega
  rcases resize_backing (p := p) hfresh hfile hoffset hfits buf with
    ⟨hfull,hresize⟩ | ⟨hspace,t,node',hresize,hfile'⟩
  · rw [syscallWrite_full ⟨hfd,hopens,hfound⟩ hout hwrite hmask buf hfull.1 hfull.2]
    exact ⟨_,_,node,rfl,hfound,hfile.length,.inl ⟨rfl,hfull,h.of_same rfl rfl rfl h.descriptor⟩⟩
  · have hcore : node'.type = node.type ∧ node'.write = node.write ∧ node'.mask = node.mask := by
      rcases (resize_keeps hresize).2 with ⟨-,-,rfl⟩ | ⟨-,hgrown,-⟩
      · exact ⟨rfl,rfl,rfl⟩
      · rw [hgrown]
        exact ⟨rfl,rfl,rfl⟩
    have hnode := resize_found hfound hresize
    obtain ⟨u,hfinish,hu⟩ := h.stored hopens hfits
      (t := memcpyFrom t (node'.contents + (s.fd_table.get i).offset).toNat buf count.toNat)
      (resize_keeps hresize).1 hnode (hcore.1.trans htype) (hcore.2.1.trans hwrite)
      (hcore.2.2 ▸ hmask) hfile'
    rw [syscallWrite_resized ⟨hfd,hopens,hfound⟩ hout hwrite hmask,hresize]
    exact ⟨u,count,node,hfinish,hfound,hfile.length,.inr ⟨rfl,hspace,hu⟩⟩

variable (alloc) in
theorem AppendFile.open_ (hopen : ∀ hook s p, hooks.open_ hook s p = some s)
    (h : AppendFile p s bytes) {pathname : CString} {flags : Uint32}
    (hpath : fsResolvePath hooks s (some pathname) = some (some p))
    (hflags : flags &&& oTrunc = 0#32) : ∃ u fd,
      syscallOpen hooks alloc s (some pathname) flags = some (u,fd) ∧ AppendFile p u bytes := by
  obtain ⟨node,hfound,htype,-,-,hfile⟩ := h.backed
  cases hfree : findFreeFd s with
  | none =>
    rw [syscallOpen_file (openNode_found hpath) hfound htype,if_neg (not_not.mpr hflags),
      Option.bind_some,openFd_full hfree]
    exact ⟨_,_,rfl,h.of_same rfl rfl rfl h.descriptor⟩
  | some i =>
    refine ⟨_,_,syscallOpen_opens hopen hpath hfound htype hflags hfree,
      h.of_same rfl rfl rfl fun j hj => ?_⟩
    rw [setFd_get] at hj ⊢
    by_cases hji : j = i
    · rw [if_pos hji]
      refine ⟨hji ▸ (findFreeFd_some hfree).1,?_⟩
      dsimp only [openEntry]
      split
      · exact hfile.length.le
      · exact Nat.zero_le _
    · rw [if_neg hji] at hj ⊢
      exact h.descriptor j hj

end Write

section Run

variable {hooks : Hooks} {alloc : Allocator} {p : NodePtr}

theorem appendStep_erases (r : AppendRun) (c : AppendCall) :
    (appendStep hooks alloc r c).map AppendRun.state = fdStep hooks alloc r.state c.toFdCall := by
  cases c <;> exact Option.map_map ..

theorem appendRun_erases (r : AppendRun) (calls : List AppendCall) :
    (run (appendStep hooks alloc) r calls).map AppendRun.state =
      run (fdStep hooks alloc) r.state (calls.map AppendCall.toFdCall) :=
  run_erase AppendRun.state AppendCall.toFdCall appendStep_erases r calls

def Appended (p : NodePtr) (r : AppendRun) : Prop := AppendFile p r.state r.written

-- the file is shorter than what was written
def Lost (p : NodePtr) (r : AppendRun) : Prop :=
  ∃ bytes, AppendFile p r.state bytes ∧ bytes.length < r.written.length

theorem Appended.hasBytes {r : AppendRun} (h : Appended p r) : HasBytes r.state p r.written := by
  obtain ⟨node,hfound,-,-,-,hfile⟩ := h.backed
  exact ⟨node,hfound,hfile.length,hfile.bytes⟩

theorem Lost.not_hasBytes {r : AppendRun} (h : Lost p r) : ¬ HasBytes r.state p r.written := by
  obtain ⟨bytes,hfile,hlt⟩ := h
  obtain ⟨node,hfound,-,-,-,hbacking⟩ := hfile.backed
  rintro ⟨node',hfound',hlength,-⟩
  obtain rfl := Option.some.inj (hfound.symm.trans hfound')
  exact absurd (hbacking.length.symm.trans hlength) (Nat.ne_of_lt hlt)

theorem not_failed {k : ℕ} {n : Uint32} (hsize : k + n.toNat ≤ 256) : n ≠ failed := by
  rintro rfl
  exact absurd hsize (by simp [failed])

theorem atEnd_iff {r : AppendRun} {node : FsNode} {fd : ℤ} {buf : ℕ → Uint8} {count : Uint32}
    (hfound : r.state.nodes[p]? = some node)
    (hspace : ¬ NoSpace alloc r.state node (offsetOf r.state fd + count)) :
    AtEnd alloc p r (.write fd buf count) ↔
      (List.range count.toNat).map buf = [] ∨
        (offsetOf r.state fd).toNat = node.length.toNat := by
  have hempty : (List.range count.toNat).map buf = [] ↔ count = 0#32 := by
    rw [List.map_eq_nil_iff,List.range_eq_nil]
    exact ⟨fun hzero => BitVec.eq_of_toNat_eq hzero,fun hzero => hzero ▸ rfl⟩
  rw [hempty]
  constructor
  · intro hend
    rcases hend node hfound with hzero | hat | hfull
    · exact .inl hzero
    · exact .inr (congrArg BitVec.toNat hat)
    · exact absurd hfull hspace
  · intro hend node' hnode'
    obtain rfl := Option.some.inj (hfound.symm.trans hnode')
    exact hend.imp_right fun hat => .inl (BitVec.eq_of_toNat_eq hat)

variable (hopen : ∀ hook s p, hooks.open_ hook s p = some s) (hfresh : FreshBlocks alloc)

include hopen hfresh

theorem appendStep_appended {r : AppendRun} {c : AppendCall} (h : Appended p r)
    (hc : Appends hooks p r c) : ∃ t, appendStep hooks alloc r c = some t ∧
      (AtEnd alloc p r c → Appended p t) ∧ (¬ AtEnd alloc p r c → Lost p t) := by
  cases c with
  | open_ pathname flags =>
    obtain ⟨hpath,-,hflags⟩ := hc
    obtain ⟨u,fd,hcall,hu⟩ := AppendFile.open_ alloc hopen h hpath hflags
    refine ⟨⟨u,r.written⟩,?_,fun _ => hu,fun hnot => absurd trivial hnot⟩
    rw [appendStep,hcall,Option.map_some]
  | write fd buf count =>
    obtain ⟨⟨i,hfd,hopens⟩,hsize⟩ := hc
    have hoff : offsetOf r.state fd = (r.state.fd_table.get i).offset := by
      simp only [offsetOf,hfd]
    obtain ⟨u,n,node,hcall,hfound,hlength,hresult⟩ :=
      AppendFile.write hooks hfresh h hfd hopens hsize buf
    have hrange := (h.descriptor i hopens).2
    refine ⟨⟨u,if n = failed then r.written else r.written ++ (List.range count.toNat).map buf⟩,
      by rw [appendStep,hcall,Option.map_some],?_⟩
    rw [← hoff] at hresult hrange
    rcases hresult with ⟨rfl,hfull,hu⟩ | ⟨rfl,hspace,hu⟩
    · rw [if_pos rfl]
      refine ⟨fun _ => hu,fun hnot => absurd (fun node' hnode' => ?_) hnot⟩
      obtain rfl := Option.some.inj (hfound.symm.trans hnode')
      exact .inr (.inr hfull)
    · rw [if_neg (not_failed hsize),atEnd_iff hfound hspace,hlength]
      refine ⟨fun hend => ?_,fun hnot => ⟨_,hu,overwrite_short 0#8 hrange hnot⟩⟩
      rw [overwrite_append 0#8 hrange hend] at hu
      exact hu

theorem appendStep_lost {r : AppendRun} {c : AppendCall} (h : Lost p r)
    (hc : Appends hooks p r c) : ∃ t, appendStep hooks alloc r c = some t ∧ Lost p t := by
  obtain ⟨bytes,hfile,hlt⟩ := h
  cases c with
  | open_ pathname flags =>
    obtain ⟨hpath,-,hflags⟩ := hc
    obtain ⟨u,fd,hcall,hu⟩ := AppendFile.open_ alloc hopen hfile hpath hflags
    refine ⟨⟨u,r.written⟩,?_,bytes,hu,hlt⟩
    rw [appendStep,hcall,Option.map_some]
  | write fd buf count =>
    obtain ⟨⟨i,hfd,hopens⟩,hsize⟩ := hc
    have hfits : bytes.length + count.toNat ≤ 256 := by omega
    obtain ⟨u,n,node,hcall,-,-,hresult⟩ := hfile.write hooks hfresh hfd hopens hfits buf
    have hrange := (hfile.descriptor i hopens).2
    refine ⟨⟨u,if n = failed then r.written else r.written ++ (List.range count.toNat).map buf⟩,
      by rw [appendStep,hcall,Option.map_some],?_⟩
    rcases hresult with ⟨rfl,-,hu⟩ | ⟨rfl,-,hu⟩
    · rw [if_pos rfl]
      exact ⟨bytes,hu,hlt⟩
    · rw [if_neg (not_failed hsize)]
      refine ⟨_,hu,?_⟩
      rw [overwrite_length,List.length_append,List.length_map,List.length_range]
      omega

theorem appends_kept {s : KernelState} {node : FsNode} {bytes : List Uint8}
    (hfound : s.nodes[p]? = some node) (htype : node.type = .file) (hwrite : node.write = none)
    (hmask : node.mask &&& fsPermWrite ≠ 0#32) (hfile : Backing s node bytes)
    (hunopened : ∀ i : Fin 32, ¬ Opens (s.fd_table.get i) p) {calls : List AppendCall}
    (hcalls : Every (appendStep hooks alloc) (fun r c _ => Appends hooks p r c) ⟨s,bytes⟩ calls) :
    ∃ t, run (appendStep hooks alloc) ⟨s,bytes⟩ calls = some t ∧
      (HasBytes t.state p t.written ↔
        Every (appendStep hooks alloc) (fun r c _ => AtEnd alloc p r c) ⟨s,bytes⟩ calls) := by
  have hinit : Appended p ⟨s,bytes⟩ :=
    ⟨⟨node,hfound,htype,hwrite,hmask,hfile⟩,fun i hi => absurd hi (hunopened i)⟩
  obtain ⟨t,ht,hgood,hbad⟩ := run_damage (fun r c => appendStep_appended hopen hfresh)
    (fun r c => appendStep_lost hopen hfresh) hinit hcalls
  refine ⟨t,ht,fun hhas => ?_,fun hend => (hgood hend).hasBytes⟩
  by_contra hnot
  exact (hbad hnot).not_hasBytes hhas

end Run

section Example

def emptyRun (s : KernelState) : AppendRun := ⟨s,[]⟩

theorem emptyRun_opens {s : KernelState} (h : SameTree plainRoot s) {node : FsNode}
    (hnode : s.nodes[1]? = some node) (htype : node.type = .file) {i : Fin 32}
    (hfree : findFreeFd s = some i) :
    appendStep treeHooks bumpAllocator (emptyRun s) (.open_ ['a'] (oWronly ||| oAppend)) =
      some (emptyRun (s.setFd i (openEntry 1 node (oWronly ||| oAppend)))) :=
  Option.map_eq_some_iff.mpr ⟨_,plainRoot_opens h hnode htype (by decide) hfree bumpAllocator,rfl⟩

theorem appends_kept_one : ∃ t, run (appendStep treeHooks bumpAllocator) (emptyRun plainRoot)
    [.open_ ['a'] (oWronly ||| oAppend),.write 3 (fun _ => 1#8) 1#32] = some t ∧
    (HasBytes t.state 1 t.written ↔ Every (appendStep treeHooks bumpAllocator)
      (fun r c _ => AtEnd bumpAllocator 1 r c) (emptyRun plainRoot)
      [.open_ ['a'] (oWronly ||| oAppend),.write 3 (fun _ => 1#8) 1#32]) := by
  have hopened := emptyRun_opens (SameTree.refl plainRoot) rfl rfl
    (show findFreeFd plainRoot = some 3 by decide)
  have hcalls : Every (appendStep treeHooks bumpAllocator) (fun r c _ => Appends treeHooks 1 r c)
      (emptyRun plainRoot) [.open_ ['a'] (oWronly ||| oAppend),.write 3 (fun _ => 1#8) 1#32] := by
    refine ⟨⟨plainRoot_path (SameTree.refl plainRoot),by decide,by decide⟩,fun r hr => ⟨?_,?_⟩⟩
    · obtain rfl := Option.some.inj (hopened.symm.trans hr)
      exact ⟨⟨3,rfl,rfl,rfl⟩,by decide⟩
    · exact fun _ _ => trivial
  have hempty : Backing plainRoot (plainRoot.nodes.get ⟨1,by decide⟩) [] :=
    ⟨rfl,rfl,fun _ => rfl,fun hne => absurd rfl hne⟩
  exact appends_kept treeHooks_open bumpAllocator_fresh rfl rfl rfl (by decide) hempty
    (zeroed_unopened rfl · 1) hcalls

def openedTwice : KernelState :=
  (plainRoot.setFd 3 ⟨true,some 1,0#32⟩).setFd 4 ⟨true,some 1,0#32⟩

-- the second descriptor writes at the offset it was opened with
theorem second_append_overwrites : ∃ t, run (appendStep treeHooks bumpAllocator)
    (emptyRun plainRoot) [.open_ ['a'] (oWronly ||| oAppend),.open_ ['a'] (oWronly ||| oAppend),
      .write 3 (fun _ => 1#8) 1#32,.write 4 (fun _ => 2#8) 1#32] = some t ∧
    ¬ HasBytes t.state 1 t.written := by
  have hfirst := emptyRun_opens (SameTree.refl plainRoot) rfl rfl
    (show findFreeFd plainRoot = some 3 by decide)
  have hsecond := emptyRun_opens (s := plainRoot.setFd 3 ⟨true,some 1,0#32⟩) ⟨rfl,rfl⟩ rfl rfl
    (show findFreeFd _ = some 4 by decide)
  have hwrites : (run (appendStep treeHooks bumpAllocator) (emptyRun openedTwice)
      [.write 3 (fun _ => 1#8) 1#32,.write 4 (fun _ => 2#8) 1#32]).map (fun t =>
        (t.written.length,t.state.nodes[1]?.map FsNode.length)) = some (2,some 1#32) := by decide
  obtain ⟨t,ht,hlengths⟩ := Option.map_eq_some_iff.mp hwrites
  refine ⟨t,?_,?_⟩
  · exact Option.bind_eq_some_iff.mpr ⟨_,hfirst,Option.bind_eq_some_iff.mpr ⟨_,hsecond,ht⟩⟩
  · rintro ⟨node,hnode,hlength,-⟩
    rw [hnode] at hlengths
    obtain ⟨htwo,hone⟩ := Prod.mk.inj hlengths
    rw [htwo,Option.some.inj hone] at hlength
    cases hlength

end Example

end KluxOS.Syscall
