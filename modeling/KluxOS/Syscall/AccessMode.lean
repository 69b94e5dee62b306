import KluxOS.Syscall.DescriptorTable

namespace KluxOS.Syscall

open ByteMemory ByteSequence KernelState Fs Run

-- the kernel and the flags each descriptor was opened with, which the table does not keep
structure ModeRun where
  state : KernelState
  modes : Fin 32 → Option Uint32

def setMode (modes : Fin 32 → Option Uint32) (fd : ℤ) (mode : Option Uint32) :
    Fin 32 → Option Uint32 :=
  fun i => if fdIndex fd = some i then mode else modes i

def modeStep (hooks : Hooks) (alloc : Allocator) (r : ModeRun) : FdCall → Option ModeRun
  | .open_ pathname flags => (syscallOpen hooks alloc r.state pathname flags).map fun x =>
      ⟨x.1,setMode r.modes x.2 (some flags)⟩
  | .read fd count => (syscallRead hooks r.state fd count).map fun x => ⟨x.1,r.modes⟩
  | .write fd buf count => (syscallWrite hooks alloc r.state fd buf count).map fun x =>
      ⟨x.1,r.modes⟩
  | .close fd => (syscallClose hooks r.state fd).map fun x =>
      ⟨x.1,if x.2 = 0 then setMode r.modes fd none else r.modes⟩

structure FileKept (s u : KernelState) (i : Fin 32) : Prop where
  offset : (u.fd_table.get i).offset = (s.fd_table.get i).offset
  file : ∀ p node, (s.fd_table.get i).node = some p → s.nodes[p]? = some node →
    ∃ node', u.nodes[p]? = some node' ∧ node'.length = node.length ∧
      node'.created_time = node.created_time ∧ node'.modified_time = node.modified_time ∧
      loadBytes u.memory node'.contents.toNat node'.length.toNat =
        loadBytes s.memory node.contents.toNat node.length.toNat

def OpenedWithout (flag : Uint32) (r : ModeRun) (fd : ℤ) (i : Fin 32) : Prop :=
  fdIndex fd = some i ∧ ∃ flags, r.modes i = some flags ∧ flags &&& flag = 0#32

-- a call the descriptor's mode does not allow fails and changes nothing of the file
def Enforced (hooks : Hooks) (alloc : Allocator) (r : ModeRun) : FdCall → Prop
  | .write fd buf count => ∀ i, OpenedWithout oWronly r fd i → ∃ u,
      syscallWrite hooks alloc r.state fd buf count = some (u,failed) ∧ FileKept r.state u i
  | .read fd count => ∀ i, OpenedWithout oRdonly r fd i → ∃ u data,
      syscallRead hooks r.state fd count = some (u,failed,data) ∧ FileKept r.state u i
  | _ => True

-- the node's mask refuses the call, or there is no memory for a longer file
def Refused (alloc : Allocator) (r : ModeRun) : FdCall → Prop
  | .write fd _ count => ∀ i, OpenedWithout oWronly r fd i → ∃ p node,
      (r.state.fd_table.get i).node = some p ∧ r.state.nodes[p]? = some node ∧
      (node.mask &&& fsPermWrite = 0#32 ∨
        node.write = none ∧ (r.state.fd_table.get i).offset + count > node.length ∧
          alloc r.state.blocks ((r.state.fd_table.get i).offset + count) = 0#32)
  | .read fd _ => ∀ i, OpenedWithout oRdonly r fd i → ∃ p node,
      (r.state.fd_table.get i).node = some p ∧ r.state.nodes[p]? = some node ∧
      node.mask &&& fsPermRead = 0#32
  | _ => True

-- a descriptor with a mode is an open one past the standard descriptors
def ModesOpen (r : ModeRun) : Prop :=
  ∀ i flags, r.modes i = some flags → 3 ≤ i.val ∧ ∃ p, Opens (r.state.fd_table.get i) p

section Mode

variable {hooks : Hooks} {alloc : Allocator} {s t u : KernelState} {p : NodePtr} {node : FsNode}
  {fd : ℤ} {i : Fin 32} {count n : Uint32} {buf : ℕ → Uint8}

theorem fileKept_print (text : CString) : FileKept s (s.print text) i :=
  ⟨rfl,fun _ node _ hnode => ⟨node,hnode,rfl,rfl,rfl,rfl⟩⟩

theorem offset_moved {offset : Uint32} (hn : n ≠ 0#32) : offset + n ≠ offset := by
  intro h
  exact hn (by bv_omega)

theorem finish_moves (hfds : (t.fd_table.get i).offset = (s.fd_table.get i).offset)
    (hfinish : syscallWrite.finish t i p n = some (u,failed)) : ¬ FileKept s u i := by
  obtain ⟨rfl,node,-,rfl⟩ := finish_keeps hfinish
  intro hkept
  have hoffset := hkept.offset
  rw [setNode_fd_table,setFd_get,if_pos rfl] at hoffset
  exact offset_moved (by decide) (hoffset.trans hfds.symm)

theorem resize_none (h : resize alloc s p node n = none) :
    n > node.length ∧ alloc s.blocks n = 0#32 := by
  by_cases hgrow : n > node.length
  · refine ⟨hgrow,?_⟩
    by_contra halloc
    obtain ⟨t,ht,-⟩ := resize_block (p := p) hgrow halloc
    rw [ht] at h
    cases h
  · rw [resize_keep hgrow] at h
    cases h

theorem write_kept_iff (hkeep : HooksKeep hooks SameTable) (hfile : OnFile s fd i p node)
    (hi : 3 ≤ i.val) : (∃ u, syscallWrite hooks alloc s fd buf count = some (u,failed) ∧
      FileKept s u i) ↔ node.mask &&& fsPermWrite = 0#32 ∨ node.write = none ∧
        (s.fd_table.get i).offset + count > node.length ∧
          alloc s.blocks ((s.fd_table.get i).offset + count) = 0#32 := by
  have hout := not_standardOut hi
  by_cases hmask : node.mask &&& fsPermWrite = 0#32
  · refine iff_of_true ⟨_,syscallWrite_denied hfile hout hmask,fileKept_print _⟩ (.inl hmask)
  · rw [syscallWrite_served hfile hout hmask,writeBody,or_iff_right hmask]
    cases hwrite : node.write with
    | some hook =>
      refine iff_of_false ?_ (fun h => Option.some_ne_none hook h.1)
      rintro ⟨u,h,hkept⟩
      obtain ⟨⟨t,n⟩,hhook,hfinish⟩ := Option.bind_eq_some_iff.mp h
      have ht := hkeep.write _ _ _ _ _ _ _ _ hhook
      obtain ⟨rfl,-⟩ := finish_keeps hfinish
      exact finish_moves (by rw [ht]) hfinish hkept
    | none =>
      cases hresize : resize alloc s p node ((s.fd_table.get i).offset + count) with
      | none =>
        obtain ⟨hgrow,halloc⟩ := resize_none hresize
        simp only
        refine iff_of_true ⟨_,rfl,?_⟩ ⟨trivial,hgrow,halloc⟩
        rw [krealloc_null alloc s _ (grown_ne_zero hgrow) halloc]
        exact fileKept_print _
      | some r =>
        refine iff_of_false ?_ ?_
        · rintro ⟨u,hfinish,hkept⟩
          obtain ⟨rfl,-⟩ := finish_keeps hfinish
          exact finish_moves (by rw [memcpyFrom,(resize_keeps hresize).1]) hfinish hkept
        · rintro ⟨-,hgrow,halloc⟩
          rw [resize_null hgrow halloc] at hresize
          cases hresize

theorem read_kept_iff (hkeep : HooksKeep hooks SameTable) (hfile : OnFile s fd i p node)
    (hi : 3 ≤ i.val) : (∃ u data, syscallRead hooks s fd count = some (u,failed,data) ∧
      FileKept s u i) ↔ node.mask &&& fsPermRead = 0#32 := by
  have hstdin := not_standardIn hi
  by_cases hmask : node.mask &&& fsPermRead = 0#32
  · exact iff_of_true ⟨_,_,syscallRead_denied hfile hstdin hmask,fileKept_print _⟩ hmask
  · refine iff_of_false ?_ hmask
    rintro ⟨u,data,h,hkept⟩
    rw [syscallRead_served hfile hstdin hmask] at h
    obtain ⟨⟨t,n,bytes⟩,hbody,h⟩ := Option.bind_eq_some_iff.mp h
    have ht : SameTable s t := readBody_keeps (fun _ => rfl)
      (fun hook => hkeep.read hook _ _ _ _ _ _ _) hbody
    cases h
    have hoffset := hkept.offset
    rw [setFd_get,if_pos rfl,ht] at hoffset
    exact offset_moved (show failed ≠ 0#32 by decide) hoffset

end Mode

section Run

variable {hooks : Hooks} {alloc : Allocator} {r r' : ModeRun} {fd : ℤ} {i : Fin 32}

theorem setMode_self {modes : Fin 32 → Option Uint32} {mode : Option Uint32}
    (hfd : fdIndex fd = some i) : setMode modes fd mode i = mode := if_pos hfd

theorem setMode_other {modes : Fin 32 → Option Uint32} {mode : Option Uint32}
    (hfd : fdIndex fd ≠ some i) : setMode modes fd mode i = modes i := if_neg hfd

theorem modeStep_erases (r : ModeRun) (c : FdCall) :
    (modeStep hooks alloc r c).map ModeRun.state = fdStep hooks alloc r.state c := by
  cases c <;> exact Option.map_map ..

theorem modeRun_erases (r : ModeRun) (calls : List FdCall) :
    (run (modeStep hooks alloc) r calls).map ModeRun.state =
      run (fdStep hooks alloc) r.state calls := by
  rw [run_erase ModeRun.state id modeStep_erases,List.map_id]

theorem ModesOpen.of_entries (h : ModesOpen r) (hmodes : r'.modes = r.modes)
    (hentries : ∀ j : Fin 32, (r'.state.fd_table.get j).used = (r.state.fd_table.get j).used ∧
      (r'.state.fd_table.get j).node = (r.state.fd_table.get j).node) : ModesOpen r' := by
  intro j flags hj
  rw [hmodes] at hj
  obtain ⟨hj3,p,hused,hnode⟩ := h j flags hj
  exact ⟨hj3,p,(hentries j).1.trans hused,(hentries j).2.trans hnode⟩

theorem modeStep_open (hkeep : HooksKeep hooks SameTable) {c : FdCall} (hr : ModesOpen r)
    (h : modeStep hooks alloc r c = some r') : ModesOpen r' := by
  cases c with
  | open_ pathname flags =>
    obtain ⟨⟨u,fd⟩,hcall,rfl⟩ := Option.map_eq_some_iff.mp h
    intro j mode hj
    dsimp only at hj ⊢
    rcases open_table hkeep hcall with ⟨rfl,hsame⟩ | ⟨i,p,offset,hfree,rfl,hset,-⟩
    · rw [hsame]
      exact hr j mode hj
    · rw [hset,setFd_get]
      by_cases hji : j = i
      · rw [if_pos hji]
        exact ⟨hji ▸ (findFreeFd_some hfree).1,p,rfl,rfl⟩
      · rw [if_neg hji]
        refine hr j mode ((setMode_other ?_).symm.trans hj)
        rw [fdIndex_val]
        exact fun heq => hji (Option.some.inj heq).symm
  | read fd count =>
    obtain ⟨⟨u,n,data⟩,hcall,rfl⟩ := Option.map_eq_some_iff.mp h
    exact hr.of_entries rfl (read_movesOffset hkeep hcall).entry
  | write fd buf count =>
    obtain ⟨⟨u,n⟩,hcall,rfl⟩ := Option.map_eq_some_iff.mp h
    exact hr.of_entries rfl (write_movesOffset hkeep hcall).entry
  | close fd =>
    obtain ⟨⟨u,n⟩,hcall,rfl⟩ := Option.map_eq_some_iff.mp h
    rcases close_table hkeep hcall with ⟨rfl,hsame⟩ | ⟨rfl,i,hfd,-,-,hset⟩
    · exact hr.of_entries rfl fun j => by rw [hsame]; exact ⟨rfl,rfl⟩
    · intro j mode hj
      dsimp only at hj ⊢
      rw [if_pos rfl] at hj
      by_cases hji : j = i
      · rw [hji,setMode_self hfd] at hj
        cases hj
      · rw [setMode_other (hfd ▸ fun heq => hji (Option.some.inj heq).symm)] at hj
        rw [hset,setFd_get,if_neg hji]
        exact hr j mode hj

theorem exists_node_iff {s : KernelState} {p : NodePtr} {C : FsNode → Prop}
    (hnode : (s.fd_table.get i).node = some p) :
    (∃ q node, (s.fd_table.get i).node = some q ∧ s.nodes[q]? = some node ∧ C node) ↔
      ∃ node, s.nodes[p]? = some node ∧ C node := by
  constructor
  · rintro ⟨q,node,hq,hfound⟩
    obtain rfl := Option.some.inj (hnode.symm.trans hq)
    exact ⟨node,hfound⟩
  · rintro ⟨node,hfound⟩
    exact ⟨p,node,hnode,hfound⟩

theorem enforced_iff (hkeep : HooksKeep hooks SameTable) (hr : ModesOpen r) (c : FdCall) :
    Enforced hooks alloc r c ↔ Refused alloc r c := by
  cases c with
  | open_ pathname flags => exact Iff.rfl
  | close fd => exact Iff.rfl
  | write fd buf count =>
    refine forall_congr' fun i => imp_congr_right fun hwithout => ?_
    obtain ⟨hfd,flags,hmode,-⟩ := hwithout
    obtain ⟨hi,p,hopens⟩ := hr i flags hmode
    rw [exists_node_iff hopens.2]
    cases hfound : r.state.nodes[p]? with
    | none =>
      rw [syscallWrite_missing hfd hopens (not_standardOut hi) hfound]
      simp
    | some node =>
      rw [write_kept_iff hkeep ⟨hfd,hopens,hfound⟩ hi]
      simp
  | read fd count =>
    refine forall_congr' fun i => imp_congr_right fun hwithout => ?_
    obtain ⟨hfd,flags,hmode,-⟩ := hwithout
    obtain ⟨hi,p,hopens⟩ := hr i flags hmode
    rw [exists_node_iff hopens.2]
    cases hfound : r.state.nodes[p]? with
    | none =>
      rw [syscallRead_missing hfd hopens (not_standardIn hi) hfound]
      simp
    | some node =>
      rw [read_kept_iff hkeep ⟨hfd,hopens,hfound⟩ hi]
      simp

theorem access_mode_enforced (hkeep : HooksKeep hooks SameTable) (hr : ∀ i, r.modes i = none)
    (calls : List FdCall) :
    Every (modeStep hooks alloc) (fun r c _ => Enforced hooks alloc r c) r calls ↔
      Every (modeStep hooks alloc) (fun r c _ => Refused alloc r c) r calls := by
  have hinit : ModesOpen r := fun i flags hi => by
    rw [hr i] at hi
    cases hi
  exact every_iff_of hinit (every_of_forall r fun c _ => trivial)
    (fun r c hr _ => enforced_iff hkeep hr c) fun r c r' hr _ _ h => modeStep_open hkeep hr h

end Run

section Example

def modeRun (s : KernelState) : ModeRun := ⟨s,fun _ => none⟩

theorem modeRun_opens {s : KernelState} (h : SameTree plainRoot s) {node : FsNode}
    (hnode : s.nodes[1]? = some node) (htype : node.type = .file)
    (hfree : findFreeFd s = some 3) :
    modeStep treeHooks constantAllocator (modeRun s) (.open_ (some ['a']) oRdonly) =
      some ⟨s.setFd 3 ⟨true,some 1,0#32⟩,setMode (fun _ => none) 3 (some oRdonly)⟩ :=
  Option.map_eq_some_iff.mpr
    ⟨_,plainRoot_opens h hnode htype (by decide) hfree constantAllocator,rfl⟩

-- a file made by open has no write permission, so its mask refuses the write
theorem access_mode_enforced_created :
    Every (modeStep treeHooks constantAllocator)
      (fun r c _ => Enforced treeHooks constantAllocator r c) (modeRun rootWithFile)
      [.open_ (some ['a']) oRdonly,.write 3 (fun _ => 0#8) 4#32] := by
  refine (access_mode_enforced (treeHooks_keep fun _ => rfl) (fun _ => rfl) _).mpr
    ⟨trivial,fun r hr => ⟨?_,fun _ _ => trivial⟩⟩
  have hopened := modeRun_opens (s := rootWithFile) ⟨rfl,rfl⟩ rfl rfl (by decide)
  obtain rfl := Option.some.inj (hopened.symm.trans hr)
  rintro i ⟨hfd,-⟩
  cases hfd
  exact ⟨1,_,rfl,rfl,.inl (by decide)⟩

-- four bytes are stored through a descriptor that was opened for reading
theorem readonly_descriptor_writes :
    ¬ Every (modeStep treeHooks constantAllocator)
      (fun r c _ => Enforced treeHooks constantAllocator r c) (modeRun plainRoot)
      [.open_ (some ['a']) oRdonly,.write 3 (fun _ => 0#8) 4#32] := by
  rintro ⟨-,hwrite⟩
  have hopened := modeRun_opens (SameTree.refl plainRoot) rfl rfl (by decide)
  obtain ⟨u,hcall,-⟩ := (hwrite _ hopened).1 3 ⟨rfl,oRdonly,rfl,by decide⟩
  have hfour : (syscallWrite treeHooks constantAllocator (plainRoot.setFd 3 ⟨true,some 1,0#32⟩) 3
      (fun _ => 0#8) 4#32).map Prod.snd = some 4#32 := by decide
  rw [hcall] at hfour
  cases hfour

end Example

end KluxOS.Syscall
