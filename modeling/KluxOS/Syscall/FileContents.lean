import KluxOS.Fs.Path
import KluxOS.Lib.Run
import KluxOS.Syscall.FileCalls

namespace KluxOS.Syscall

open ByteMemory ByteSequence KernelState Fs

inductive FileCall where
  | open_ (pathname : CString) (flags : Uint32)
  | read (fd : ℤ) (count : Uint32)
  | write (fd : ℤ) (buf : ℕ → Uint8) (count : Uint32)
  | close (fd : ℤ)
  | other (t : KernelState)

-- the kernel and the byte sequence the file is meant to hold
structure FileRun where
  state : KernelState
  bytes : List Uint8

def offsetOf (s : KernelState) (fd : ℤ) : Uint32 :=
  match fdIndex fd with
  | some i => (s.fd_table.get i).offset
  | none => 0#32

section Run

variable (hooks : Hooks) (alloc : Allocator) (p : NodePtr)

def fileStep (r : FileRun) : FileCall → Option FileRun
  | .open_ pathname flags => do
    let (t,fd) ← syscallOpen hooks alloc r.state (some pathname) flags
    some ⟨t,if 0 ≤ fd ∧ flags &&& oTrunc ≠ 0#32 then [] else r.bytes⟩
  | .read fd count => do
    let (t,_,_) ← syscallRead hooks r.state fd count
    some ⟨t,r.bytes⟩
  | .write fd buf count => do
    let (t,n) ← syscallWrite hooks alloc r.state fd buf count
    some ⟨t,if n = failed then r.bytes else
      overwrite 0#8 r.bytes (offsetOf r.state fd).toNat ((List.range count.toNat).map buf)⟩
  | .close fd => do
    let (t,_) ← syscallClose hooks r.state fd
    some ⟨t,r.bytes⟩
  | .other t => some ⟨t,r.bytes⟩

-- code that does not touch the file: its node, its bytes and its descriptors stay
structure Untouched (s t : KernelState) : Prop where
  node : ∀ node, s.nodes[p]? = some node → PlainFile node → ∃ node', t.nodes[p]? = some node' ∧
    PlainFile node' ∧ node'.length = node.length ∧ node'.contents = node.contents ∧
    ∀ x, Inside node.contents.toNat node.length.toNat x → t.memory x = s.memory x
  blocks : ∀ b ∈ s.blocks, b ∈ t.blocks
  descriptors : ∀ i : Fin 32, Opens (s.fd_table.get i) p ∨ Opens (t.fd_table.get i) p →
    t.fd_table.get i = s.fd_table.get i

def IsDescriptor (s : KernelState) (fd : ℤ) : Prop :=
  ∃ i, fdIndex fd = some i ∧ Opens (s.fd_table.get i) p

-- at most one descriptor of the file is open at a time, and sizes stay below 2^31
def Allowed (r : FileRun) : FileCall → Prop
  | .open_ pathname _ => fsResolvePath hooks r.state (some pathname) = some (some p) ∧
      ∀ i : Fin 32, ¬ Opens (r.state.fd_table.get i) p
  | .read fd _ => IsDescriptor p r.state fd
  | .write fd _ count => IsDescriptor p r.state fd ∧ (offsetOf r.state fd).toNat < 2 ^ 31 ∧
      count.toNat < 2 ^ 31
  | .close fd => IsDescriptor p r.state fd
  | .other t => Untouched p r.state t

def Refines (r : FileRun) (call : FileCall) (result : Option FileRun) : Prop :=
  (∃ t, result = some t ∧ HasBytes t.state p t.bytes) ∧
  ∀ fd count, call = .read fd count → ∃ t n data,
    syscallRead hooks r.state fd count = some (t,n,data) ∧
    data = slice r.bytes (offsetOf r.state fd).toNat count.toNat ∧ n.toNat = data.length

-- a block for a longer file already holds what krealloc does not copy into it
def Copied (s : KernelState) (offset count : Uint32) : Prop :=
  ∀ node, s.nodes[p]? = some node → offset + count > node.length → node.contents ≠ 0#32 →
    alloc s.blocks (offset + count) ≠ 0#32 → ∀ k, 256 ≤ k → k < offset.toNat →
      s.memory ((alloc s.blocks (offset + count)).toNat + k) =
        s.memory (node.contents.toNat + k)

def Keeps (r : FileRun) : FileCall → Prop
  | .open_ _ flags => flags &&& oTrunc ≠ 0#32 → findFreeFd r.state = none → r.bytes = []
  | .write fd _ count => Copied alloc p r.state (offsetOf r.state fd) count
  | _ => True

end Run

structure FileInv (p : NodePtr) (r : FileRun) : Prop where
  backed : ∃ node, ContentsBacked r.state p node r.bytes
  single : ∀ i j : Fin 32, Opens (r.state.fd_table.get i) p → Opens (r.state.fd_table.get j) p →
    i = j
  descriptor : ∀ i : Fin 32, Opens (r.state.fd_table.get i) p →
    3 ≤ i.val ∧ (r.state.fd_table.get i).offset.toNat ≤ r.bytes.length

section Invariant

variable {hooks : Hooks} {alloc : Allocator} {s t : KernelState} {p : NodePtr} {node : FsNode}
  {bytes : List Uint8} {fd : ℤ} {i : Fin 32} {count : Uint32}

theorem FileInv.of_only (hbacked : ContentsBacked t p node bytes)
    (hother : ∀ j, j ≠ i → ¬ Opens (t.fd_table.get j) p) (hi : 3 ≤ i.val)
    (hoffset : (t.fd_table.get i).offset.toNat ≤ bytes.length) : FileInv p ⟨t,bytes⟩ := by
  have honly : ∀ j, Opens (t.fd_table.get j) p → j = i := by
    intro j hj
    by_contra hne
    exact hother j hne hj
  refine ⟨⟨node,hbacked⟩,?_,?_⟩
  · intro j k hj hk
    rw [honly j hj,honly k hk]
  · intro j hj
    obtain rfl := honly j hj
    exact ⟨hi,hoffset⟩

theorem FileInv.hasBytes {r : FileRun} (h : FileInv p r) : HasBytes r.state p r.bytes := by
  obtain ⟨node,hbacked⟩ := h.backed
  exact hbacked.hasBytes

theorem FileInv.contents (h : FileInv p ⟨s,bytes⟩) : ∃ node, ContentsBacked s p node bytes := h.backed

theorem FileInv.range (h : FileInv p ⟨s,bytes⟩) (hopens : Opens (s.fd_table.get i) p) :
    3 ≤ i.val ∧ (s.fd_table.get i).offset.toNat ≤ bytes.length := h.descriptor i hopens

theorem FileInv.length_lt (h : FileInv p ⟨s,bytes⟩) : bytes.length < 2 ^ 32 := by
  obtain ⟨node,hbacked⟩ := h.backed
  have hlength : node.length.toNat = bytes.length := hbacked.length
  exact hlength ▸ node.length.isLt

theorem FileInv.others (h : FileInv p ⟨s,bytes⟩) (hopens : Opens (s.fd_table.get i) p)
    (j : Fin 32) (hj : j ≠ i) : ¬ Opens (s.fd_table.get j) p :=
  fun hopen => hj (h.single j i hopen hopens)

variable (hooks) in
theorem read_step (h : FileInv p ⟨s,bytes⟩) (hfd : IsDescriptor p s fd) (count : Uint32) :
    ∃ t n data, syscallRead hooks s fd count = some (t,n,data) ∧
      data = slice bytes (offsetOf s fd).toNat count.toNat ∧ n.toNat = data.length ∧
      FileInv p ⟨t,bytes⟩ := by
  obtain ⟨i,hfd,hopens⟩ := hfd
  obtain ⟨hi,hoffset⟩ := h.range hopens
  obtain ⟨node,hbacked⟩ := h.contents
  obtain ⟨n,data,hread,hdata,hn⟩ := syscallRead_plain hooks hbacked hfd hopens hi hoffset count
  refine ⟨_,n,data,hread,?_,hn,?_⟩
  · simp only [offsetOf,hfd,hdata]
  · have hlength := h.length_lt
    have hmoved : ((s.fd_table.get i).offset + n).toNat ≤ bytes.length := by
      rw [hdata,slice,List.length_take,List.length_drop] at hn
      rw [BitVec.toNat_add,Nat.mod_eq_of_lt (by omega)]
      omega
    refine .of_only (i := i)
      (hbacked.of_same hbacked.found hbacked.plain rfl rfl (fun _ _ => rfl) fun _ h => h) ?_ hi ?_
    · intro j hj
      rw [setFd_get,if_neg hj]
      exact h.others hopens j hj
    · rw [setFd_get,if_pos rfl]
      exact hmoved

theorem close_step (hclose : ∀ hook s p, hooks.close hook s p = some s) (h : FileInv p ⟨s,bytes⟩)
    (hfd : IsDescriptor p s fd) : ∃ t r, syscallClose hooks s fd = some (t,r) ∧
      FileInv p ⟨t,bytes⟩ := by
  obtain ⟨i,hfd,hopens⟩ := hfd
  obtain ⟨hi,-⟩ := h.range hopens
  obtain ⟨node,hbacked⟩ := h.contents
  refine ⟨_,_,syscallClose_plain hclose hbacked hfd hopens hi,.of_only (i := i)
    (hbacked.of_same hbacked.found hbacked.plain rfl rfl (fun _ _ => rfl) fun _ h => h) ?_ hi ?_⟩
  · intro j hj
    rw [setFd_get,if_neg hj]
    exact h.others hopens j hj
  · rw [setFd_get,if_pos rfl]
    exact Nat.zero_le _

theorem other_step (h : FileInv p ⟨s,bytes⟩) (hother : Untouched p s t) :
    FileInv p ⟨t,bytes⟩ := by
  obtain ⟨node,hbacked⟩ := h.contents
  obtain ⟨node',hnode',hplain,hlength,hcontents,hmemory⟩ :=
    hother.node node hbacked.found hbacked.plain
  have hsame : ∀ i : Fin 32, Opens (t.fd_table.get i) p →
      t.fd_table.get i = s.fd_table.get i ∧ Opens (s.fd_table.get i) p := by
    intro i hi
    have heq := hother.descriptors i (.inr hi)
    exact ⟨heq,heq ▸ hi⟩
  refine ⟨⟨node',hbacked.of_same hnode' hplain hlength hcontents hmemory hother.blocks⟩,?_,?_⟩
  · intro i j hi hj
    exact h.single i j (hsame i hi).2 (hsame j hj).2
  · intro i hi
    obtain ⟨heq,hs⟩ := hsame i hi
    simpa only [heq] using h.descriptor i hs

section Open

variable (alloc) (flags : Uint32) (hopen : ∀ hook s p, hooks.open_ hook s p = some s)
  (h : FileInv p ⟨s,bytes⟩) {pathname : CString}
  (hpath : fsResolvePath hooks s (some pathname) = some (some p))
  (hnone : ∀ i : Fin 32, ¬ Opens (s.fd_table.get i) p)

include hopen hpath hnone h

-- what the descriptor search finds, and the file as O_TRUNC leaves it
theorem open_step : ∃ t fd bytes', syscallOpen hooks alloc s (some pathname) flags = some (t,fd) ∧
    bytes' = (if flags &&& oTrunc ≠ 0#32 then [] else bytes) ∧ FileInv p ⟨t,bytes'⟩ ∧
    (0 ≤ fd ↔ findFreeFd s ≠ none) := by
  obtain ⟨node,hbacked⟩ := h.contents
  have htruncated : ∃ u node', (if flags &&& oTrunc ≠ 0#32 then truncateNode hooks s p node
      else some s) = some u ∧ ContentsBacked u p node'
        (if flags &&& oTrunc ≠ 0#32 then [] else bytes) ∧ u.fd_table = s.fd_table := by
    split
    · exact truncateNode_plain hbacked
    · exact ⟨s,node,rfl,hbacked,rfl⟩
  obtain ⟨u,node',hu,hbacked',hfds⟩ := htruncated
  rw [syscallOpen_file (openNode_found hpath) hbacked.found hbacked.plain.type,hu,Option.bind_some]
  cases hfree : findFreeFd s with
  | none =>
    have hfull : findFreeFd u = none := (findFreeFd_congr hfds).trans hfree
    refine ⟨_,_,_,openFd_full hfull,rfl,?_,iff_of_false (by decide) (by simp)⟩
    have hnone' : ∀ i : Fin 32, ¬ Opens (u.fd_table.get i) p := by
      rw [hfds]
      exact hnone
    exact ⟨⟨node',hbacked'.of_same hbacked'.found hbacked'.plain rfl rfl (fun _ _ => rfl)
      fun _ h => h⟩,fun i _ hi => absurd hi (hnone' i),fun i hi => absurd hi (hnone' i)⟩
  | some i =>
    have hfree' : findFreeFd u = some i := (findFreeFd_congr hfds).trans hfree
    refine ⟨_,_,_,openFd_opens hopen hfree' hbacked'.found flags,rfl,?_,
      iff_of_true (Int.natCast_nonneg _) (by simp)⟩
    refine .of_only (i := i) (hbacked'.of_same hbacked'.found hbacked'.plain rfl rfl
      (fun _ _ => rfl) fun _ h => h) ?_ (findFreeFd_some hfree).1 ?_
    · intro j hj
      rw [setFd_get,if_neg hj,hfds]
      exact hnone j
    · rw [setFd_get,if_pos rfl]
      simp only
      split
      · exact hbacked'.length.le
      · exact Nat.zero_le _

end Open

section Write

variable (h : FileInv p ⟨s,bytes⟩) (hopens : Opens (s.fd_table.get i) p)

include h hopens

theorem finish_step (hfds : t.fd_table = s.fd_table) (hnode : t.nodes[p]? = some node)
    (count : Uint32) : ∃ u, syscallWrite.finish t i p count = some (u,count) ∧
      (∀ bytes', ContentsBacked t p node bytes' →
        ((s.fd_table.get i).offset + count).toNat ≤ bytes'.length → FileInv p ⟨u,bytes'⟩) ∧
      ∀ bytes', HasBytes u p bytes' → HasBytes t p bytes' := by
  refine ⟨_,finish_eq hnode count,fun bytes' hbacked hoffset => ?_,?_⟩
  · have hplain := hbacked.plain
    refine .of_only (i := i) (hbacked.of_same (setNode_self hnode) ⟨hplain.type,hplain.read,
      hplain.write,hplain.truncate,hplain.readable,hplain.writable⟩ rfl rfl (fun _ _ => rfl)
      fun _ h => h) ?_ (h.range hopens).1 ?_
    · intro j hj
      rw [setNode_fd_table,setFd_get,if_neg hj,hfds]
      exact h.others hopens j hj
    · rw [setNode_fd_table,setFd_get,if_pos rfl,hfds]
      exact hoffset
  · rintro bytes' ⟨node',hnode',hlength,hbytes⟩
    rw [setNode_self (s := t.setFd i _) hnode] at hnode'
    cases hnode'
    exact ⟨node,hnode,hlength,hbytes⟩

variable (hsize : (s.fd_table.get i).offset.toNat + count.toNat < 2 ^ 32)

include hsize

theorem overwrite_step (hbacked : ContentsBacked s p node bytes)
    (hkeep : ¬ (s.fd_table.get i).offset + count > node.length) (buf : ℕ → Uint8) :
    ∃ u, syscallWrite.finish (memcpyFrom s
        (node.contents + (s.fd_table.get i).offset).toNat buf count.toNat) i p count =
          some (u,count) ∧
      FileInv p ⟨u,overwrite 0#8 bytes (s.fd_table.get i).offset.toNat
        ((List.range count.toNat).map buf)⟩ := by
  obtain ⟨u,hu,hinv,-⟩ := finish_step (t := memcpyFrom s
    (node.contents + (s.fd_table.get i).offset).toNat buf count.toNat) h hopens rfl
    hbacked.found count
  have hfile := hbacked.backing.keep (h.range hopens).2 hsize hkeep buf
  refine ⟨u,hu,hinv _ ⟨hbacked.found,hbacked.plain,hfile.length,hfile.bytes,hfile.null,
    hfile.block⟩ ?_⟩
  rw [← hfile.length]
  exact BitVec.le_def.mp (BitVec.not_lt.mp hkeep)

omit hsize in
theorem copied_iff (hbacked : ContentsBacked s p node bytes)
    (hgrow : (s.fd_table.get i).offset + count > node.length)
    (halloc : alloc s.blocks ((s.fd_table.get i).offset + count) ≠ 0#32) :
    Copied alloc p s (s.fd_table.get i).offset count ↔
      BlockCopied alloc s node (s.fd_table.get i).offset count := by
  constructor
  · intro hcopy k hlow hk
    have hptr : node.contents ≠ 0#32 := by
      intro hnull
      have hrange := (h.range hopens).2
      rw [← hbacked.length,hbacked.null hnull] at hrange
      exact absurd (hk.trans_le hrange) (Nat.not_lt_zero k)
    exact hcopy node hbacked.found hgrow hptr halloc k hlow hk
  · intro hcopy node' hnode' _ _ _
    obtain rfl := Option.some.inj (hbacked.found.symm.trans hnode')
    exact hcopy

theorem grow_step (hfresh : FreshBlocks alloc) (hbacked : ContentsBacked s p node bytes)
    (hgrow : (s.fd_table.get i).offset + count > node.length)
    (halloc : alloc s.blocks ((s.fd_table.get i).offset + count) ≠ 0#32) (buf : ℕ → Uint8) :
    ∃ t node' u, resize alloc s p node ((s.fd_table.get i).offset + count) = some (t,node') ∧
      syscallWrite.finish (memcpyFrom t
        (node'.contents + (s.fd_table.get i).offset).toNat buf count.toNat) i p count =
          some (u,count) ∧
      (Copied alloc p s (s.fd_table.get i).offset count →
        FileInv p ⟨u,overwrite 0#8 bytes (s.fd_table.get i).offset.toNat
          ((List.range count.toNat).map buf)⟩) ∧
      (HasBytes u p (overwrite 0#8 bytes (s.fd_table.get i).offset.toNat
          ((List.range count.toNat).map buf)) →
        Copied alloc p s (s.fd_table.get i).offset count) := by
  obtain ⟨t,hresize,hnodes,hfds,hstored,hloaded⟩ :=
    hbacked.backing.grow (p := p) hfresh (h.range hopens).2 hsize hgrow halloc buf
  have hnode : t.nodes[p]? =
      some (grownNode node (alloc s.blocks ((s.fd_table.get i).offset + count))
        ((s.fd_table.get i).offset + count)) := by
    rw [hnodes]
    exact List.getElem?_set_self (lt_of_node hbacked.found)
  obtain ⟨u,hu,hinv,hbytes⟩ := finish_step (t := memcpyFrom t
    (alloc s.blocks ((s.fd_table.get i).offset + count) +
      (s.fd_table.get i).offset).toNat buf count.toNat) h hopens hfds hnode count
  rw [copied_iff h hopens hbacked hgrow halloc]
  refine ⟨t,_,u,hresize,hu,fun hcopy => ?_,fun hhas => ?_⟩
  · have hfile := hstored hcopy
    exact hinv _ ⟨hnode,hbacked.plain.grown,hfile.length,hfile.bytes,hfile.null,hfile.block⟩
      hfile.length.le
  · obtain ⟨node',hnode',-,hload⟩ := hbytes _ hhas
    obtain rfl := Option.some.inj (hnode.symm.trans hnode')
    exact hloaded hload

variable (hooks) in
theorem write_step (hfresh : FreshBlocks alloc) (hfd : fdIndex fd = some i)
    (hcount : count.toNat < 2 ^ 31) (buf : ℕ → Uint8) : ∃ t n bytes',
      syscallWrite hooks alloc s fd buf count = some (t,n) ∧
      bytes' = (if n = failed then bytes else overwrite 0#8 bytes
        (s.fd_table.get i).offset.toNat ((List.range count.toNat).map buf)) ∧
      (Copied alloc p s (s.fd_table.get i).offset count → FileInv p ⟨t,bytes'⟩) ∧
      (HasBytes t p bytes' → Copied alloc p s (s.fd_table.get i).offset count) := by
  obtain ⟨node,hbacked⟩ := h.contents
  have hdone : count ≠ failed := by
    rintro rfl
    exact absurd hcount (by decide)
  have hfile : OnFile s fd i p node := ⟨hfd,hopens,hbacked.found⟩
  have hout := not_standardOut (h.range hopens).1
  by_cases hgrow : (s.fd_table.get i).offset + count > node.length
  · by_cases halloc : alloc s.blocks ((s.fd_table.get i).offset + count) = 0#32
    · rw [syscallWrite_full hfile hout hbacked.plain.write hbacked.plain.writable buf hgrow halloc]
      refine ⟨_,_,_,rfl,rfl,fun _ => ?_,fun _ => ?_⟩
      · rw [if_pos rfl]
        exact ⟨h.backed.imp fun _ hb => ⟨hb.found,hb.plain,hb.length,hb.bytes,hb.null,hb.block⟩,
          h.single,h.descriptor⟩
      · intro _ _ _ _ hne
        exact absurd halloc hne
    · obtain ⟨t,node',u,hresize,hu,hinv,hcopied⟩ :=
        grow_step h hopens hsize hfresh hbacked hgrow halloc buf
      rw [syscallWrite_resized hfile hout hbacked.plain.write hbacked.plain.writable,hresize]
      refine ⟨u,count,_,hu,rfl,?_⟩
      rw [if_neg hdone]
      exact ⟨hinv,hcopied⟩
  · obtain ⟨u,hu,hinv⟩ := overwrite_step h hopens hsize hbacked hgrow buf
    rw [syscallWrite_resized hfile hout hbacked.plain.write hbacked.plain.writable,resize_keep hgrow]
    refine ⟨u,count,_,hu,rfl,?_⟩
    rw [if_neg hdone]
    refine ⟨fun _ => hinv,fun _ => ?_⟩
    intro node' hnode' hmore
    rw [hbacked.found] at hnode'
    cases hnode'
    exact absurd hmore hgrow

end Write

end Invariant

section Refinement

variable {hooks : Hooks} {alloc : Allocator} {p : NodePtr}
  (hopen : ∀ hook s p, hooks.open_ hook s p = some s)
  (hclose : ∀ hook s p, hooks.close hook s p = some s) (hfresh : FreshBlocks alloc)

include hopen hclose hfresh

-- one call: it refines the byte sequence exactly when it keeps the old bytes, and then the invariant
theorem fileStep_spec {r : FileRun} {call : FileCall} (h : FileInv p r)
    (hallowed : Allowed hooks p r call) : ∃ t, fileStep hooks alloc r call = some t ∧
      (Keeps alloc p r call → FileInv p t) ∧ (HasBytes t.state p t.bytes → Keeps alloc p r call) := by
  obtain ⟨s,bytes⟩ := r
  cases call with
  | open_ pathname flags =>
    obtain ⟨hpath,hnone⟩ := hallowed
    obtain ⟨t,fd,bytes',hcall,hbytes,hinv,hfree⟩ :=
      open_step alloc flags hopen h hpath hnone
    refine ⟨⟨t,if 0 ≤ fd ∧ flags &&& oTrunc ≠ 0#32 then [] else bytes⟩,?_,?_⟩
    · simp only [fileStep,hcall,Option.bind_eq_bind,Option.bind_some]
    · by_cases hflag : flags &&& oTrunc ≠ 0#32
      · rw [if_pos hflag] at hbytes
        subst hbytes
        by_cases hfull : findFreeFd s = none
        · rw [if_neg fun hfd => hfree.mp hfd.1 hfull]
          refine ⟨fun hkeeps => ?_,fun hhas _ _ => hhas.unique hinv.hasBytes⟩
          have hempty : bytes = [] := hkeeps hflag hfull
          exact hempty ▸ hinv
        · rw [if_pos ⟨hfree.mpr hfull,hflag⟩]
          exact ⟨fun _ => hinv,fun _ _ hfull' => absurd hfull' hfull⟩
      · rw [if_neg hflag] at hbytes
        subst hbytes
        rw [if_neg fun hfd => hflag hfd.2]
        exact ⟨fun _ => hinv,fun _ hflag' => absurd hflag' hflag⟩
  | read fd count =>
    obtain ⟨t,n,data,hcall,-,-,hinv⟩ := read_step hooks h hallowed count
    refine ⟨⟨t,bytes⟩,?_,fun _ => hinv,fun _ => trivial⟩
    simp only [fileStep,hcall,Option.bind_eq_bind,Option.bind_some]
  | write fd buf count =>
    obtain ⟨⟨i,hfd,hopens⟩,hoffset,hcount⟩ := hallowed
    have hoff : offsetOf s fd = (s.fd_table.get i).offset := by simp only [offsetOf,hfd]
    simp only [hoff] at hoffset
    obtain ⟨t,n,bytes',hcall,hbytes,hinv,hcopied⟩ := write_step hooks h hopens
      (by omega) hfresh hfd hcount buf
    refine ⟨⟨t,bytes'⟩,?_,?_⟩
    · simp only [fileStep,hcall,hbytes,hoff,Option.bind_eq_bind,Option.bind_some]
    · simp only [Keeps,hoff]
      exact ⟨hinv,hcopied⟩
  | close fd =>
    obtain ⟨t,n,hcall,hinv⟩ := close_step hclose h hallowed
    refine ⟨⟨t,bytes⟩,?_,fun _ => hinv,fun _ => trivial⟩
    simp only [fileStep,hcall,Option.bind_eq_bind,Option.bind_some]
  | other t => exact ⟨⟨t,bytes⟩,rfl,fun _ => other_step h hallowed,fun _ => trivial⟩

theorem refines_iff {r : FileRun} {call : FileCall} (h : FileInv p r)
    (hallowed : Allowed hooks p r call) :
    Refines hooks p r call (fileStep hooks alloc r call) ↔ Keeps alloc p r call := by
  obtain ⟨t,hstep,hinv,hkeeps⟩ := fileStep_spec hopen hclose hfresh h hallowed
  constructor
  · rintro ⟨⟨u,hu,hhas⟩,-⟩
    rw [hstep] at hu
    cases hu
    exact hkeeps hhas
  · intro hkeep
    refine ⟨⟨t,hstep,(hinv hkeep).hasBytes⟩,?_⟩
    rintro fd count rfl
    obtain ⟨s,bytes⟩ := r
    obtain ⟨u,n,data,hcall,hdata,hn,-⟩ := read_step hooks h hallowed count
    exact ⟨u,n,data,hcall,hdata,hn⟩

end Refinement

theorem file_contents_refine (hooks : Hooks) (alloc : Allocator) (p : NodePtr)
    (hopen : ∀ hook s p, hooks.open_ hook s p = some s)
    (hclose : ∀ hook s p, hooks.close hook s p = some s) (hfresh : FreshBlocks alloc)
    (r : FileRun) (hr : FileInv p r) (calls : List FileCall)
    (hallowed : Run.Every (fileStep hooks alloc) (fun r call _ => Allowed hooks p r call) r calls) :
    Run.Every (fileStep hooks alloc) (Refines hooks p) r calls ↔
      Run.Every (fileStep hooks alloc) (fun r call _ => Keeps alloc p r call) r calls := by
  refine Run.every_iff_of hr hallowed
    (fun r call h ha => refines_iff hopen hclose hfresh h ha) ?_
  intro r call t h ha hkeeps ht
  obtain ⟨u,hu,hinv,-⟩ := fileStep_spec hopen hclose hfresh h ha
  rw [hu] at ht
  cases ht
  exact hinv hkeeps

section Example

-- a file of four zeros that descriptor 3 has open at its start
def zerosFile : FileRun where
  state := { KernelState.boot with
    nodes := [{ createdNode KernelState.boot ['/'] .directory with children := some 1 },
      { name := ['a'], mask := 3#32, parent := some 0, length := 4#32, contents := 0x200000#32 }]
    fs_root := some 0
    fd_table := Vector.ofFn fun i => if i = 3 then ⟨true,some 1,0#32⟩ else ⟨false,none,0#32⟩
    blocks := [(0x200000#32,4#32)] }
  bytes := List.replicate 4 0#8

def rewriteBytes : ℕ → Uint8 := fun i => BitVec.ofNat 8 (i + 1)

def rewriteCalls : List FileCall := [.write 3 rewriteBytes 2#32,.close 3,.open_ ['a'] oRdwr]

def rewritten : FileRun :=
  ⟨(memcpyFrom zerosFile.state 0x200000 rewriteBytes 2).setFd 3 ⟨true,some 1,2#32⟩,
    [1#8,2#8,0#8,0#8]⟩

def closedAgain : FileRun := { rewritten with state := rewritten.state.setFd 3 ⟨false,none,0#32⟩ }

def openedAgain : FileRun :=
  { rewritten with state := closedAgain.state.setFd 3 ⟨true,some 1,0#32⟩ }

theorem zerosFile_fd (i : Fin 32) : zerosFile.state.fd_table.get i =
    if i = 3 then ⟨true,some 1,0#32⟩ else ⟨false,none,0#32⟩ := CArray.get_ofFn _ i

theorem zerosFile_opens {i : Fin 32} (h : Opens (zerosFile.state.fd_table.get i) 1) : i = 3 := by
  rw [zerosFile_fd] at h
  by_contra hne
  rw [if_neg hne] at h
  exact absurd h.1 (by decide)

theorem zerosFile_inv : FileInv 1 zerosFile := by
  refine ⟨⟨_,rfl,⟨rfl,rfl,rfl,rfl,by decide,by decide⟩,rfl,rfl,fun h => absurd h (by decide),
    fun _ => ⟨4#32,List.mem_singleton.mpr rfl,le_rfl,by decide⟩⟩,?_,?_⟩
  · intro i j hi hj
    rw [zerosFile_opens hi,zerosFile_opens hj]
  · intro i hi
    obtain rfl := zerosFile_opens hi
    exact ⟨le_rfl,Nat.zero_le _⟩

theorem write_zeros : fileStep treeHooks bumpAllocator zerosFile
    (.write 3 rewriteBytes 2#32) = some rewritten := rfl

theorem close_zeros : fileStep treeHooks bumpAllocator rewritten (.close 3) =
    some closedAgain := rfl

theorem closedAgain_path : fsResolvePath treeHooks closedAgain.state (some ['a']) =
    some (some 1) := by
  have hroot : closedAgain.state.fs_root = some 0 := rfl
  rw [fsResolvePath_eq treeHooks closedAgain.state hroot]
  decide

theorem open_again : fileStep treeHooks bumpAllocator closedAgain (.open_ ['a'] oRdwr) =
    some openedAgain := by
  rw [fileStep,syscallOpen_opens treeHooks_open closedAgain_path rfl rfl (by decide)
    (show findFreeFd closedAgain.state = some 3 by decide)]
  rfl

theorem closedAgain_unopened (i : Fin 32) : ¬ Opens (closedAgain.state.fd_table.get i) 1 := by
  intro h
  rw [closedAgain,setFd_get] at h
  by_cases hi : i = 3
  · rw [if_pos hi] at h
    exact absurd h.1 (by decide)
  · rw [if_neg hi,rewritten,setFd_get,if_neg hi] at h
    exact hi (zerosFile_opens h)

theorem rewrite_allowed : Run.Every (fileStep treeHooks bumpAllocator)
    (fun r call _ => Allowed treeHooks 1 r call) zerosFile (rewriteCalls ++ [.read 3 2#32]) := by
  refine ⟨⟨⟨3,rfl,rfl,rfl⟩,by decide,by decide⟩,fun r hr => ?_⟩
  obtain rfl := Option.some.inj (write_zeros.symm.trans hr)
  refine ⟨⟨3,rfl,rfl,rfl⟩,fun r hr => ?_⟩
  obtain rfl := Option.some.inj (close_zeros.symm.trans hr)
  refine ⟨⟨closedAgain_path,closedAgain_unopened⟩,fun r hr => ?_⟩
  obtain rfl := Option.some.inj (open_again.symm.trans hr)
  exact ⟨⟨3,rfl,rfl,rfl⟩,fun _ _ => trivial⟩

theorem rewrite_keeps : Run.Every (fileStep treeHooks bumpAllocator)
    (fun r call _ => Keeps bumpAllocator 1 r call) zerosFile (rewriteCalls ++ [.read 3 2#32]) := by
  refine ⟨fun node hnode hmore => ?_,fun r hr => ?_⟩
  · cases hnode
    exact absurd hmore (by decide)
  obtain rfl := Option.some.inj (write_zeros.symm.trans hr)
  refine ⟨trivial,fun r hr => ?_⟩
  obtain rfl := Option.some.inj (close_zeros.symm.trans hr)
  exact ⟨fun hflag => absurd rfl hflag,fun _ _ => ⟨trivial,fun _ _ => trivial⟩⟩

-- the two bytes written are read back through a second open
theorem file_contents_refine_rewrite :
    Run.Every (fileStep treeHooks bumpAllocator) (Refines treeHooks 1) zerosFile
        (rewriteCalls ++ [.read 3 2#32]) ∧
      ∃ r t n, Run.run (fileStep treeHooks bumpAllocator) zerosFile rewriteCalls = some r ∧
        syscallRead treeHooks r.state 3 2#32 = some (t,n,[1#8,2#8]) := by
  have hevery := (file_contents_refine treeHooks bumpAllocator 1 treeHooks_open (fun _ _ _ => rfl)
    bumpAllocator_fresh zerosFile zerosFile_inv _ rewrite_allowed).mpr rewrite_keeps
  have hrun : Run.run (fileStep treeHooks bumpAllocator) zerosFile rewriteCalls =
      some openedAgain := by
    rw [rewriteCalls,Run.run,write_zeros,Option.bind_some,Run.run,close_zeros,Option.bind_some,
      Run.run,open_again]
    rfl
  obtain ⟨t,n,data,hread,hdata,-⟩ := (hevery.last hrun).2 3 2#32 rfl
  have hback : data = [1#8,2#8] := hdata
  exact ⟨hevery,openedAgain,t,n,hrun,hback ▸ hread⟩

-- a file of 300 bytes that descriptor 3 has open at its end
def longFile : FileRun where
  state := { KernelState.boot with
    nodes := [{ name := ['a'], mask := 3#32, length := 300#32, contents := 0x200000#32 }]
    fd_table := Vector.ofFn fun i => if i = 3 then ⟨true,some 0,300#32⟩ else ⟨false,none,0#32⟩
    memory := fun x => if Inside 0x200000 300 x then 1#8 else 0#8
    blocks := [(0x200000#32,300#32)] }
  bytes := List.replicate 300 1#8

theorem longFile_fd (i : Fin 32) : longFile.state.fd_table.get i =
    if i = 3 then ⟨true,some 0,300#32⟩ else ⟨false,none,0#32⟩ := CArray.get_ofFn _ i

theorem longFile_opens {i : Fin 32} (h : Opens (longFile.state.fd_table.get i) 0) : i = 3 := by
  rw [longFile_fd] at h
  by_contra hne
  rw [if_neg hne] at h
  exact absurd h.1 (by decide)

theorem longFile_inv : FileInv 0 longFile := by
  refine ⟨⟨_,rfl,⟨rfl,rfl,rfl,rfl,by decide,by decide⟩,?_,?_,fun h => absurd h (by decide),
    fun _ => ⟨300#32,List.mem_singleton.mpr rfl,le_rfl,by decide⟩⟩,?_,?_⟩
  · exact List.length_replicate.symm
  · refine loadBytes_eq_iff.mpr ⟨List.length_replicate,fun i hi => ?_⟩
    have hi : i < 300 := hi
    have hinside : Inside 0x200000 300 (0x200000 + i) := ⟨by omega,Nat.add_lt_add_left hi _⟩
    rw [longFile,List.getElem?_replicate,if_pos hi]
    exact congrArg some (if_pos hinside).symm
  · intro i j hi hj
    rw [longFile_opens hi,longFile_opens hj]
  · intro i hi
    obtain rfl := longFile_opens hi
    refine ⟨le_rfl,?_⟩
    rw [longFile_fd,if_pos rfl]
    exact List.length_replicate.ge

theorem longFile_descriptor : IsDescriptor 0 longFile.state 3 := by
  refine ⟨3,rfl,?_⟩
  rw [longFile_fd,if_pos rfl]
  exact ⟨rfl,rfl⟩

theorem longFile_offset : offsetOf longFile.state 3 = 300#32 := by
  have hfd : fdIndex 3 = some 3 := rfl
  simp only [offsetOf,hfd,longFile_fd,if_true]

-- one more byte moves the file, and bytes 256 to 299 stay behind
theorem write_loses_bytes : ¬ Run.Every (fileStep treeHooks bumpAllocator) (Refines treeHooks 0)
    longFile [.write 3 (fun _ => 1#8) 1#32] := by
  rintro ⟨hrefines,-⟩
  have hallowed : Allowed treeHooks 0 longFile (.write 3 (fun _ => 1#8) 1#32) :=
    ⟨longFile_descriptor,by rw [longFile_offset]; decide,by decide⟩
  rw [refines_iff treeHooks_open (fun _ _ _ => rfl) bumpAllocator_fresh longFile_inv hallowed,Keeps,
    longFile_offset] at hrefines
  have hcopied := hrefines _ rfl (by decide) (by decide) (by decide) 256 le_rfl (by decide)
  revert hcopied
  decide

end Example

end KluxOS.Syscall
