import KluxOS.Syscall.DescriptorTable

namespace KluxOS.Syscall

open ByteMemory ByteSequence KernelState Fs Run

-- the table and what a call reads of the file's node; resized allows another length
structure SameFile (p : NodePtr) (resized : Prop) (s t : KernelState) : Prop where
  fd_table : t.fd_table = s.fd_table
  node : ∀ n, s.nodes[p]? = some n → ∃ m, t.nodes[p]? = some m ∧ m.read = n.read ∧
    m.write = n.write ∧ m.mask = n.mask ∧ (m.length = n.length ∨ resized)

-- drivers leave the descriptors and the file alone, but for its own truncate hook
structure LeavesFile (hooks : Hooks) (p : NodePtr) : Prop where
  read : ∀ hook s q offset count t n data, hooks.read hook s q offset count = some (t,n,data) →
    SameFile p False s t
  write : ∀ hook s q offset count buf t n, hooks.write hook s q offset count buf = some (t,n) →
    SameFile p False s t
  open_ : ∀ hook s q t, hooks.open_ hook s q = some t → SameFile p False s t
  close : ∀ hook s q t, hooks.close hook s q = some t → SameFile p False s t
  truncate : ∀ hook s q t, hooks.truncate hook s q = some t → SameFile p (q = p) s t

-- a truncation of the file leaves no offset past its end
def SafeTruncation (hooks : Hooks) (p : NodePtr) (s : KernelState) (node : FsNode) : Prop :=
  match node.truncate with
  | none => node.length = 0#32 ∨ node.contents = 0#32 ∨
      ∀ i : Fin 32, Opens (s.fd_table.get i) p → (s.fd_table.get i).offset = 0#32
  | some hook => ∀ t n, hooks.truncate hook s p = some t → t.nodes[p]? = some n →
      ∀ i : Fin 32, Opens (s.fd_table.get i) p → (s.fd_table.get i).offset ≤ n.length

def SafeOpen (hooks : Hooks) (p : NodePtr) (s : KernelState) : FdCall → Prop
  | .open_ (some pathname) flags => flags &&& oTrunc ≠ 0#32 →
      fsResolvePath hooks s (some pathname) = some (some p) →
      ∀ node, s.nodes[p]? = some node → node.mask &&& fsPermRead ≠ 0#32 →
        SafeTruncation hooks p s node
  | _ => True

-- a read of the file is refused, or copies bytes of the file from the offset on
def ReadsInside (hooks : Hooks) (p : NodePtr) (s : KernelState) : Prop :=
  ∀ (fd : ℤ) (i : Fin 32) (count : Uint32), fdIndex fd = some i → 3 ≤ i.val →
    Opens (s.fd_table.get i) p → ∃ node t n data, s.nodes[p]? = some node ∧
      syscallRead hooks s fd count = some (t,n,data) ∧
      (node.mask &&& fsPermRead = 0#32 ∧ n = failed ∧ data = [] ∨
        n.toNat ≤ node.length.toNat - (s.fd_table.get i).offset.toNat ∧ data.length = n.toNat ∧
        ∀ k < data.length, (s.fd_table.get i).offset.toNat + k < node.length.toNat ∧
          data[k]? = some (s.memory ((node.contents + (s.fd_table.get i).offset).toNat + k)))

-- no descriptor of a readable file lies past its end
def OffsetsInside (p : NodePtr) (s : KernelState) : Prop :=
  ∃ node, s.nodes[p]? = some node ∧ node.read = none ∧ node.write = none ∧
    (node.mask &&& fsPermRead ≠ 0#32 →
      ∀ i : Fin 32, Opens (s.fd_table.get i) p → (s.fd_table.get i).offset ≤ node.length)

section Inside

variable {hooks : Hooks} {alloc : Allocator} {s t u : KernelState} {p q : NodePtr}
  {node : FsNode} {fd : ℤ} {i : Fin 32} {count r : Uint32} {data : List Uint8}

theorem SameFile.refl : SameFile p False s s := ⟨rfl,fun n hn => ⟨n,hn,rfl,rfl,rfl,.inl rfl⟩⟩

theorem OffsetsInside.congr (h : OffsetsInside p s) (hfds : t.fd_table = s.fd_table)
    (hnodes : t.nodes = s.nodes) : OffsetsInside p t := by
  rw [OffsetsInside,hfds,hnodes]
  exact h

theorem OffsetsInside.same (h : OffsetsInside p s) {resized : Prop} (hno : ¬ resized)
    (hsame : SameFile p resized s t) : OffsetsInside p t := by
  obtain ⟨n,hn,hread,hwrite,hoffset⟩ := h
  obtain ⟨m,hm,hread',hwrite',hmask',hlength⟩ := hsame.node n hn
  refine ⟨m,hm,hread'.trans hread,hwrite'.trans hwrite,?_⟩
  rw [hmask',hsame.fd_table,hlength.resolve_right hno]
  exact hoffset

theorem OffsetsInside.relinked (h : OffsetsInside p s) (ht : Relinked s t) : OffsetsInside p t := by
  refine h.same not_false ⟨ht.fd_table,fun n hn => ?_⟩
  obtain ⟨m,hm,hcore⟩ := ht.nodes p n hn
  exact ⟨m,hm,(congrArg FsNode.read hcore :),(congrArg FsNode.write hcore :),
    (congrArg FsNode.mask hcore :),.inl (congrArg FsNode.length hcore :)⟩

-- a node that is not shortened and gets no driver
theorem OffsetsInside.update (h : OffsetsInside p s) {n n' : FsNode} (hn : s.nodes[q]? = some n)
    (hread : n'.read = n.read) (hwrite : n'.write = n.write) (hmask : n'.mask = n.mask)
    (hlength : q = p → n.length ≤ n'.length) : OffsetsInside p (s.setNode q n') := by
  obtain ⟨m,hm,hmread,hmwrite,hoffset⟩ := h
  by_cases hq : q = p
  · subst hq
    obtain rfl := Option.some.inj (hn.symm.trans hm)
    refine ⟨n',setNode_self hn,hread.trans hmread,hwrite.trans hmwrite,fun hreadable i hi => ?_⟩
    rw [hmask] at hreadable
    exact BitVec.le_trans (hoffset hreadable i hi) (hlength rfl)
  · exact ⟨m,(setNode_other (Ne.symm hq)).trans hm,hmread,hmwrite,hoffset⟩

-- an entry of another file, or one that keeps its offset inside
theorem OffsetsInside.setFd (h : OffsetsInside p s) {e : FdEntry}
    (he : Opens e p → ∀ n, s.nodes[p]? = some n → e.offset ≤ n.length) :
    OffsetsInside p (s.setFd i e) := by
  obtain ⟨n,hn,hread,hwrite,hoffset⟩ := h
  refine ⟨n,hn,hread,hwrite,fun hreadable j hj => ?_⟩
  rw [setFd_get] at hj ⊢
  split at hj
  · next hji =>
    rw [if_pos hji]
    exact he hj n hn
  · next hji =>
    rw [if_neg hji]
    exact hoffset hreadable j hj

theorem readBody_inside (hread : node.read = none) {offset : Uint32}
    (hoffset : offset ≤ node.length) (h : readBody hooks s p node offset count = some (t,r,data)) :
    t = s ∧ r.toNat ≤ node.length.toNat - offset.toNat ∧
      data = loadBytes s.memory (node.contents + offset).toNat r.toNat := by
  have hremaining : (node.length - offset).toNat = node.length.toNat - offset.toNat :=
    BitVec.toNat_sub_of_le hoffset
  simp only [readBody,hread] at h
  split at h
  · cases h
    refine ⟨rfl,?_,rfl⟩
    rw [← hremaining]
    split
    · exact Nat.le_refl _
    · next hle => exact BitVec.not_lt.mp hle
  · cases h
    exact ⟨rfl,Nat.zero_le _,rfl⟩

theorem read_inside (hleaves : LeavesFile hooks p) (h : OffsetsInside p s)
    (hcall : syscallRead hooks s fd count = some (u,r,data)) : OffsetsInside p u := by
  cases syscallRead_cases hcall with
  | refused text => exact h.congr rfl rfl
  | stdin _ hstdin => exact h.congr (stdin_keeps hstdin).1 (stdin_keeps hstdin).2
  | @served i q node t r data hfile hmask hbody =>
    by_cases hq : q = p
    · subst hq
      obtain ⟨n,hn,hread,hwrite,hoffset⟩ := h
      have hnode : node = n := Option.some.inj (hfile.found.symm.trans hn)
      rw [hnode] at hbody hmask
      have hi := hoffset hmask i hfile.opens
      obtain ⟨rfl,hr,-⟩ := readBody_inside hread hi hbody
      refine OffsetsInside.setFd ⟨n,hn,hread,hwrite,hoffset⟩ fun _ m hm => ?_
      obtain rfl := Option.some.inj (hn.symm.trans hm)
      dsimp only
      bv_omega
    · have hsame : SameFile p False s t := readBody_keeps (fun _ => .refl)
        (fun hook => hleaves.read hook _ _ _ _ _ _ _) hbody
      refine (h.same not_false hsame).setFd fun hopens => ?_
      rw [hsame.fd_table] at hopens
      exact absurd (Option.some.inj (hfile.opens.2.symm.trans hopens.2)) hq

theorem finish_inside (hfinish : syscallWrite.finish s i q count = some (u,r))
    (h : OffsetsInside p s) (hnode : (s.fd_table.get i).node = some q)
    (hoffset : q = p → ∀ m, s.nodes[p]? = some m → (s.fd_table.get i).offset + count ≤ m.length) :
    OffsetsInside p u := by
  obtain ⟨-,node,hfound,rfl⟩ := finish_keeps hfinish
  have hfd : OffsetsInside p (s.setFd i
      { s.fd_table.get i with offset := (s.fd_table.get i).offset + count }) :=
    h.setFd fun hopens => hoffset (Option.some.inj (hnode.symm.trans hopens.2))
  exact hfd.update hfound rfl rfl rfl fun _ => BitVec.le_refl _

theorem resize_inside (h : OffsetsInside p s) {node' : FsNode} {size : Uint32}
    (hfound : s.nodes[q]? = some node) (hresize : resize alloc s q node size = some (t,node')) :
    OffsetsInside p t ∧ size ≤ node'.length := by
  obtain ⟨hfds,⟨hkeep,rfl,rfl⟩ | ⟨hgrow,hgrown,hnodes⟩⟩ := resize_keeps hresize
  · exact ⟨h,BitVec.not_lt.mp hkeep⟩
  · have hlength : node'.length = size := by
      rw [hgrown]
      rfl
    have hle : size ≤ node'.length := hlength ▸ BitVec.le_refl _
    refine ⟨(h.update hfound ?_ ?_ ?_ fun _ => ?_).congr hfds hnodes,hle⟩
    · rw [hgrown]
      rfl
    · rw [hgrown]
      rfl
    · rw [hgrown]
      rfl
    · exact BitVec.le_trans (BitVec.le_of_lt hgrow) hle

theorem write_inside (hleaves : LeavesFile hooks p) (h : OffsetsInside p s) {buf : ℕ → Uint8}
    (hcall : syscallWrite hooks alloc s fd buf count = some (u,r)) : OffsetsInside p u := by
  cases syscallWrite_cases hcall with
  | printed text r => exact h.congr rfl rfl
  | @hooked i q node hook t u n r hfile _ hwrite hhook hfinish =>
    have hq : q ≠ p := by
      rintro rfl
      obtain ⟨m,hm,-,hnone,-⟩ := h
      obtain rfl := Option.some.inj (hfile.found.symm.trans hm)
      cases hwrite.symm.trans hnone
    have hsame := hleaves.write _ _ _ _ _ _ _ _ hhook
    refine finish_inside hfinish (h.same not_false hsame) ?_ fun heq => absurd heq hq
    rw [hsame.fd_table]
    exact hfile.opens.2
  | noSpace _ _ _ _ => exact h.congr (krealloc_keeps _ _).1 (krealloc_keeps _ _).2
  | @stored i q node node' t u r hfile _ _ hresize hfinish =>
    obtain ⟨ht,hsize⟩ := resize_inside h hfile.found hresize
    have hnode' := resize_found hfile.found hresize
    have hfds := (resize_keeps hresize).1
    refine finish_inside hfinish (ht.congr rfl rfl) ?_ fun heq m hm => ?_
    · change (t.fd_table.get i).node = some q
      rw [hfds]
      exact hfile.opens.2
    · subst heq
      obtain rfl := Option.some.inj (hnode'.symm.trans hm)
      change (t.fd_table.get i).offset + count ≤ node'.length
      rw [hfds]
      exact hsize

theorem close_inside (hleaves : LeavesFile hooks p) (h : OffsetsInside p s) {r : ℤ}
    (hcall : syscallClose hooks s fd = some (u,r)) : OffsetsInside p u := by
  cases syscallClose_cases hcall with
  | refused text => exact h.congr rfl rfl
  | @closed i t _ _ _ ht =>
    have hbefore : OffsetsInside p t := by
      rcases ht with rfl | ⟨hook,q,ht⟩
      · exact h
      · exact h.same not_false (hleaves.close hook s q t ht)
    exact hbefore.setFd fun hopens => nomatch hopens.1

theorem truncateNode_inside (hleaves : LeavesFile hooks p) (h : OffsetsInside p s)
    (hnode : s.nodes[p]? = some node)
    (hsafe : node.mask &&& fsPermRead ≠ 0#32 → SafeTruncation hooks p s node)
    (htruncated : truncateNode hooks s p node = some t) : OffsetsInside p t := by
  obtain ⟨m,hm,hread,hwrite,hoffset⟩ := id h
  obtain rfl := Option.some.inj (hnode.symm.trans hm)
  rw [truncateNode] at htruncated
  rw [SafeTruncation] at hsafe
  cases htruncate : node.truncate with
  | some hook =>
    simp only [htruncate] at htruncated hsafe
    have hsame := hleaves.truncate _ _ _ _ htruncated
    obtain ⟨n,hn,hread',hwrite',hmask,-⟩ := hsame.node node hnode
    refine ⟨n,hn,hread'.trans hread,hwrite'.trans hwrite,fun hreadable i hi => ?_⟩
    rw [hmask] at hreadable
    rw [hsame.fd_table] at hi ⊢
    exact hsafe hreadable t n htruncated hn i hi
  | none =>
    simp only [htruncate] at htruncated hsafe
    split at htruncated
    · next hfull =>
      cases htruncated
      refine ⟨_,setNode_self hnode,hread,hwrite,fun hreadable i hi => ?_⟩
      rcases hsafe hreadable with hzero | hnull | hstart
      · exact absurd (hzero ▸ hfull.1) (by decide)
      · exact absurd hnull hfull.2
      · change (s.fd_table.get i).offset ≤ 0#32
        rw [hstart i hi]
        exact BitVec.le_refl _
    · cases htruncated
      exact h

theorem truncated_inside (hleaves : LeavesFile hooks p) {flags : Uint32}
    (h : OffsetsInside p s) (hnode : s.nodes[q]? = some node)
    (hsafe : q = p → flags &&& oTrunc ≠ 0#32 → node.mask &&& fsPermRead ≠ 0#32 →
      SafeTruncation hooks p s node)
    (htruncated : Truncated hooks s q node flags t) : OffsetsInside p t := by
  by_cases hq : q = p
  · subst hq
    rw [Truncated] at htruncated
    split at htruncated
    · next hflags => exact truncateNode_inside hleaves h hnode (hsafe rfl hflags) htruncated
    · cases htruncated
      exact h
  · cases truncated_cases htruncated with
    | kept => exact h
    | hooked _ hhook => exact h.same hq (hleaves.truncate _ _ _ _ hhook)
    | emptied _ _ _ => exact h.update hnode rfl rfl rfl fun heq => absurd heq hq

theorem open_inside (hleaves : LeavesFile hooks p) {pathname : Option CString} {flags : Uint32}
    (h : OffsetsInside p s) (hsafe : SafeOpen hooks p s (.open_ pathname flags))
    (hcall : syscallOpen hooks alloc s pathname flags = some (u,fd)) : OffsetsInside p u := by
  have hbefore : ∀ {path t q node v}, pathname = some path →
      openNode hooks alloc s path flags = some (t,some q) → t.nodes[q]? = some node →
      Truncated hooks t q node flags v → OffsetsInside p v := by
    intro path t q node v hpath hopen hnode hv
    subst hpath
    refine truncated_inside hleaves (h.relinked (openNode_relinked hopen)) hnode
      (fun hq hflags => ?_) hv
    subst hq
    rcases openNode_origin hopen with ⟨hresolve,rfl⟩ | ⟨hnew,-⟩
    · exact hsafe hflags hresolve node hnode
    · obtain ⟨m,hm,-⟩ := h
      exact absurd hnew (Nat.ne_of_lt (lt_of_node hm))
  cases syscallOpen_cases hcall with
  | refused ht => exact h.relinked ht
  | full text hpath hopen hnode _ hv => exact (hbefore hpath hopen hnode hv).congr rfl rfl
  | @opened path t v u q node node' i hpath hopen hnode _ hv _ hnode' hu =>
    have hset : OffsetsInside p (v.setFd i (openEntry q node' flags)) := by
      refine (hbefore hpath hopen hnode hv).setFd fun hopens n hn => ?_
      obtain rfl : q = p := Option.some.inj hopens.2
      obtain rfl := Option.some.inj (hnode'.symm.trans hn)
      dsimp only [openEntry]
      split
      · exact BitVec.le_refl _
      · exact Nat.zero_le _
    rcases hu with rfl | ⟨hook,hu⟩
    · exact hset
    · exact hset.same not_false (hleaves.open_ hook _ q u hu)

theorem fdStep_inside (hleaves : LeavesFile hooks p) {c : FdCall} (h : OffsetsInside p s)
    (hsafe : SafeOpen hooks p s c) (hstep : fdStep hooks alloc s c = some u) :
    OffsetsInside p u := by
  cases c with
  | open_ pathname flags =>
    obtain ⟨⟨u,fd⟩,hcall,rfl⟩ := Option.map_eq_some_iff.mp hstep
    exact open_inside hleaves h hsafe hcall
  | read fd count =>
    obtain ⟨⟨u,r,data⟩,hcall,rfl⟩ := Option.map_eq_some_iff.mp hstep
    exact read_inside hleaves h hcall
  | write fd buf count =>
    obtain ⟨⟨u,r⟩,hcall,rfl⟩ := Option.map_eq_some_iff.mp hstep
    exact write_inside hleaves h hcall
  | close fd =>
    obtain ⟨⟨u,r⟩,hcall,rfl⟩ := Option.map_eq_some_iff.mp hstep
    exact close_inside hleaves h hcall

theorem OffsetsInside.reads (h : OffsetsInside p s) : ReadsInside hooks p s := by
  obtain ⟨node,hnode,hread,-,hoffset⟩ := h
  intro fd i count hfd hi hopens
  have hstdin := not_standardIn hi
  have hfile : OnFile s fd i p node := ⟨hfd,hopens,hnode⟩
  by_cases hmask : node.mask &&& fsPermRead = 0#32
  · exact ⟨node,_,failed,[],hnode,syscallRead_denied hfile hstdin hmask,.inl ⟨hmask,rfl,rfl⟩⟩
  · obtain ⟨⟨t,r,data⟩,hbody⟩ : ∃ x, readBody hooks s p node (s.fd_table.get i).offset count =
        some x := by
      simp only [readBody,hread]
      split <;> exact ⟨_,rfl⟩
    obtain ⟨rfl,hr,hdata⟩ := readBody_inside hread (hoffset hmask i hopens) hbody
    have hlength : data.length = r.toNat := by rw [hdata,loadBytes_length]
    obtain ⟨u,hcall⟩ : ∃ u, syscallRead hooks t fd count = some (u,r,data) := by
      rw [syscallRead_served hfile hstdin hmask,hbody]
      exact ⟨_,rfl⟩
    refine ⟨node,u,r,data,hnode,hcall,.inr ⟨hr,hlength,fun k hk => ⟨by omega,?_⟩⟩⟩
    rw [hdata,loadBytes_get k (hlength ▸ hk)]

theorem syscallOpen_truncates {pathname : CString} {flags : Uint32}
    (hopen : ∀ hook s p, hooks.open_ hook s p = some s)
    (hpath : fsResolvePath hooks s (some pathname) = some (some p))
    (hnode : s.nodes[p]? = some node) (htype : node.type = .file) (htruncate : node.truncate = none)
    (hfull : node.length > 0#32 ∧ node.contents ≠ 0#32) (hflags : flags &&& oTrunc ≠ 0#32)
    (hfree : findFreeFd s = some i) : syscallOpen hooks alloc s (some pathname) flags =
      some (((memset s node.contents.toNat 0#8 node.length.toNat).setNode p
        { node with length := 0#32 }).setFd i
          (openEntry p { node with length := 0#32 } flags),(i.val : ℤ)) := by
  rw [syscallOpen_file (openNode_found hpath) hnode htype,if_pos hflags]
  simp only [truncateNode,htruncate,if_pos hfull,Option.bind_some]
  refine openFd_opens hopen ((findFreeFd_congr ?_).trans hfree) ?_ flags
  · rfl
  · exact setNode_self hnode

end Inside

section Example

theorem treeHooks_leaves : LeavesFile treeHooks p where
  read := fun _ _ _ _ _ _ _ _ h => by cases h
  write := fun _ _ _ _ _ _ _ _ h => by cases h
  open_ := fun _ s _ _ h => by cases h; exact .refl
  close := fun _ s _ _ h => by cases h; exact .refl
  truncate := fun _ _ _ _ h => by cases h

def fourBytes : FsNode :=
  { createdNode KernelState.boot ['a'] .file with
    parent := some 0
    mask := 3#32
    length := 4#32
    contents := 0x200000#32
    read := none
    write := none
    open_ := none
    close := none }

-- /a holds four bytes
def fourByteRoot : KernelState := plainRoot.setNode 1 fourBytes

theorem fourByteRoot_path {t : KernelState} (h : SameTree fourByteRoot t) :
    fsResolvePath treeHooks t (some ['a']) = some (some 1) := by
  have hroot : SameTree plainRoot fourByteRoot := ⟨rfl,rfl⟩
  exact plainRoot_path (hroot.trans h)

theorem fdStep_truncates {t : KernelState} (h : SameTree fourByteRoot t)
    (hnode : t.nodes[1]? = some fourBytes) {i : Fin 32} (hfree : findFreeFd t = some i) :
    fdStep treeHooks constantAllocator t (.open_ (some ['a']) (oRdwr ||| oTrunc)) =
      some (((memset t 0x200000 0#8 4).setNode 1 { fourBytes with length := 0#32 }).setFd i
        ⟨true,some 1,0#32⟩) :=
  Option.map_eq_some_iff.mpr ⟨_,syscallOpen_truncates treeHooks_open (fourByteRoot_path h) hnode rfl
    rfl (by decide) (by decide) hfree,rfl⟩

end Example

section Run

variable {hooks : Hooks} {alloc : Allocator} {s t : KernelState} {p : NodePtr} {node : FsNode}

theorem reads_inside (hleaves : LeavesFile hooks p) (hnode : s.nodes[p]? = some node)
    (hread : node.read = none) (hwrite : node.write = none)
    (hunopened : ∀ i : Fin 32, ¬ Opens (s.fd_table.get i) p) {calls : List FdCall}
    (hsafe : Every (fdStep hooks alloc) (fun s c _ => SafeOpen hooks p s c) s calls)
    (hrun : run (fdStep hooks alloc) s calls = some t) : ReadsInside hooks p t := by
  have hinit : OffsetsInside p s :=
    ⟨node,hnode,hread,hwrite,fun _ i hi => absurd hi (hunopened i)⟩
  have ht : OffsetsInside p t := hsafe.invariant hinit
    (fun s c u hs hc hu => fdStep_inside hleaves hs hc hu) hrun
  exact ht.reads

theorem fdStep_opens {flags : Uint32} (hflags : flags &&& oTrunc = 0#32) :
    fdStep treeHooks constantAllocator fourByteRoot (.open_ (some ['a']) flags) =
      some (fourByteRoot.setFd 3 (openEntry 1 fourBytes flags)) :=
  Option.map_eq_some_iff.mpr ⟨_,syscallOpen_opens treeHooks_open
    (fourByteRoot_path (SameTree.refl fourByteRoot)) rfl rfl hflags
    (show findFreeFd fourByteRoot = some 3 by decide),rfl⟩

def openedRoot : KernelState := fourByteRoot.setFd 3 (openEntry 1 fourBytes oRdwr)

-- descriptor 3 is at offset 0 when descriptor 4 empties the file
theorem reads_inside_truncated : ∃ t, run (fdStep treeHooks constantAllocator) fourByteRoot
    [.open_ (some ['a']) oRdwr,.open_ (some ['a']) (oRdwr ||| oTrunc)] = some t ∧
    Opens (t.fd_table.get 3) 1 ∧ ReadsInside treeHooks 1 t := by
  have hopen : fdStep treeHooks constantAllocator fourByteRoot (.open_ (some ['a']) oRdwr) =
      some openedRoot := fdStep_opens (by decide)
  have htruncate := fdStep_truncates (t := openedRoot) (i := 4) ⟨rfl,rfl⟩ rfl (by decide)
  have hrun : run (fdStep treeHooks constantAllocator) fourByteRoot
      [.open_ (some ['a']) oRdwr,.open_ (some ['a']) (oRdwr ||| oTrunc)] = some _ :=
    Option.bind_eq_some_iff.mpr ⟨_,hopen,Option.bind_eq_some_iff.mpr ⟨_,htruncate,rfl⟩⟩
  refine ⟨_,hrun,⟨rfl,rfl⟩,
    reads_inside treeHooks_leaves rfl rfl rfl (zeroed_unopened rfl · 1) ?_ hrun⟩
  refine ⟨fun hflags => absurd rfl hflags,fun s hs => ⟨?_,fun _ _ => trivial⟩⟩
  obtain rfl := Option.some.inj (hopen.symm.trans hs)
  intro _ _ node hnode _
  cases hnode
  refine .inr (.inr fun i hi => ?_)
  rw [openedRoot,setFd_get] at hi ⊢
  by_cases hthree : i = 3
  · rw [if_pos hthree]
    rfl
  · rw [if_neg hthree] at hi
    exact absurd hi (zeroed_unopened rfl i 1)

def appendedRoot : KernelState :=
  fourByteRoot.setFd 3 (openEntry 1 fourBytes (oRdwr ||| oAppend))

def truncatedRoot : KernelState :=
  ((memset appendedRoot 0x200000 0#8 4).setNode 1 { fourBytes with length := 0#32 }).setFd 4
    ⟨true,some 1,0#32⟩

-- descriptor 3 stays at offset 4 when descriptor 4 empties the file
theorem truncation_leaves_offset : ∃ t, run (fdStep treeHooks constantAllocator) fourByteRoot
    [.open_ (some ['a']) (oRdwr ||| oAppend),.open_ (some ['a']) (oRdwr ||| oTrunc)] = some t ∧
    ¬ ReadsInside treeHooks 1 t := by
  have happend : fdStep treeHooks constantAllocator fourByteRoot
      (.open_ (some ['a']) (oRdwr ||| oAppend)) = some appendedRoot := fdStep_opens (by decide)
  have htruncate : fdStep treeHooks constantAllocator appendedRoot
      (.open_ (some ['a']) (oRdwr ||| oTrunc)) = some truncatedRoot :=
    fdStep_truncates (t := appendedRoot) (i := 4) ⟨rfl,rfl⟩ rfl (by decide)
  refine ⟨truncatedRoot,Option.bind_eq_some_iff.mpr ⟨_,happend,Option.bind_eq_some_iff.mpr
    ⟨_,htruncate,rfl⟩⟩,fun hreads => ?_⟩
  obtain ⟨node,t,n,data,hnode,hread,hbound⟩ := hreads 3 3 1#32 rfl (by decide) ⟨rfl,rfl⟩
  cases hnode
  have hone : (syscallRead treeHooks truncatedRoot 3 1#32).map (fun r => r.2.1) = some 1#32 := by
    decide
  rw [hread] at hone
  cases hone
  rcases hbound with ⟨hmask,-⟩ | ⟨hle,-⟩
  · exact absurd hmask (by decide)
  · exact absurd hle (by decide)

end Run

end KluxOS.Syscall
