import KluxOS.Syscall.Open

namespace KluxOS.Syscall

open ByteMemory KernelState Fs

def Opens (e : FdEntry) (p : NodePtr) : Prop := e.used = true ∧ e.node = some p

-- a node without its place in the tree
def core (n : FsNode) : FsNode := { n with parent := none, next := none, children := none }

-- only links of the tree and output differ: no table entry, and no data of a node
structure Relinked (s t : KernelState) : Prop where
  fd_table : t.fd_table = s.fd_table
  nodes : ∀ (q : NodePtr) (n : FsNode), s.nodes[q]? = some n → ∃ m, t.nodes[q]? = some m ∧ core m = core n

section Relinked

variable {s t u : KernelState}

theorem Relinked.of_eq (hfds : t.fd_table = s.fd_table) (hnodes : t.nodes = s.nodes) :
    Relinked s t := ⟨hfds,fun _ n hn => ⟨n,hnodes ▸ hn,rfl⟩⟩

theorem Relinked.trans (h : Relinked s t) (h' : Relinked t u) : Relinked s u := by
  refine ⟨h'.fd_table.trans h.fd_table,fun q n hn => ?_⟩
  obtain ⟨m,hm,hcore⟩ := h.nodes q n hn
  obtain ⟨k,hk,hcore'⟩ := h'.nodes q m hm
  exact ⟨k,hk,hcore'.trans hcore⟩

theorem relinked_setNode {p : NodePtr} {n n' : FsNode} (hn : s.nodes[p]? = some n)
    (hcore : core n' = core n) : Relinked s (s.setNode p n') := by
  refine ⟨rfl,fun q m hm => ?_⟩
  by_cases hq : q = p
  · subst hq
    obtain rfl := Option.some.inj (hn.symm.trans hm)
    exact ⟨n',setNode_self hn,hcore⟩
  · exact ⟨m,(setNode_other hq).trans hm,rfl⟩

theorem fsAddNode_relinked {parent child : Option NodePtr}
    (h : fsAddNode s parent child = some t) : Relinked s t := by
  cases fsAddNode_cases h with
  | ignored => exact .of_eq rfl rfl
  | refused text => exact .of_eq rfl rfl
  | @linked p c _ _ node _ _ _ _ _ _ _ hnode hn =>
    have hchild : Relinked s (s.setNode c { node with parent := some p }) :=
      relinked_setNode hnode rfl
    exact hchild.trans (relinked_setNode hn rfl)

theorem fsCreateNode_relinked (alloc : Allocator) (s : KernelState) (name : CString)
    (type : FsNodeType) : Relinked s (fsCreateNode alloc s name type).1 := by
  by_cases haddr : (allocate alloc s fsNodeSize).2 = 0#32
  · rw [fsCreateNode_null alloc s haddr,allocate_nodes]
    exact .of_eq rfl rfl
  · rw [fsCreateNode_some alloc s haddr]
    exact ⟨rfl,fun q n hn => ⟨n,(List.getElem?_append_left (lt_of_node hn)).trans hn,rfl⟩⟩

theorem openNode_relinked {hooks : Hooks} {alloc : Allocator} {pathname : CString}
    {flags : Uint32} {r : Option NodePtr}
    (h : openNode hooks alloc s pathname flags = some (t,r)) : Relinked s t := by
  obtain ⟨found,-,h⟩ := Option.bind_eq_some_iff.mp h
  cases found with
  | some p =>
    cases h
    exact .of_eq rfl rfl
  | none =>
    dsimp only at h
    split at h
    · cases h
      exact .of_eq rfl rfl
    · obtain ⟨parent,-,h⟩ := Option.bind_eq_some_iff.mp h
      cases parent with
      | none =>
        cases h
        exact .of_eq rfl rfl
      | some parent =>
        have hcreate := fsCreateNode_relinked alloc s (fileName pathname) .file
        dsimp only at h
        split at h
        · next u hu =>
          cases h
          rw [hu] at hcreate
          exact hcreate.trans (.of_eq rfl rfl)
        · next u node hu =>
          rw [hu] at hcreate
          obtain ⟨v,hv,h⟩ := Option.bind_eq_some_iff.mp h
          cases h
          exact (hcreate.trans (fsAddNode_relinked hv)).trans (.of_eq rfl rfl)

-- the node a call opens was there, and then nothing has changed yet, or is the new one
theorem openNode_origin {hooks : Hooks} {alloc : Allocator} {pathname : CString} {flags : Uint32}
    {p : NodePtr} (h : openNode hooks alloc s pathname flags = some (t,some p)) :
    fsResolvePath hooks s (some pathname) = some (some p) ∧ t = s ∨ p = s.nodes.length ∧
      ∃ node, t.nodes[p]? = some node ∧
        core node = core (createdNode s (fileName pathname) .file) := by
  obtain ⟨found,hpath,h⟩ := Option.bind_eq_some_iff.mp h
  cases found with
  | some q =>
    cases h
    exact .inl ⟨hpath,rfl⟩
  | none =>
    dsimp only at h
    split at h
    · cases h
    · obtain ⟨parent,-,h⟩ := Option.bind_eq_some_iff.mp h
      cases parent with
      | none => cases h
      | some parent =>
        dsimp only at h
        split at h
        · cases h
        · next u node hu =>
          obtain ⟨v,hv,h⟩ := Option.bind_eq_some_iff.mp h
          cases h
          by_cases haddr : (allocate alloc s fsNodeSize).2 = 0#32
          · rw [fsCreateNode_null alloc s haddr] at hu
            cases hu
          · rw [fsCreateNode_some alloc s haddr] at hu
            cases hu
            exact .inr ⟨rfl,(fsAddNode_relinked hv).nodes _ _ List.getElem?_concat_length⟩

end Relinked

section Cases

variable (hooks : Hooks) (alloc : Allocator) (s : KernelState)

-- the open file a call on fd works on
structure OnFile (fd : ℤ) (i : Fin 32) (p : NodePtr) (node : FsNode) : Prop where
  index : fdIndex fd = some i
  opens : Opens (s.fd_table.get i) p
  found : s.nodes[p]? = some node

def readBody (p : NodePtr) (node : FsNode) (offset count : Uint32) :
    Option (KernelState × Uint32 × List Uint8) :=
  match node.read with
  | some hook => hooks.read hook s p offset count
  | none =>
    if node.contents ≠ 0#32 then
      let remaining := node.length - offset
      let read_size := if count > remaining then remaining else count
      some (s,read_size,loadBytes s.memory (node.contents + offset).toNat read_size.toNat)
    else some (s,0#32,[])

def writeBody (i : Fin 32) (p : NodePtr) (node : FsNode) (buf : ℕ → Uint8) (count : Uint32) :
    Option (KernelState × Uint32) :=
  match node.write with
  | some hook => (hooks.write hook s p (s.fd_table.get i).offset count buf).bind fun r =>
      syscallWrite.finish r.1 i p r.2
  | none =>
    match resize alloc s p node ((s.fd_table.get i).offset + count) with
    | none => some ((krealloc alloc s node.contents ((s.fd_table.get i).offset + count)).1.print
        "ERROR: File could not be resized - insufficient memory\n".toList,failed)
    | some (t,node') => syscallWrite.finish
        (memcpyFrom t (node'.contents + (s.fd_table.get i).offset).toNat buf count.toNat)
        i p count

inductive ReadCase (fd : ℤ) (count : Uint32) : KernelState → Uint32 → List Uint8 → Prop
  | refused (text : CString) : ReadCase fd count (s.print text) failed []
  | stdin {u : KernelState} {r : Uint32} {data : List Uint8} :
      (s.fd_table.get 0).used = true → syscallReadStdin s count = some (u,r,data) →
      ReadCase fd count u r data
  | served {i : Fin 32} {p : NodePtr} {node : FsNode} {t : KernelState} {r : Uint32}
      {data : List Uint8} : OnFile s fd i p node → node.mask &&& fsPermRead ≠ 0#32 →
      readBody hooks s p node (s.fd_table.get i).offset count = some (t,r,data) →
      ReadCase fd count
        (t.setFd i { t.fd_table.get i with offset := (t.fd_table.get i).offset + r }) r data

inductive WriteCase (fd : ℤ) (buf : ℕ → Uint8) (count : Uint32) : KernelState → Uint32 → Prop
  | printed (text : CString) (r : Uint32) : WriteCase fd buf count (s.print text) r
  | hooked {i : Fin 32} {p : NodePtr} {node : FsNode} {hook : Hook} {t u : KernelState}
      {n r : Uint32} : OnFile s fd i p node → node.mask &&& fsPermWrite ≠ 0#32 →
      node.write = some hook →
      hooks.write hook s p (s.fd_table.get i).offset count buf = some (t,n) →
      syscallWrite.finish t i p n = some (u,r) → WriteCase fd buf count u r
  | noSpace {i : Fin 32} {p : NodePtr} {node : FsNode} : OnFile s fd i p node →
      node.mask &&& fsPermWrite ≠ 0#32 → node.write = none →
      resize alloc s p node ((s.fd_table.get i).offset + count) = none →
      WriteCase fd buf count
        ((krealloc alloc s node.contents ((s.fd_table.get i).offset + count)).1.print
          "ERROR: File could not be resized - insufficient memory\n".toList) failed
  | stored {i : Fin 32} {p : NodePtr} {node node' : FsNode} {t u : KernelState} {r : Uint32} :
      OnFile s fd i p node → node.mask &&& fsPermWrite ≠ 0#32 → node.write = none →
      resize alloc s p node ((s.fd_table.get i).offset + count) = some (t,node') →
      syscallWrite.finish
        (memcpyFrom t (node'.contents + (s.fd_table.get i).offset).toNat buf count.toNat)
        i p count = some (u,r) → WriteCase fd buf count u r

inductive CloseCase (fd : ℤ) : KernelState → ℤ → Prop
  | refused (text : CString) : CloseCase fd (s.print text) (-1)
  | closed {i : Fin 32} {t : KernelState} : fdIndex fd = some i → 3 ≤ i.val →
      (s.fd_table.get i).used = true →
      (t = s ∨ ∃ hook p, hooks.close hook s p = some t) →
      CloseCase fd (t.setFd i ⟨false,none,0#32⟩) 0

-- the state in which the call looks for a free descriptor
def Truncated (t : KernelState) (p : NodePtr) (node : FsNode) (flags : Uint32)
    (v : KernelState) : Prop :=
  (if flags &&& oTrunc ≠ 0#32 then truncateNode hooks t p node else some t) = some v

def openEntry (p : NodePtr) (node : FsNode) (flags : Uint32) : FdEntry :=
  ⟨true,some p,if flags &&& oAppend ≠ 0#32 then node.length else 0#32⟩

inductive TruncateCase (t : KernelState) (p : NodePtr) (node : FsNode) : KernelState → Prop
  | kept : TruncateCase t p node t
  | hooked {hook : Hook} {v : KernelState} : node.truncate = some hook →
      hooks.truncate hook t p = some v → TruncateCase t p node v
  | emptied : node.truncate = none → node.length > 0#32 → node.contents ≠ 0#32 →
      TruncateCase t p node ((memset t node.contents.toNat 0#8 node.length.toNat).setNode p
        { node with length := 0#32 })

inductive OpenCase (pathname : Option CString) (flags : Uint32) : KernelState → ℤ → Prop
  | refused {t : KernelState} : Relinked s t → OpenCase pathname flags t (-1)
  | full {path : CString} {t v : KernelState} {p : NodePtr} {node : FsNode} (text : CString) :
      pathname = some path → openNode hooks alloc s path flags = some (t,some p) →
      t.nodes[p]? = some node → node.type = .file → Truncated hooks t p node flags v →
      OpenCase pathname flags (v.print text) (-1)
  | opened {path : CString} {t v u : KernelState} {p : NodePtr} {node node' : FsNode}
      {i : Fin 32} : pathname = some path →
      openNode hooks alloc s path flags = some (t,some p) → t.nodes[p]? = some node →
      node.type = .file → Truncated hooks t p node flags v → findFreeFd v = some i →
      v.nodes[p]? = some node' →
      (u = v.setFd i (openEntry p node' flags) ∨
        ∃ hook, hooks.open_ hook (v.setFd i (openEntry p node' flags)) p = some u) →
      OpenCase pathname flags u i.val

variable {hooks alloc s} {u : KernelState} {fd : ℤ} {count r : Uint32} {data : List Uint8}

theorem not_standardIn {i : Fin 32} (hi : 3 ≤ i.val) : i ≠ 0 := by
  rintro rfl
  exact absurd hi (by decide)

theorem syscallRead_missing {i : Fin 32} {p : NodePtr} (hfd : fdIndex fd = some i)
    (hopens : Opens (s.fd_table.get i) p) (hstdin : i ≠ 0) (hfound : s.nodes[p]? = none) :
    syscallRead hooks s fd count = none := by
  simp only [syscallRead,hfd,hopens.1,hopens.2,hfound,Bool.true_eq_false,if_neg hstdin,if_false,
    Option.bind_eq_bind,Option.bind_none]

theorem syscallRead_denied {i : Fin 32} {p : NodePtr} {node : FsNode} (hfile : OnFile s fd i p node)
    (hstdin : i ≠ 0) (hmask : node.mask &&& fsPermRead = 0#32) : syscallRead hooks s fd count =
      some (s.print "ERROR: Read permission denied\n".toList,failed,[]) := by
  simp only [syscallRead,hfile.index,hfile.opens.1,hfile.opens.2,hfile.found,Bool.true_eq_false,
    if_neg hstdin,if_pos hmask,if_false,Option.bind_eq_bind,Option.bind_some]

theorem syscallRead_served {i : Fin 32} {p : NodePtr} {node : FsNode} (hfile : OnFile s fd i p node)
    (hstdin : i ≠ 0) (hmask : node.mask &&& fsPermRead ≠ 0#32) : syscallRead hooks s fd count =
      (readBody hooks s p node (s.fd_table.get i).offset count).bind fun x => some
        (x.1.setFd i { x.1.fd_table.get i with offset := (x.1.fd_table.get i).offset + x.2.1 },
          x.2.1,x.2.2) := by
  simp only [syscallRead,hfile.index,hfile.opens.1,hfile.opens.2,hfile.found,Bool.true_eq_false,
    if_neg hstdin,if_neg hmask,if_false,Option.bind_eq_bind,Option.bind_some,readBody]
  cases node.read with
  | some hook => rfl
  | none =>
    by_cases hnull : node.contents ≠ 0#32
    · simp only [if_pos hnull,Option.bind_some,hfile.opens.1,hfile.opens.2]
    · simp only [if_neg hnull,Option.bind_some,hfile.opens.1,hfile.opens.2]

theorem syscallRead_cases (h : syscallRead hooks s fd count = some (u,r,data)) :
    ReadCase hooks s fd count u r data := by
  cases hfd : fdIndex fd with
  | none =>
    simp only [syscallRead,hfd] at h
    cases h
    exact .refused _
  | some i =>
    cases hused : (s.fd_table.get i).used with
    | false =>
      simp only [syscallRead,hfd,hused,if_true] at h
      cases h
      exact .refused _
    | true =>
      by_cases hstdin : i = 0
      · subst hstdin
        simp only [syscallRead,hfd,hused,Bool.true_eq_false,if_false,if_true] at h
        exact .stdin hused h
      · cases hnode : (s.fd_table.get i).node with
        | none =>
          simp only [syscallRead,hfd,hused,hnode,Bool.true_eq_false,if_false,if_neg hstdin] at h
          cases h
          exact .refused _
        | some p =>
          cases hfound : s.nodes[p]? with
          | none =>
            rw [syscallRead_missing hfd ⟨hused,hnode⟩ hstdin hfound] at h
            cases h
          | some node =>
            have hfile : OnFile s fd i p node := ⟨hfd,⟨hused,hnode⟩,hfound⟩
            by_cases hmask : node.mask &&& fsPermRead = 0#32
            · rw [syscallRead_denied hfile hstdin hmask] at h
              cases h
              exact .refused _
            · rw [syscallRead_served hfile hstdin hmask] at h
              obtain ⟨⟨t,n,bytes⟩,hbody,h⟩ := Option.bind_eq_some_iff.mp h
              cases h
              exact .served hfile hmask hbody

theorem not_standardOut {i : Fin 32} (hi : 3 ≤ i.val) : ¬ (i = 1 ∨ i = 2) := by
  rintro (rfl | rfl) <;> simp at hi

theorem syscallWrite_missing {buf : ℕ → Uint8} {i : Fin 32} {p : NodePtr}
    (hfd : fdIndex fd = some i) (hopens : Opens (s.fd_table.get i) p) (hout : ¬ (i = 1 ∨ i = 2))
    (hfound : s.nodes[p]? = none) : syscallWrite hooks alloc s fd buf count = none := by
  simp only [syscallWrite,hfd,hopens.1,hopens.2,hfound,Bool.true_eq_false,if_neg hout,if_false,
    Option.bind_eq_bind,Option.bind_none]

theorem syscallWrite_denied {buf : ℕ → Uint8} {i : Fin 32} {p : NodePtr} {node : FsNode}
    (hfile : OnFile s fd i p node) (hout : ¬ (i = 1 ∨ i = 2))
    (hmask : node.mask &&& fsPermWrite = 0#32) : syscallWrite hooks alloc s fd buf count =
      some (s.print "ERROR: Write permission denied\n".toList,failed) := by
  simp only [syscallWrite,hfile.index,hfile.opens.1,hfile.opens.2,hfile.found,Bool.true_eq_false,
    if_neg hout,if_pos hmask,if_false,Option.bind_eq_bind,Option.bind_some]

theorem syscallWrite_served {buf : ℕ → Uint8} {i : Fin 32} {p : NodePtr} {node : FsNode}
    (hfile : OnFile s fd i p node) (hout : ¬ (i = 1 ∨ i = 2))
    (hmask : node.mask &&& fsPermWrite ≠ 0#32) :
    syscallWrite hooks alloc s fd buf count = writeBody hooks alloc s i p node buf count := by
  cases hwrite : node.write with
  | some hook =>
    simp only [syscallWrite,hfile.index,hfile.opens.1,hfile.opens.2,hfile.found,hwrite,
      Bool.true_eq_false,if_neg hout,if_neg hmask,if_false,Option.bind_eq_bind,Option.bind_some,
      writeBody]
  | none =>
    cases hresize : resize alloc s p node ((s.fd_table.get i).offset + count) with
    | none =>
      simp only [syscallWrite,hfile.index,hfile.opens.1,hfile.opens.2,hfile.found,hwrite,hresize,
        Bool.true_eq_false,if_neg hout,if_neg hmask,if_false,Option.bind_eq_bind,Option.bind_some,
        writeBody]
    | some r =>
      simp only [syscallWrite,hfile.index,hfile.opens.1,hfile.opens.2,hfile.found,hwrite,hresize,
        Bool.true_eq_false,if_neg hout,if_neg hmask,if_false,Option.bind_eq_bind,Option.bind_some,
        writeBody]

theorem writeBody_case {buf : ℕ → Uint8} {i : Fin 32} {p : NodePtr} {node : FsNode}
    (hfile : OnFile s fd i p node) (hmask : node.mask &&& fsPermWrite ≠ 0#32)
    (h : writeBody hooks alloc s i p node buf count = some (u,r)) :
    WriteCase hooks alloc s fd buf count u r := by
  rw [writeBody] at h
  cases hwrite : node.write with
  | some hook =>
    simp only [hwrite] at h
    obtain ⟨⟨t,n⟩,hhook,h⟩ := Option.bind_eq_some_iff.mp h
    exact .hooked hfile hmask hwrite hhook h
  | none =>
    simp only [hwrite] at h
    cases hresize : resize alloc s p node ((s.fd_table.get i).offset + count) with
    | none =>
      simp only [hresize] at h
      cases h
      exact .noSpace hfile hmask hwrite hresize
    | some q =>
      simp only [hresize] at h
      exact .stored hfile hmask hwrite hresize h

theorem syscallWrite_cases {buf : ℕ → Uint8}
    (h : syscallWrite hooks alloc s fd buf count = some (u,r)) :
    WriteCase hooks alloc s fd buf count u r := by
  cases hfd : fdIndex fd with
  | none =>
    simp only [syscallWrite,hfd] at h
    cases h
    exact .printed _ _
  | some i =>
    by_cases hout : i = 1 ∨ i = 2
    · simp only [syscallWrite,hfd,if_pos hout] at h
      cases h
      exact .printed _ _
    · cases hused : (s.fd_table.get i).used with
      | false =>
        simp only [syscallWrite,hfd,hused,if_neg hout,if_true] at h
        cases h
        exact .printed _ _
      | true =>
        cases hnode : (s.fd_table.get i).node with
        | none =>
          simp only [syscallWrite,hfd,hused,hnode,if_neg hout,Bool.true_eq_false,if_false] at h
          cases h
          exact .printed _ _
        | some p =>
          cases hfound : s.nodes[p]? with
          | none =>
            rw [syscallWrite_missing hfd ⟨hused,hnode⟩ hout hfound] at h
            cases h
          | some node =>
            have hfile : OnFile s fd i p node := ⟨hfd,⟨hused,hnode⟩,hfound⟩
            by_cases hmask : node.mask &&& fsPermWrite = 0#32
            · rw [syscallWrite_denied hfile hout hmask] at h
              cases h
              exact .printed _ _
            · rw [syscallWrite_served hfile hout hmask] at h
              exact writeBody_case hfile hmask h

theorem syscallClose_cases {r : ℤ} (h : syscallClose hooks s fd = some (u,r)) :
    CloseCase hooks s fd u r := by
  cases hfd : fdIndex fd with
  | none =>
    simp only [syscallClose,hfd] at h
    cases h
    exact .refused _
  | some i =>
    by_cases hstd : i.val ≤ 2
    · simp only [syscallClose,hfd,if_pos hstd] at h
      cases h
      exact .refused _
    · cases hused : (s.fd_table.get i).used with
      | false =>
        simp only [syscallClose,hfd,hused,if_neg hstd,if_true] at h
        cases h
        exact .refused _
      | true =>
        have hclosed : ∀ t, (t = s ∨ ∃ hook p, hooks.close hook s p = some t) →
            CloseCase hooks s fd (t.setFd i ⟨false,none,0#32⟩) 0 :=
          fun t ht => .closed hfd (by omega) hused ht
        cases hnode : (s.fd_table.get i).node with
        | none =>
          simp only [syscallClose,hfd,hused,hnode,if_neg hstd,Bool.true_eq_false,if_false] at h
          cases h
          exact hclosed s (.inl rfl)
        | some p =>
          simp only [syscallClose,hfd,hused,hnode,if_neg hstd,Bool.true_eq_false,if_false] at h
          obtain ⟨node,-,h⟩ := Option.bind_eq_some_iff.mp h
          cases hclose : node.close with
          | none =>
            simp only [hclose] at h
            cases h
            exact hclosed s (.inl rfl)
          | some hook =>
            simp only [hclose] at h
            obtain ⟨t,ht,h⟩ := Option.bind_eq_some_iff.mp h
            cases h
            exact hclosed t (.inr ⟨hook,p,ht⟩)

theorem truncated_cases {t v : KernelState} {p : NodePtr} {node : FsNode} {flags : Uint32}
    (h : Truncated hooks t p node flags v) : TruncateCase hooks t p node v := by
  rw [Truncated] at h
  split at h
  · rw [truncateNode] at h
    split at h
    · next hook htruncate => exact .hooked htruncate h
    · next htruncate =>
      split at h
      · next hfull =>
        cases h
        exact .emptied htruncate hfull.1 hfull.2
      · cases h
        exact .kept
  · cases h
    exact .kept

theorem openFd_cases {t v : KernelState} {p : NodePtr} {node : FsNode} {path : CString}
    {flags : Uint32} (hopen : openNode hooks alloc s path flags = some (t,some p))
    (hnode : t.nodes[p]? = some node) (htype : node.type = .file)
    (hv : Truncated hooks t p node flags v) (h : openFd hooks v p flags = some (u,fd)) :
    OpenCase hooks alloc s (some path) flags u fd := by
  cases hfree : findFreeFd v with
  | none =>
    rw [openFd_full hfree] at h
    cases h
    exact .full _ rfl hopen hnode htype hv
  | some i =>
    simp only [openFd,hfree] at h
    obtain ⟨node',hnode',h⟩ := Option.bind_eq_some_iff.mp h
    cases hhook : node'.open_ with
    | none =>
      simp only [hhook] at h
      cases h
      exact .opened rfl hopen hnode htype hv hfree hnode' (.inl rfl)
    | some hook =>
      simp only [hhook] at h
      obtain ⟨w,hw,h⟩ := Option.bind_eq_some_iff.mp h
      cases h
      exact .opened rfl hopen hnode htype hv hfree hnode' (.inr ⟨hook,hw⟩)

theorem syscallOpen_cases {pathname : Option CString} {flags : Uint32}
    (h : syscallOpen hooks alloc s pathname flags = some (u,fd)) :
    OpenCase hooks alloc s pathname flags u fd := by
  cases pathname with
  | none =>
    cases h
    exact .refused (.of_eq rfl rfl)
  | some path =>
    cases hopen : openNode hooks alloc s path flags with
    | none =>
      simp only [syscallOpen,hopen] at h
      cases h
    | some r =>
      obtain ⟨t,found⟩ := r
      cases found with
      | none =>
        rw [syscallOpen_exit hopen] at h
        cases h
        exact .refused (openNode_relinked hopen)
      | some p =>
        cases hnode : t.nodes[p]? with
        | none =>
          simp only [syscallOpen,hopen,hnode,Option.bind_eq_bind,Option.bind_some] at h
          cases h
        | some node =>
          by_cases htype : node.type = .file
          · rw [syscallOpen_file hopen hnode htype] at h
            obtain ⟨v,hv,h⟩ := Option.bind_eq_some_iff.mp h
            exact openFd_cases hopen hnode htype hv h
          · rw [syscallOpen_directory hopen hnode htype] at h
            cases h
            exact .refused ((openNode_relinked hopen).trans (.of_eq rfl rfl))

theorem syscallOpen_opens {pathname : CString} {flags : Uint32} {p : NodePtr} {node : FsNode}
    {i : Fin 32} (hopen : ∀ hook s p, hooks.open_ hook s p = some s)
    (hpath : fsResolvePath hooks s (some pathname) = some (some p))
    (hnode : s.nodes[p]? = some node) (htype : node.type = .file)
    (hflags : flags &&& oTrunc = 0#32) (hfree : findFreeFd s = some i) :
    syscallOpen hooks alloc s (some pathname) flags =
      some (s.setFd i (openEntry p node flags),(i.val : ℤ)) := by
  rw [syscallOpen_file (openNode_found hpath) hnode htype,if_neg (not_not.mpr hflags),
    Option.bind_some]
  exact openFd_opens hopen hfree hnode flags

end Cases

end KluxOS.Syscall
