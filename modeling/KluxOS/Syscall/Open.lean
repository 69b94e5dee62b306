import KluxOS.Fs.Tree
import KluxOS.Syscall.Syscall

namespace KluxOS.Syscall

open KernelState Fs

section OpenNode

variable {hooks : Hooks} {alloc : Allocator} {s : KernelState} {pathname : CString} {flags : Uint32}

def createdState (alloc : Allocator) (s : KernelState) (pathname : CString) : KernelState :=
  { s with
    blocks := (allocate alloc s fsNodeSize).1.blocks
    nodes := s.nodes ++ [createdNode s (fileName pathname) .file] }

theorem createdState_old {p : NodePtr} (h : p < s.nodes.length) :
    (createdState alloc s pathname).nodes[p]? = s.nodes[p]? := List.getElem?_append_left h

theorem createdState_keeps {p : NodePtr} {n : FsNode} (h : s.nodes[p]? = some n) :
    (createdState alloc s pathname).nodes[p]? = some n := (createdState_old (lt_of_node h)).trans h

theorem createdState_new : (createdState alloc s pathname).nodes[s.nodes.length]? =
    some (createdNode s (fileName pathname) .file) := List.getElem?_concat_length

theorem openNode_found {p : NodePtr} (h : fsResolvePath hooks s (some pathname) = some (some p)) :
    openNode hooks alloc s pathname flags = some (s,some p) := by
  simp only [openNode,h,Option.bind_eq_bind,Option.bind_some]

variable (h : fsResolvePath hooks s (some pathname) = some none)

include h

theorem openNode_missing (hcreat : flags &&& oCreat = 0#32) :
    openNode hooks alloc s pathname flags =
      some (pathError s "ERROR: File not found: " pathname,none) := by
  simp only [openNode,h,Option.bind_eq_bind,Option.bind_some,if_pos hcreat]

variable (hcreat : flags &&& oCreat ≠ 0#32)

include hcreat

theorem openNode_orphan (hparent : fsGetParentDir hooks s (some pathname) = some none) :
    openNode hooks alloc s pathname flags =
      some (pathError s "ERROR: Parent directory not found: " pathname,none) := by
  simp only [openNode,h,hparent,Option.bind_eq_bind,Option.bind_some,if_neg hcreat]

variable {parent : NodePtr} (hparent : fsGetParentDir hooks s (some pathname) = some (some parent))

include hparent

theorem openNode_null (halloc : (allocate alloc s fsNodeSize).2 = 0#32) :
    openNode hooks alloc s pathname flags = some (pathError (allocate alloc s fsNodeSize).1
      "ERROR: Could not create file: " pathname,none) := by
  simp only [openNode,h,hparent,fsCreateNode_null alloc s halloc,Option.bind_eq_bind,
    Option.bind_some,if_neg hcreat]

theorem openNode_create (halloc : (allocate alloc s fsNodeSize).2 ≠ 0#32) :
    openNode hooks alloc s pathname flags =
      (fsAddNode (createdState alloc s pathname) (some parent) (some s.nodes.length)).bind fun t =>
        some (pathError t "File created: " pathname,some s.nodes.length) := by
  simp only [openNode,h,hparent,fsCreateNode_some alloc s halloc,Option.bind_eq_bind,
    Option.bind_some,if_neg hcreat]
  rfl

end OpenNode

section OpenFile

variable {hooks : Hooks} {alloc : Allocator} {s t : KernelState} {pathname : CString}
  {flags : Uint32} {p : NodePtr}

theorem findFreeFd_congr (h : t.fd_table = s.fd_table) : findFreeFd t = findFreeFd s := by
  rw [findFreeFd,findFreeFd,h]

theorem truncateNode_fd_table (htrunc : ∀ hook s p t, hooks.truncate hook s p = some t →
    t.fd_table = s.fd_table) {node : FsNode}
    (ht : truncateNode hooks s p node = some t) : t.fd_table = s.fd_table := by
  unfold truncateNode at ht
  cases hhook : node.truncate with
  | none =>
    rw [hhook] at ht
    simp only at ht
    split at ht
    · cases ht
      rfl
    · cases ht
      rfl
  | some hook =>
    rw [hhook] at ht
    exact htrunc hook s p t ht

theorem openFd_full (h : findFreeFd s = none) : openFd hooks s p flags =
    some (s.print "ERROR: Maximum number of open files reached\n".toList,-1) := by
  simp only [openFd,h]

theorem openFd_fails {r : KernelState} (h : openFd hooks s p flags = some (r,-1)) :
    findFreeFd s = none := by
  cases hfree : findFreeFd s with
  | none => rfl
  | some fd =>
    simp only [openFd,hfree] at h
    obtain ⟨node,-,h⟩ := Option.bind_eq_some_iff.mp h
    have hfd : (fd.val : ℤ) = -1 := by
      cases hopen : node.open_ with
      | none =>
        simp only [hopen] at h
        exact congrArg Prod.snd (Option.some.inj h)
      | some hook =>
        simp only [hopen] at h
        obtain ⟨u,-,h⟩ := Option.bind_eq_some_iff.mp h
        exact congrArg Prod.snd (Option.some.inj h)
    omega

theorem openFd_spec (hopen : ∀ hook s p t, hooks.open_ hook s p = some t → t = s)
    {fd : ℤ} (h : openFd hooks s p flags = some (t,fd)) (hfd : 0 ≤ fd) :
    ∃ i node, findFreeFd s = some i ∧ s.nodes[p]? = some node ∧ fd = i.val ∧
      t = s.setFd i ⟨true,some p,if flags &&& oAppend ≠ 0#32 then node.length else 0#32⟩ := by
  cases hfree : findFreeFd s with
  | none =>
    rw [openFd_full hfree] at h
    cases h
    exact absurd hfd (by decide)
  | some i =>
    simp only [openFd,hfree] at h
    obtain ⟨node,hnode,h⟩ := Option.bind_eq_some_iff.mp h
    refine ⟨i,node,rfl,hnode,?_⟩
    cases hhook : node.open_ with
    | none =>
      simp only [hhook] at h
      cases h
      exact ⟨rfl,rfl⟩
    | some hook =>
      simp only [hhook] at h
      obtain ⟨u,hu,h⟩ := Option.bind_eq_some_iff.mp h
      cases h
      exact ⟨rfl,hopen _ _ _ _ hu⟩

theorem openFd_opens (hopen : ∀ hook s p, hooks.open_ hook s p = some s)
    {i : Fin 32} (hfree : findFreeFd s = some i) {node : FsNode}
    (hnode : s.nodes[p]? = some node) (flags : Uint32) :
    openFd hooks s p flags = some (s.setFd i ⟨true,some p,
      if flags &&& oAppend ≠ 0#32 then node.length else 0#32⟩,(i.val : ℤ)) := by
  simp only [openFd,hfree,hnode,Option.bind_eq_bind,Option.bind_some]
  cases node.open_ with
  | none => rfl
  | some hook => simp only [hopen,Option.bind_some]

theorem findFreeFd_some {i : Fin 32} (h : findFreeFd s = some i) :
    3 ≤ i.val ∧ (s.fd_table.get i).used = false := by
  simpa using List.find?_some h

theorem syscallOpen_exit (h : openNode hooks alloc s pathname flags = some (t,none)) :
    syscallOpen hooks alloc s (some pathname) flags = some (t,-1) := by
  simp only [syscallOpen,h,Option.bind_eq_bind,Option.bind_some]

variable {node : FsNode} (h : openNode hooks alloc s pathname flags = some (t,some p))
  (hnode : t.nodes[p]? = some node)

include h hnode

theorem syscallOpen_directory (htype : node.type ≠ .file) :
    syscallOpen hooks alloc s (some pathname) flags =
      some (pathError t "ERROR: Attempted to open a directory: " pathname,-1) := by
  simp only [syscallOpen,h,hnode,Option.bind_eq_bind,Option.bind_some,if_pos htype]

theorem syscallOpen_file (htype : node.type = .file) :
    syscallOpen hooks alloc s (some pathname) flags =
      (if flags &&& oTrunc ≠ 0#32 then truncateNode hooks t p node else some t).bind
        fun u => openFd hooks u p flags := by
  simp only [syscallOpen,h,hnode,Option.bind_eq_bind,Option.bind_some,if_neg (not_not.mpr htype)]
  split <;> rfl

-- a new file is empty, so O_TRUNC has nothing to do
theorem syscallOpen_created (htype : node.type = .file) (htruncate : node.truncate = none)
    (hlength : node.length = 0#32) :
    syscallOpen hooks alloc s (some pathname) flags = openFd hooks t p flags := by
  have hempty : truncateNode hooks t p node = some t := by
    simp only [truncateNode,htruncate,hlength]
    exact if_neg fun hpos => absurd hpos.1 (by decide)
  rw [syscallOpen_file h hnode htype,hempty,ite_self,Option.bind_some]

end OpenFile

section Created

variable {alloc : Allocator} {s : KernelState} {pathname : CString} {parent : NodePtr}

def childNode (s : KernelState) (pathname : CString) (parent : NodePtr) : FsNode :=
  { createdNode s (fileName pathname) .file with parent := some parent }

-- the state in which fs_add_node has linked the new file from the cell q
def linkedState (alloc : Allocator) (s : KernelState) (pathname : CString) (parent q : NodePtr)
    (n' : FsNode) : KernelState :=
  ((createdState alloc s pathname).setNode s.nodes.length (childNode s pathname parent)).setNode q n'

variable (alloc pathname) in
theorem fsAddNode_created (htree : Tree s) {d : FsNode} (hd : s.nodes[parent]? = some d)
    (hdir : d.type = .directory) : ∃ l q n n', Siblings s d.children l ∧
      LinkedFrom s parent s.nodes.length d l q n n' ∧
      fsAddNode (createdState alloc s pathname) (some parent) (some s.nodes.length) =
        some (linkedState alloc s pathname parent q n') := by
  obtain ⟨l,hl⟩ := htree.chains parent d hd hdir
  have hl' : Siblings (createdState alloc s pathname) d.children l :=
    siblings_of_next hl fun p n hn => ⟨n,createdState_keeps hn,rfl⟩
  have hfresh : s.nodes.length ∉ l := fun hmem => absurd (hl.lt_of_mem hmem) (lt_irrefl _)
  have hparent := lt_of_node hd
  obtain ⟨q,n,n',hlinked,hadd⟩ := fsAddNode_linked (createdState_keeps hd) hdir hl'
    createdState_new (Nat.ne_of_lt hparent) hfresh
  refine ⟨l,q,n,n',hl,?_,hadd⟩
  cases hlinked with
  | first hchildren _ => exact .first hchildren hd
  | last hchildren hq hn hend =>
    exact .last hchildren hq ((createdState_old (hl.lt_of_mem hq)).symm.trans hn) hend

theorem linkedState_new {q : NodePtr} (hq : q < s.nodes.length) (n' : FsNode) :
    (linkedState alloc s pathname parent q n').nodes[s.nodes.length]? =
      some (childNode s pathname parent) :=
  (setNode_other (Nat.ne_of_gt hq)).trans (setNode_self createdState_new)

theorem linkedState_cell {q : NodePtr} {n : FsNode} (hn : s.nodes[q]? = some n) (n' : FsNode) :
    (linkedState alloc s pathname parent q n').nodes[q]? = some n' :=
  setNode_self ((setNode_other (Nat.ne_of_lt (lt_of_node hn))).trans (createdState_keeps hn))

theorem linkedState_other {p q : NodePtr} (hp : p < s.nodes.length) (hpq : p ≠ q) (n' : FsNode) :
    (linkedState alloc s pathname parent q n').nodes[p]? = s.nodes[p]? :=
  ((setNode_other hpq).trans (setNode_other (Nat.ne_of_lt hp))).trans (createdState_old hp)

variable (alloc) in
theorem created_opens {hooks : Hooks} (flags : Uint32) (htree : Tree s)
    (hpath : fsResolvePath hooks s (some pathname) = some none)
    (hflag : flags &&& oCreat ≠ 0#32) (halloc : (allocate alloc s fsNodeSize).2 ≠ 0#32)
    (hparent : fsGetParentDir hooks s (some pathname) = some (some parent))
    {d : FsNode} (hd : s.nodes[parent]? = some d) (hdir : d.type = .directory) :
    ∃ l q n n', Siblings s d.children l ∧ LinkedFrom s parent s.nodes.length d l q n n' ∧
      syscallOpen hooks alloc s (some pathname) flags = openFd hooks
        (pathError (linkedState alloc s pathname parent q n') "File created: " pathname)
        s.nodes.length flags := by
  obtain ⟨l,q,n,n',hl,hlinked,hadd⟩ := fsAddNode_created alloc pathname htree hd hdir
  have hnew : (linkedState alloc s pathname parent q n').nodes[s.nodes.length]? =
    some (childNode s pathname parent) := linkedState_new (lt_of_node hlinked.changed.1) n'
  refine ⟨l,q,n,n',hl,hlinked,syscallOpen_created ?_ hnew rfl rfl rfl⟩
  rw [openNode_create hpath hflag hparent halloc,hadd,Option.bind_some]

def refusedState (alloc : Allocator) (s : KernelState) (pathname : CString) : KernelState :=
  (createdState alloc s pathname).print
    "HATA: Dizin olmayan bir dugume alt dugum eklenemez!\n".toList

variable (alloc) in
theorem refused_opens {hooks : Hooks} (flags : Uint32)
    (hpath : fsResolvePath hooks s (some pathname) = some none)
    (hflag : flags &&& oCreat ≠ 0#32) (halloc : (allocate alloc s fsNodeSize).2 ≠ 0#32)
    (hparent : fsGetParentDir hooks s (some pathname) = some (some parent)) {d : FsNode}
    (hd : (createdState alloc s pathname).nodes[parent]? = some d) (hdir : d.type ≠ .directory) :
    syscallOpen hooks alloc s (some pathname) flags = openFd hooks
      (pathError (refusedState alloc s pathname) "File created: " pathname)
      s.nodes.length flags := by
  have hnew : (createdState alloc s pathname).nodes[s.nodes.length]? =
    some (createdNode s (fileName pathname) .file) := createdState_new
  refine syscallOpen_created ?_ hnew rfl rfl rfl
  rw [openNode_create hpath hflag hparent halloc,fsAddNode_refused hd hdir,Option.bind_some]
  rfl

end Created

end KluxOS.Syscall
