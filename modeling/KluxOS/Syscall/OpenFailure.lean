import KluxOS.Fs.Path
import KluxOS.Syscall.Open

namespace KluxOS.Syscall

open KernelState Fs

-- the nodes there were, the root, every byte of contents and the descriptor table
structure Unchanged (s t : KernelState) : Prop where
  nodes : ∀ p < s.nodes.length, t.nodes[p]? = s.nodes[p]?
  fs_root : t.fs_root = s.fs_root
  fd_table : t.fd_table = s.fd_table
  memory : t.memory = s.memory

theorem Unchanged.refl (s : KernelState) : Unchanged s s := ⟨fun _ _ => rfl,rfl,rfl,rfl⟩

theorem unchanged_print {s t : KernelState} {text : CString} :
    Unchanged s (t.print text) ↔ Unchanged s t :=
  ⟨fun h => ⟨h.nodes,h.fs_root,h.fd_table,h.memory⟩,fun h => ⟨h.nodes,h.fs_root,h.fd_table,h.memory⟩⟩

section Failure

variable (hooks : Hooks) (alloc : Allocator) (s : KernelState)

def TruncationShows (p : NodePtr) (node : FsNode) : Prop :=
  match node.truncate with
  | none => node.length > 0#32 ∧ node.contents ≠ 0#32
  | some hook => ∃ t, hooks.truncate hook s p = some t ∧ ¬ Unchanged s t

def TruncatesFile (pathname : CString) (flags : Uint32) : Prop :=
  ∃ p node, fsResolvePath hooks s (some pathname) = some (some p) ∧ s.nodes[p]? = some node ∧
    node.type = .file ∧ flags &&& oTrunc ≠ 0#32 ∧ TruncationShows hooks s p node

def CreatesFile (pathname : CString) (flags : Uint32) : Prop :=
  fsResolvePath hooks s (some pathname) = some none ∧ flags &&& oCreat ≠ 0#32 ∧
    (allocate alloc s fsNodeSize).2 ≠ 0#32 ∧
    ∃ parent, fsGetParentDir hooks s (some pathname) = some (some parent) ∧ IsDirectory s parent

def Damages (pathname : CString) (flags : Uint32) : Prop :=
  findFreeFd s = none ∧
    (TruncatesFile hooks s pathname flags ∨ CreatesFile hooks alloc s pathname flags)

variable {hooks alloc s}

theorem truncateNode_unchanged {p : NodePtr} {node : FsNode} {t : KernelState}
    (hshows : ¬ TruncationShows hooks s p node) (ht : truncateNode hooks s p node = some t) :
    Unchanged s t := by
  unfold truncateNode at ht
  unfold TruncationShows at hshows
  cases hhook : node.truncate with
  | none =>
    rw [hhook] at ht hshows
    simp only [if_neg hshows,Option.some.injEq] at ht
    rw [← ht]
    exact .refl s
  | some hook =>
    rw [hhook] at ht hshows
    by_contra hchanged
    exact hshows ⟨t,ht,hchanged⟩

theorem truncateNode_shows {p : NodePtr} {node : FsNode} (hnode : s.nodes[p]? = some node)
    (hshows : TruncationShows hooks s p node) :
    ∃ t, truncateNode hooks s p node = some t ∧ ¬ Unchanged s t := by
  unfold truncateNode
  unfold TruncationShows at hshows
  cases hhook : node.truncate with
  | none =>
    rw [hhook] at hshows
    refine ⟨_,if_pos hshows,fun hsame => ?_⟩
    have hlt := lt_of_node hnode
    have hnodes := (setNode_self hnode).symm.trans (hsame.nodes p hlt)
    rw [hnode] at hnodes
    have hlength : 0#32 = node.length := congrArg FsNode.length (Option.some.inj hnodes)
    have hpos := hshows.1
    rw [← hlength] at hpos
    exact absurd hpos (by decide)
  | some hook =>
    rw [hhook] at hshows
    exact hshows

theorem createdState_unchanged (pathname : CString) :
    Unchanged s (createdState alloc s pathname) := ⟨fun _ h => createdState_old h,rfl,rfl,rfl⟩

variable {pathname : CString} {flags : Uint32}

variable (alloc) in
theorem truncated_fails (htrunc : ∀ hook s p t, hooks.truncate hook s p = some t →
    t.fd_table = s.fd_table) (hfull : findFreeFd s = none)
    (h : TruncatesFile hooks s pathname flags) :
    ∃ t, syscallOpen hooks alloc s (some pathname) flags = some (t,-1) ∧ ¬ Unchanged s t := by
  obtain ⟨p,node,hpath,hnode,htype,hflag,hshows⟩ := h
  obtain ⟨t,ht,hchanged⟩ := truncateNode_shows hnode hshows
  have hfull' : findFreeFd t = none :=
    (findFreeFd_congr (truncateNode_fd_table htrunc ht)).trans hfull
  refine ⟨t.print "ERROR: Maximum number of open files reached\n".toList,?_,
    fun hsame => hchanged (unchanged_print.mp hsame)⟩
  rw [syscallOpen_file (openNode_found hpath) hnode htype,if_pos hflag,ht,Option.bind_some,
    openFd_full hfull']

theorem linked_changed {p q : NodePtr} {d n n' : FsNode} {l : List NodePtr}
    (h : LinkedFrom s p s.nodes.length d l q n n') (parent : NodePtr) :
    ¬ Unchanged s (linkedState alloc s pathname parent q n') := by
  intro hsame
  obtain ⟨hn,hne⟩ := h.changed
  have heq := (linkedState_cell hn n').symm.trans (hsame.nodes q (lt_of_node hn))
  rw [hn] at heq
  exact hne (Option.some.inj heq)

theorem created_fails (htree : Tree s) (hfull : findFreeFd s = none)
    (h : CreatesFile hooks alloc s pathname flags) :
    ∃ t, syscallOpen hooks alloc s (some pathname) flags = some (t,-1) ∧ ¬ Unchanged s t := by
  obtain ⟨hpath,hflag,halloc,parent,hparent,d,hd,hdir⟩ := h
  obtain ⟨l,q,n,n',hl,hlinked,hopen⟩ := created_opens alloc flags htree hpath hflag halloc hparent hd hdir
  have hfull' : findFreeFd (pathError (linkedState alloc s pathname parent q n') "File created: "
      pathname) = none := hfull
  refine ⟨_,hopen.trans (openFd_full hfull'),fun hsame => ?_⟩
  exact linked_changed hlinked parent (unchanged_print.mp (unchanged_print.mp hsame))

theorem refused_unchanged (hpath : fsResolvePath hooks s (some pathname) = some none)
    (hflag : flags &&& oCreat ≠ 0#32) (halloc : (allocate alloc s fsNodeSize).2 ≠ 0#32)
    {parent : NodePtr} (hparent : fsGetParentDir hooks s (some pathname) = some (some parent))
    (hdir : ¬ IsDirectory s parent) {t : KernelState}
    (ht : syscallOpen hooks alloc s (some pathname) flags = some (t,-1)) : Unchanged s t := by
  cases hd : (createdState alloc s pathname).nodes[parent]? with
  | none =>
    have hnone : openNode hooks alloc s pathname flags = none := by
      rw [openNode_create hpath hflag hparent halloc]
      simp only [fsAddNode,hd,Option.bind_eq_bind,Option.bind_none]
    simp only [syscallOpen,hnone,Option.bind_eq_bind,Option.bind_none] at ht
    cases ht
  | some d =>
    have htype : d.type ≠ .directory := by
      intro htype
      rcases Nat.lt_trichotomy parent s.nodes.length with hlt | rfl | hgt
      · exact hdir ⟨d,(createdState_old hlt).symm.trans hd,htype⟩
      · rw [createdState_new] at hd
        cases hd
        cases htype
      · have hlt : parent < s.nodes.length + 1 := by simpa [createdState] using lt_of_node hd
        exact absurd hgt (Nat.not_lt.mpr (Nat.lt_succ_iff.mp hlt))
    rw [refused_opens alloc flags hpath hflag halloc hparent hd htype] at ht
    rw [openFd_full (openFd_fails ht)] at ht
    cases ht
    have hsame : Unchanged s (createdState alloc s pathname) := createdState_unchanged pathname
    exact unchanged_print.mpr (unchanged_print.mpr (unchanged_print.mpr hsame))

theorem null_unchanged (hpath : fsResolvePath hooks s (some pathname) = some none)
    (hflag : flags &&& oCreat ≠ 0#32) (halloc : (allocate alloc s fsNodeSize).2 = 0#32)
    {parent : NodePtr} (hparent : fsGetParentDir hooks s (some pathname) = some (some parent))
    {t : KernelState} (ht : syscallOpen hooks alloc s (some pathname) flags = some (t,-1)) :
    Unchanged s t := by
  rw [syscallOpen_exit (openNode_null hpath hflag hparent halloc),allocate_nodes] at ht
  cases ht
  exact ⟨fun _ _ => rfl,rfl,rfl,rfl⟩

theorem found_unchanged (htrunc : ∀ hook s p t, hooks.truncate hook s p = some t →
    t.fd_table = s.fd_table) (hsafe : ¬ Damages hooks alloc s pathname flags) {p : NodePtr}
    (hpath : fsResolvePath hooks s (some pathname) = some (some p)) {t : KernelState}
    (ht : syscallOpen hooks alloc s (some pathname) flags = some (t,-1)) : Unchanged s t := by
  cases hnode : s.nodes[p]? with
  | none =>
    simp only [syscallOpen,openNode_found hpath,hnode,Option.bind_eq_bind,Option.bind_some,
      Option.bind_none] at ht
    cases ht
  | some node =>
    by_cases htype : node.type = .file
    · rw [syscallOpen_file (openNode_found hpath) hnode htype] at ht
      obtain ⟨u,hu,ht⟩ := Option.bind_eq_some_iff.mp ht
      have hfull := openFd_fails ht
      rw [openFd_full hfull] at ht
      cases ht
      refine unchanged_print.mpr ?_
      split at hu
      · next hflag =>
        by_cases hshows : TruncationShows hooks s p node
        · have hfull' := (findFreeFd_congr (truncateNode_fd_table htrunc hu)).symm.trans hfull
          exact absurd ⟨hfull',.inl ⟨p,node,hpath,hnode,htype,hflag,hshows⟩⟩ hsafe
        · exact truncateNode_unchanged hshows hu
      · cases hu
        exact .refl s
    · rw [syscallOpen_directory (openNode_found hpath) hnode htype] at ht
      cases ht
      exact unchanged_print.mpr (.refl s)

theorem unresolved_unchanged (htree : Tree s) (hsafe : ¬ Damages hooks alloc s pathname flags)
    (hpath : fsResolvePath hooks s (some pathname) = some none) {t : KernelState}
    (ht : syscallOpen hooks alloc s (some pathname) flags = some (t,-1)) : Unchanged s t := by
  by_cases hflag : flags &&& oCreat = 0#32
  · rw [syscallOpen_exit (openNode_missing hpath hflag)] at ht
    cases ht
    exact unchanged_print.mpr (.refl s)
  · cases hparent : fsGetParentDir hooks s (some pathname) with
    | none =>
      simp only [syscallOpen,openNode,hpath,hparent,if_neg hflag,Option.bind_eq_bind,
        Option.bind_some,Option.bind_none] at ht
      cases ht
    | some parent =>
      cases parent with
      | none =>
        rw [syscallOpen_exit (openNode_orphan hpath hflag hparent)] at ht
        cases ht
        exact unchanged_print.mpr (.refl s)
      | some parent =>
        by_cases halloc : (allocate alloc s fsNodeSize).2 = 0#32
        · exact null_unchanged hpath hflag halloc hparent ht
        · by_cases hdir : IsDirectory s parent
          · obtain ⟨d,hd,htype⟩ := hdir
            obtain ⟨l,q,n,n',-,-,hopen⟩ :=
              created_opens alloc flags htree hpath hflag halloc hparent hd htype
            rw [hopen] at ht
            have hfull := openFd_fails ht
            have hfull' : findFreeFd s = none := hfull
            exact absurd ⟨hfull',.inr ⟨hpath,hflag,halloc,parent,hparent,d,hd,htype⟩⟩ hsafe
          · exact refused_unchanged hpath hflag halloc hparent hdir ht

theorem failed_open_unchanged_iff (htree : Tree s) (htrunc : ∀ hook s p t,
    hooks.truncate hook s p = some t → t.fd_table = s.fd_table) :
    (∀ t, syscallOpen hooks alloc s (some pathname) flags = some (t,-1) → Unchanged s t) ↔
      ¬ Damages hooks alloc s pathname flags := by
  constructor
  · rintro hsame ⟨hfull,htruncates | hcreates⟩
    · obtain ⟨t,ht,hchanged⟩ := truncated_fails alloc htrunc hfull htruncates
      exact hchanged (hsame t ht)
    · obtain ⟨t,ht,hchanged⟩ := created_fails htree hfull hcreates
      exact hchanged (hsame t ht)
  · intro hsafe t ht
    cases hpath : fsResolvePath hooks s (some pathname) with
    | none =>
      simp only [syscallOpen,openNode,hpath,Option.bind_eq_bind,Option.bind_none] at ht
      cases ht
    | some node =>
      cases node with
      | none => exact unresolved_unchanged htree hsafe hpath ht
      | some p => exact found_unchanged htrunc hsafe hpath ht

end Failure

theorem failed_open_changes_nothing (hooks : Hooks) (alloc : Allocator) (s : KernelState)
    (htree : Tree s) (htrunc : ∀ hook s p t, hooks.truncate hook s p = some t →
      t.fd_table = s.fd_table) (pathname : Option CString) (flags : Uint32) :
    (∀ t, syscallOpen hooks alloc s pathname flags = some (t,-1) → Unchanged s t) ↔
      ∀ path, pathname = some path → ¬ Damages hooks alloc s path flags := by
  cases pathname with
  | none =>
    refine iff_of_true (fun t ht => ?_) (fun path hpath => by cases hpath)
    cases ht
    exact .refl s
  | some path =>
    rw [failed_open_unchanged_iff htree htrunc]
    constructor
    · rintro hsafe _ ⟨⟩
      exact hsafe
    · intro hsafe
      exact hsafe path rfl

section FullTable

-- the descriptors from 3 on all have the file a open
def fullTable : KernelState :=
  { rootWithFile with
    fd_table := Vector.ofFn fun i =>
      if 3 ≤ i.val then ⟨true,some 1,0#32⟩ else ⟨false,none,0#32⟩ }

theorem fullTable_tree : Tree fullTable :=
  ⟨rootWithFile_tree.chains,rootWithFile_tree.finddir,rootWithFile_tree.parent,
    rootWithFile_tree.target,rootWithFile_tree.root⟩

theorem fullTable_full : findFreeFd fullTable = none := by decide

theorem fullTable_unresolved : fsResolvePath treeHooks fullTable (some ['b']) = some none := by
  rw [fsResolvePath_eq treeHooks fullTable rfl]
  decide

theorem failed_open_changes_nothing_missing : ∃ t, syscallOpen treeHooks constantAllocator
    fullTable (some ['b']) oRdwr = some (t,-1) ∧ Unchanged fullTable t := by
  have hmissing : openNode treeHooks constantAllocator fullTable ['b'] oRdwr =
      some (pathError fullTable "ERROR: File not found: " ['b'],none) :=
    openNode_missing fullTable_unresolved (by decide)
  have hcall := syscallOpen_exit hmissing
  refine ⟨_,hcall,(failed_open_changes_nothing treeHooks constantAllocator fullTable fullTable_tree
    (fun _ _ _ _ ht => by cases ht) (some ['b']) oRdwr).mpr ?_ _ hcall⟩
  rintro path ⟨⟩ ⟨-,⟨p,node,-,-,-,hflag,-⟩ | ⟨-,hflag,-⟩⟩
  · exact hflag (by decide)
  · exact hflag (by decide)

theorem failed_open_creates_file : ∃ t, syscallOpen treeHooks constantAllocator fullTable
    (some ['b']) (oCreat ||| oRdwr) = some (t,-1) ∧ ¬ Unchanged fullTable t :=
  created_fails fullTable_tree fullTable_full
    ⟨fullTable_unresolved,by decide,by decide,0,rfl,_,rfl,rfl⟩

end FullTable

end KluxOS.Syscall
