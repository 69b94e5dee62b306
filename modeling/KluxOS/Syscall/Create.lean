import KluxOS.Fs.Growth
import KluxOS.Syscall.Open

namespace KluxOS.Syscall

open KernelState Fs LinkedList PathWalk

def SeparateChildren (s : KernelState) : Prop :=
  ∀ (p q : NodePtr) (d e : FsNode) (l m : List NodePtr), p ≠ q → s.nodes[p]? = some d →
    s.nodes[q]? = some e → d.type = .directory → e.type = .directory →
    Siblings s d.children l → Siblings s e.children m → l.Disjoint m

section Grown

variable (alloc : Allocator) {s : KernelState} (pathname : CString) {parent q : NodePtr}
  {d n n' : FsNode} {l : List NodePtr}

theorem createdState_grows :
    Grows s (createdState alloc s pathname) (createdNode s (fileName pathname) .file) none where
  length := by simp [createdState]
  fs_root := rfl
  new := createdState_new
  type := rfl
  target := rfl
  parent := rfl
  dir_lt := by
    rintro p ⟨⟩
  old := fun _ m hm => ⟨m,createdState_keeps hm,rfl⟩
  chains := by
    intro p m m' l hm hm' _ hl
    rw [createdState_keeps hm] at hm'
    cases hm'
    exact hl.frame fun r e he => ⟨e,createdState_keeps he,rfl⟩

theorem linkedState_old (hlinked : LinkedFrom s parent s.nodes.length d l q n n') {p : NodePtr}
    {m : FsNode} (hm : s.nodes[p]? = some m) : ∃ m',
      (linkedState alloc s pathname parent q n').nodes[p]? = some m' ∧ entry m' = entry m := by
  by_cases hp : p = q
  · subst hp
    have hn := hlinked.changed.1
    rw [hm] at hn
    cases hn
    refine ⟨n',linkedState_cell hm n',?_⟩
    cases hlinked <;> rfl
  · exact ⟨m,(linkedState_other (lt_of_node hm) hp n').trans hm,rfl⟩

theorem linkedState_chains_first (hd : s.nodes[parent]? = some d) (hchildren : d.children = none)
    {p : NodePtr} {m m' : FsNode} {k : List NodePtr} (hm : s.nodes[p]? = some m)
    (hm' : (linkedState alloc s pathname parent parent
      { d with children := some s.nodes.length }).nodes[p]? = some m')
    (hk : Siblings s m.children k) :
    Siblings (linkedState alloc s pathname parent parent
      { d with children := some s.nodes.length }) m'.children
      (if some parent = some p then k ++ [s.nodes.length] else k) := by
  have hnext : ∀ (r : NodePtr) (e : FsNode), s.nodes[r]? = some e → ∃ e',
      (linkedState alloc s pathname parent parent
        { d with children := some s.nodes.length }).nodes[r]? = some e' ∧ e'.next = e.next := by
    intro r e he
    by_cases hr : r = parent
    · subst hr
      rw [hd] at he
      cases he
      exact ⟨_,linkedState_cell hd _,rfl⟩
    · exact ⟨e,(linkedState_other (lt_of_node he) hr _).trans he,rfl⟩
  by_cases hp : parent = p
  · subst hp
    rw [hd] at hm
    cases hm
    rw [linkedState_cell hd] at hm'
    cases hm'
    rw [hchildren] at hk
    cases hk
    rw [if_pos rfl]
    exact .cons (linkedState_new (lt_of_node hd) _) .nil
  · rw [linkedState_other (lt_of_node hm) (Ne.symm hp),hm] at hm'
    cases hm'
    rw [if_neg fun h => hp (Option.some.inj h)]
    exact hk.frame hnext

theorem linkedState_chains_last (hn : s.nodes[q]? = some n) (hend : n.next = none) {p : NodePtr}
    {m m' : FsNode} {k : List NodePtr} (hm : s.nodes[p]? = some m)
    (hm' : (linkedState alloc s pathname parent q
      { n with next := some s.nodes.length }).nodes[p]? = some m')
    (hk : Siblings s m.children k) :
    Siblings (linkedState alloc s pathname parent q { n with next := some s.nodes.length })
      m'.children (if q ∈ k then k ++ [s.nodes.length] else k) := by
  have hchildren : m'.children = m.children := by
    by_cases hp : p = q
    · subst hp
      rw [hn] at hm
      cases hm
      rw [linkedState_cell hn] at hm'
      cases hm'
      rfl
    · rw [linkedState_other (lt_of_node hm) hp,hm] at hm'
      cases hm'
      rfl
  rw [hchildren]
  refine hk.link (fun a ha => ?_)
    (fun r e hr he => ⟨e,(linkedState_other (lt_of_node he) hr _).trans he,rfl⟩)
    ⟨_,linkedState_cell hn _,rfl⟩ (linkedState_new (lt_of_node hn) _) rfl
  rw [hn] at ha
  cases ha
  exact hend

theorem linkedState_chains (hseparate : SeparateChildren s) (hd : s.nodes[parent]? = some d)
    (hdir : d.type = .directory) (hl : Siblings s d.children l)
    (hlinked : LinkedFrom s parent s.nodes.length d l q n n') {p : NodePtr} {m m' : FsNode}
    {k : List NodePtr} (hm : s.nodes[p]? = some m)
    (hm' : (linkedState alloc s pathname parent q n').nodes[p]? = some m')
    (htype : m.type = .directory) (hk : Siblings s m.children k) :
    Siblings (linkedState alloc s pathname parent q n') m'.children
      (if some parent = some p then k ++ [s.nodes.length] else k) := by
  cases hlinked with
  | first hchildren _ => exact linkedState_chains_first alloc pathname hd hchildren hm hm' hk
  | last hchildren hq hn hend =>
    have hmem : q ∈ k ↔ some parent = some p := by
      constructor
      · intro hqk
        by_contra hne
        exact hseparate parent p d m l k (fun h => hne (congrArg some h)) hd hm hdir htype hl hk hq hqk
      · rintro ⟨⟩
        rw [hd] at hm
        cases hm
        exact hl.unique hk ▸ hq
    rw [← if_congr hmem rfl rfl]
    exact linkedState_chains_last alloc pathname hn hend hm hm' hk

theorem linkedState_grows (hseparate : SeparateChildren s) (hd : s.nodes[parent]? = some d)
    (hdir : d.type = .directory) (hl : Siblings s d.children l)
    (hlinked : LinkedFrom s parent s.nodes.length d l q n n') :
    Grows s (linkedState alloc s pathname parent q n') (childNode s pathname parent)
      (some parent) where
  length := by simp [linkedState,createdState]
  fs_root := rfl
  new := linkedState_new (lt_of_node hlinked.changed.1) n'
  type := rfl
  target := rfl
  parent := rfl
  dir_lt := by
    rintro p ⟨⟩
    exact lt_of_node hd
  old := fun _ _ hm => linkedState_old alloc pathname hlinked hm
  chains := fun _ _ _ _ hm hm' htype hk =>
    linkedState_chains alloc pathname hseparate hd hdir hl hlinked hm hm' htype hk

end Grown

section Name

variable {pathname : CString}

theorem fileName_plain : '/' ∉ fileName pathname := by
  unfold fileName
  cases hslash : strrchr '/' pathname with
  | none => exact strrchr_none hslash
  | some i => exact (strrchr_some hslash).2.1

theorem steps_split (pathname : CString) :
    steps pathname = steps (dirName pathname) ++ steps (fileName pathname) := by
  unfold dirName fileName
  cases hslash : strrchr '/' pathname with
  | none => rw [steps_nil,List.nil_append]
  | some i =>
    have hpath := congrArg steps (strrchr_some hslash).1
    rwa [steps_slash] at hpath

variable {N : Type} [DecidableEq N] (G : PathGraph N CString) {p : N} {f : CString}

-- after the first 127 bytes of the name the walk is on the new leaf
theorem walk_leaf (c : CString) (hf : '/' ∉ f) :
    (extend G p c).walk none (steps f) = some none ↔ f = [] ∨ f = ['.'] := by
  by_cases hne : f = []
  · simp [hne,steps_nil,PathGraph.walk]
  · by_cases hdot : f = ['.']
    · subst hdot
      exact iff_of_true rfl (.inr rfl)
    · by_cases hdots : f = ['.','.']
      · subst hdots
        refine iff_of_false (fun h => ?_) (by decide)
        cases Option.some.inj h
      · rw [steps_name hf hne hdot hdots]
        refine iff_of_false (fun h => ?_) (not_or.mpr ⟨hne,hdot⟩)
        cases h

theorem walk_name (hf : '/' ∉ f) (hmissing : G.walk p (steps f) = none)
    (hfree : G.child p (f.take 127) = none) :
    (extend G p (f.take 127)).walk (some p) (steps f) = some none ↔
      f.length ≤ 127 ∨ f.drop 127 = ['.'] := by
  have hne : f ≠ [] := by
    rintro rfl
    cases hmissing
  have hdot : f ≠ ['.'] := by
    rintro rfl
    cases hmissing
  have hdots : f ≠ ['.','.'] := by
    rintro rfl
    cases hmissing
  rw [steps_name hf hne hdot hdots,PathGraph.walk,extend_child_new G p _ hfree,Option.bind_some,
    walk_leaf G _ fun hmem => hf (List.mem_of_mem_drop hmem),List.drop_eq_nil_iff]

end Name

section Create

variable (hooks : Hooks) (alloc : Allocator) (s : KernelState)

-- the path leads to the new child of p and not past it
def LeadsToChild (p : NodePtr) (pathname : CString) : Prop :=
  if (dirName pathname).length ≤ 255 then
    (fileName pathname).length ≤ 127 ∨ (fileName pathname).drop 127 = ['.']
  else
    ∃ root, s.fs_root = some root ∧
      (extend (graph s) p ((fileName pathname).take 127)).walk (some root) (steps pathname) =
        some none

def CreatesPath (pathname : CString) : Prop :=
  ∃ p d, fsGetParentDir hooks s (some pathname) = some (some p) ∧ s.nodes[p]? = some d ∧
    d.type = .directory ∧ lookup s d ((fileName pathname).take 127) = none ∧
    LeadsToChild s p pathname

def PathOpened (pathname : CString) (fd : ℤ) : Prop :=
  ∃ i : Fin 32, fd = i.val ∧
    fsResolvePath hooks s (some pathname) = some (s.fd_table.get i).node

variable {hooks alloc s} {t : KernelState} {pathname : CString} {flags : Uint32} {fd : ℤ}

theorem openFd_opened (hopen : ∀ hook s p t, hooks.open_ hook s p = some t → t = s) {p : NodePtr}
    (h : openFd hooks s p flags = some (t,fd)) (hfd : 0 ≤ fd) :
    SameTree s t ∧ ∃ i : Fin 32, fd = i.val ∧ (t.fd_table.get i).node = some p := by
  obtain ⟨i,node,-,-,hi,rfl⟩ := openFd_spec hopen h hfd
  refine ⟨⟨rfl,rfl⟩,i,hi,?_⟩
  rw [setFd_get,if_pos rfl]

theorem pathOpened_iff (hexact : ExactFinddir hooks) (htree : Tree t) {p : NodePtr} {i : Fin 32}
    (hfd : fd = i.val) (hnode : (t.fd_table.get i).node = some p) :
    PathOpened hooks t pathname fd ↔ resolve t pathname = some p := by
  constructor
  · rintro ⟨j,hj,hpath⟩
    have hij : j = i := Fin.ext (by omega)
    subst hij
    rw [fsResolvePath_graph htree hexact,hnode] at hpath
    exact Option.some.inj hpath
  · intro hpath
    refine ⟨i,hfd,?_⟩
    rw [fsResolvePath_graph htree hexact,hnode,hpath]

theorem openFd_pathOpened (hexact : ExactFinddir hooks)
    (hopen : ∀ hook s p t, hooks.open_ hook s p = some t → t = s) (htree : Tree s) {p : NodePtr}
    (h : openFd hooks s p flags = some (t,fd)) (hfd : 0 ≤ fd) :
    PathOpened hooks t pathname fd ↔ resolve s pathname = some p := by
  obtain ⟨hsame,i,hi,hnode⟩ := openFd_opened hopen h hfd
  rw [pathOpened_iff hexact (hsame.tree htree) hi hnode,hsame.resolve_eq]

theorem truncateNode_sameTree (htruncate : ∀ hook s p t, hooks.truncate hook s p = some t →
    SameTree s t) {p : NodePtr} {node : FsNode} (hnode : s.nodes[p]? = some node)
    (h : truncateNode hooks s p node = some t) : SameTree s t := by
  unfold truncateNode at h
  cases hhook : node.truncate with
  | none =>
    simp only [hhook] at h
    split at h
    · cases h
      refine sameTree_set hnode ?_ rfl rfl
      rfl
    · cases h
      exact .refl s
  | some hook =>
    simp only [hhook] at h
    exact htruncate hook s p t h

theorem found_opened (hexact : ExactFinddir hooks)
    (hopen : ∀ hook s p t, hooks.open_ hook s p = some t → t = s)
    (htruncate : ∀ hook s p t, hooks.truncate hook s p = some t → SameTree s t) (htree : Tree s)
    {p : NodePtr} (hpath : resolve s pathname = some p)
    (h : syscallOpen hooks alloc s (some pathname) flags = some (t,fd)) (hfd : 0 ≤ fd) :
    PathOpened hooks t pathname fd := by
  have hfound : openNode hooks alloc s pathname flags = some (s,some p) :=
    openNode_found ((fsResolvePath_graph htree hexact pathname).trans (congrArg some hpath))
  obtain ⟨node,hnode⟩ : ∃ node, s.nodes[p]? = some node :=
    ⟨_,List.getElem?_eq_getElem (resolve_lt htree hpath)⟩
  by_cases htype : node.type = .file
  · rw [syscallOpen_file hfound hnode htype] at h
    obtain ⟨u,hu,h⟩ := Option.bind_eq_some_iff.mp h
    have hsame : SameTree s u := by
      split at hu
      · exact truncateNode_sameTree htruncate hnode hu
      · cases hu
        exact .refl s
    rw [openFd_pathOpened hexact hopen (hsame.tree htree) h hfd,hsame.resolve_eq,hpath]
  · rw [syscallOpen_directory hfound hnode htype] at h
    cases h
    exact absurd hfd (by decide)

theorem refused_not_opened (hexact : ExactFinddir hooks)
    (hopen : ∀ hook s p t, hooks.open_ hook s p = some t → t = s) (htree : Tree s)
    (hpath : resolve s pathname = none) (hcreat : flags &&& oCreat ≠ 0#32)
    (halloc : (allocate alloc s fsNodeSize).2 ≠ 0#32) {parent : NodePtr} {d : FsNode}
    (hparent : fsGetParentDir hooks s (some pathname) = some (some parent))
    (hd : s.nodes[parent]? = some d) (hdir : d.type ≠ .directory)
    (h : syscallOpen hooks alloc s (some pathname) flags = some (t,fd)) (hfd : 0 ≤ fd) :
    ¬ PathOpened hooks t pathname fd := by
  have hmissing : fsResolvePath hooks s (some pathname) = some none :=
    (fsResolvePath_graph htree hexact pathname).trans (congrArg some hpath)
  rw [refused_opens alloc flags hmissing hcreat halloc hparent (createdState_keeps hd) hdir] at h
  have hgrows := createdState_grows (s := s) alloc pathname
  have hsame : SameTree (createdState alloc s pathname) (pathError
    (refusedState alloc s pathname) "File created: " pathname) := ⟨rfl,rfl⟩
  rw [openFd_pathOpened hexact hopen (hsame.tree (hgrows.tree htree)) h hfd,hsame.resolve_eq,
    hgrows.resolve_old htree (by rintro p n ⟨⟩),hpath]
  exact fun h => by cases h

theorem leadsToChild_iff (hpath : resolve s pathname = none) {parent : NodePtr} {d : FsNode}
    (hparent : resolve s ((dirName pathname).take 255) = some parent)
    (hd : s.nodes[parent]? = some d) (hdir : d.type = .directory)
    (hfree : lookup s d ((fileName pathname).take 127) = none) :
    (∃ root, s.fs_root = some root ∧
      (extend (graph s) parent ((fileName pathname).take 127)).walk (some root) (steps pathname) =
        some none) ↔ LeadsToChild s parent pathname := by
  unfold LeadsToChild
  by_cases hlen : (dirName pathname).length ≤ 255
  · rw [if_pos hlen]
    rw [List.take_of_length_le hlen] at hparent
    obtain ⟨root,hroot,hparent⟩ := Option.bind_eq_some_iff.mp hparent
    have hmissing : (graph s).walk parent (steps (fileName pathname)) = none := by
      rw [resolve,hroot,Option.bind_some,steps_split,PathGraph.walk_append,hparent] at hpath
      exact hpath
    have hchild : (graph s).child parent ((fileName pathname).take 127) = none := by
      simp only [graph,hd,hdir,hfree,if_true,Option.bind_some,Option.bind_none]
    simp only [hroot,Option.some.injEq,exists_eq_left',steps_split pathname,PathGraph.walk_append,
      extend_walk_old _ _ _ hparent,Option.bind_some]
    exact walk_name (graph s) fileName_plain hmissing hchild
  · rw [if_neg hlen]

theorem linked_opened (hexact : ExactFinddir hooks)
    (hopen : ∀ hook s p t, hooks.open_ hook s p = some t → t = s) (htree : Tree s)
    (hseparate : SeparateChildren s) (hpath : resolve s pathname = none)
    (hcreat : flags &&& oCreat ≠ 0#32) (halloc : (allocate alloc s fsNodeSize).2 ≠ 0#32)
    {parent : NodePtr} {d : FsNode}
    (hparent : fsGetParentDir hooks s (some pathname) = some (some parent))
    (hd : s.nodes[parent]? = some d) (hdir : d.type = .directory)
    (h : syscallOpen hooks alloc s (some pathname) flags = some (t,fd)) (hfd : 0 ≤ fd) :
    PathOpened hooks t pathname fd ↔
      lookup s d ((fileName pathname).take 127) = none ∧ LeadsToChild s parent pathname := by
  have hmissing : fsResolvePath hooks s (some pathname) = some none :=
    (fsResolvePath_graph htree hexact pathname).trans (congrArg some hpath)
  obtain ⟨l,q,n,n',hl,hlinked,hcreated⟩ := created_opens alloc flags htree hmissing hcreat halloc hparent hd hdir
  rw [hcreated] at h
  have hgrows := linkedState_grows alloc pathname hseparate hd hdir hl hlinked
  have hsame : SameTree (linkedState alloc s pathname parent q n')
    (pathError (linkedState alloc s pathname parent q n') "File created: " pathname) := ⟨rfl,rfl⟩
  rw [openFd_pathOpened hexact hopen (hsame.tree (hgrows.tree htree)) h hfd,hsame.resolve_eq]
  by_cases hfree : lookup s d ((fileName pathname).take 127) = none
  · rw [hgrows.resolve_new htree rfl hd hdir hfree,and_iff_right hfree]
    exact leadsToChild_iff hpath (Option.some.inj
      ((fsGetParentDir_graph htree hexact pathname).symm.trans hparent)) hd hdir hfree
  · have hhidden : ∀ p e, some parent = some p → s.nodes[p]? = some e →
        lookup s e (childNode s pathname parent).name ≠ none := by
      rintro p e ⟨⟩ he
      rw [hd] at he
      cases he
      exact hfree
    rw [hgrows.resolve_old htree hhidden,hpath]
    exact iff_of_false (fun h => by cases h) fun h => hfree h.1

theorem created_parent (hexact : ExactFinddir hooks) (htree : Tree s)
    (hmissing : fsResolvePath hooks s (some pathname) = some none) (hcreat : flags &&& oCreat ≠ 0#32)
    (h : syscallOpen hooks alloc s (some pathname) flags = some (t,fd)) (hfd : 0 ≤ fd) :
    ∃ parent d, fsGetParentDir hooks s (some pathname) = some (some parent) ∧
      s.nodes[parent]? = some d ∧ (allocate alloc s fsNodeSize).2 ≠ 0#32 := by
  have hdir := fsGetParentDir_graph htree hexact pathname
  cases hparent : resolve s ((dirName pathname).take 255) with
  | none =>
    rw [hparent] at hdir
    rw [syscallOpen_exit (openNode_orphan hmissing hcreat hdir)] at h
    cases h
    exact absurd hfd (by decide)
  | some parent =>
    rw [hparent] at hdir
    refine ⟨parent,_,hdir,List.getElem?_eq_getElem (resolve_lt htree hparent),fun halloc => ?_⟩
    rw [syscallOpen_exit (openNode_null hmissing hcreat hdir halloc)] at h
    cases h
    exact absurd hfd (by decide)

end Create

theorem create_makes_path_exist (hooks : Hooks) (alloc : Allocator) (s t : KernelState)
    (htree : Tree s) (hseparate : SeparateChildren s) (hexact : ExactFinddir hooks)
    (hopen : ∀ hook s p t, hooks.open_ hook s p = some t → t = s)
    (htruncate : ∀ hook s p t, hooks.truncate hook s p = some t → SameTree s t)
    (pathname : CString) (flags : Uint32) (hcreat : flags &&& oCreat ≠ 0#32) (fd : ℤ)
    (h : syscallOpen hooks alloc s (some pathname) flags = some (t,fd)) (hfd : 0 ≤ fd) :
    PathOpened hooks t pathname fd ↔
      (∃ p, fsResolvePath hooks s (some pathname) = some (some p)) ∨
      CreatesPath hooks s pathname := by
  cases hpath : resolve s pathname with
  | some p =>
    refine iff_of_true (found_opened hexact hopen htruncate htree hpath h hfd) (.inl ⟨p,?_⟩)
    rw [fsResolvePath_graph htree hexact,hpath]
  | none =>
    have hmissing : fsResolvePath hooks s (some pathname) = some none :=
      (fsResolvePath_graph htree hexact pathname).trans (congrArg some hpath)
    rw [hmissing,or_iff_right (by rintro ⟨p,⟨⟩⟩)]
    obtain ⟨parent,d,hparent,hd,halloc⟩ := created_parent hexact htree hmissing hcreat h hfd
    have hunique : ∀ p, fsGetParentDir hooks s (some pathname) = some (some p) → p = parent := by
      intro p hp
      rw [hparent] at hp
      cases hp
      rfl
    by_cases hdir : d.type = .directory
    · rw [linked_opened hexact hopen htree hseparate hpath hcreat halloc hparent hd hdir h hfd]
      constructor
      · rintro ⟨hfree,hleads⟩
        exact ⟨parent,d,hparent,hd,hdir,hfree,hleads⟩
      · rintro ⟨p,e,hp,he,-,hfree,hleads⟩
        obtain rfl := hunique p hp
        rw [hd] at he
        cases he
        exact ⟨hfree,hleads⟩
    · refine iff_of_false (refused_not_opened hexact hopen htree hpath hcreat halloc hparent hd hdir
        h hfd) ?_
      rintro ⟨p,e,hp,he,hdir',-⟩
      obtain rfl := hunique p hp
      rw [hd] at he
      cases he
      exact hdir hdir'

section Example

theorem rootWithFile_separate : SeparateChildren rootWithFile := by
  intro p q d e l m hpq hd he hdir hdir' hl hm
  match p,q with
  | 0,0 => exact absurd rfl hpq
  | 0,1 =>
    cases he
    cases hdir'
  | 1,_ =>
    cases hd
    cases hdir

theorem rootWithFile_resolve (path : CString) :
    fsResolvePath treeHooks rootWithFile (some path) = some (resolve rootWithFile path) :=
  fsResolvePath_graph rootWithFile_tree treeHooks_exact path

theorem rootWithFile_parent (path : CString) : fsGetParentDir treeHooks rootWithFile (some path) =
    some (resolve rootWithFile ((dirName path).take 255)) :=
  fsGetParentDir_graph rootWithFile_tree treeHooks_exact path

theorem rootWithFile_free : findFreeFd rootWithFile = some 3 := by decide

theorem rootWithFile_creates (flags : Uint32) (hcreat : flags &&& oCreat ≠ 0#32) :
    ∃ t, syscallOpen treeHooks constantAllocator rootWithFile (some ['b']) flags = some (t,3) := by
  have hmissing : fsResolvePath treeHooks rootWithFile (some ['b']) = some none := by
    rw [rootWithFile_resolve]
    decide
  have hparent : fsGetParentDir treeHooks rootWithFile (some ['b']) = some (some 0) := by
    rw [rootWithFile_parent]
    decide
  obtain ⟨l,q,n,n',-,hlinked,hcall⟩ := created_opens constantAllocator flags
    rootWithFile_tree hmissing hcreat (by decide) hparent rfl rfl
  have hfree : findFreeFd (pathError (linkedState constantAllocator rootWithFile ['b'] 0 q n')
    "File created: " ['b']) = some 3 := (findFreeFd_congr rfl).trans rootWithFile_free
  have ht := openFd_opens treeHooks_open hfree
    (linkedState_new (lt_of_node hlinked.changed.1) n') flags
  exact ⟨_,hcall.trans ht⟩

theorem create_makes_path_exist_root : ∃ t, syscallOpen treeHooks constantAllocator rootWithFile
    (some ['b']) oCreat = some (t,3) ∧ PathOpened treeHooks t ['b'] 3 := by
  obtain ⟨t,ht⟩ := rootWithFile_creates oCreat (by decide)
  have hparent : fsGetParentDir treeHooks rootWithFile (some ['b']) = some (some 0) := by
    rw [rootWithFile_parent]
    decide
  refine ⟨t,ht,?_⟩
  refine (create_makes_path_exist treeHooks constantAllocator rootWithFile _ rootWithFile_tree
    rootWithFile_separate treeHooks_exact (fun _ _ _ _ h => (Option.some.inj h).symm)
    (fun _ _ _ _ h => by cases h) ['b'] oCreat (by decide) 3 ht (by decide)).mpr ?_
  refine .inr ⟨0,_,hparent,rfl,rfl,by decide,?_⟩
  rw [LeadsToChild,if_pos (by decide)]
  decide

-- a is a file, so a/b is created under nothing
theorem create_leaves_orphan : ∃ t, syscallOpen treeHooks constantAllocator rootWithFile
    (some ['a','/','b']) oCreat = some (t,3) ∧ ¬ PathOpened treeHooks t ['a','/','b'] 3 := by
  have hpath : resolve rootWithFile ['a','/','b'] = none := by decide
  have hparent : fsGetParentDir treeHooks rootWithFile (some ['a','/','b']) = some (some 1) := by
    rw [rootWithFile_parent]
    decide
  have hmissing := (rootWithFile_resolve ['a','/','b']).trans (congrArg some hpath)
  have hcall := refused_opens constantAllocator oCreat hmissing (by decide)
    (by decide) hparent (createdState_keeps (s := rootWithFile) rfl) (by decide)
  have hfree : findFreeFd (pathError (refusedState constantAllocator rootWithFile ['a','/','b'])
    "File created: " ['a','/','b']) = some 3 := (findFreeFd_congr rfl).trans rootWithFile_free
  have hnew : (createdState constantAllocator rootWithFile ['a','/','b']).nodes[2]? =
    some (createdNode rootWithFile ['b'] .file) := createdState_new
  have ht := openFd_opens treeHooks_open hfree hnew oCreat
  exact ⟨_,hcall.trans ht,refused_not_opened treeHooks_exact
    (fun _ _ _ _ h => (Option.some.inj h).symm) rootWithFile_tree hpath (by decide) (by decide)
    hparent rfl (by decide) (hcall.trans ht) (by decide)⟩

end Example

end KluxOS.Syscall
