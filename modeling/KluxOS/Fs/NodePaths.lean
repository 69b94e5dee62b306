import KluxOS.Fs.ComponentWalk
import KluxOS.Fs.TreeInvariant

namespace KluxOS.Fs

open KernelState LinkedList PathWalk Run

section Made

-- what fs_create_node leaves in a node and fs_add_node and fs_remove_node keep
structure MadeNode (n : FsNode) : Prop where
  finddir : n.type = .directory → n.finddir = some .fsFinddir
  name : n.name.length ≤ 127
  target : n.symlink_target = none

structure Made (s : KernelState) : Prop where
  node : ∀ (p : NodePtr) (n : FsNode), s.nodes[p]? = some n → MadeNode n
  root : ∀ r, s.fs_root = some r → ∃ d, s.nodes[r]? = some d ∧ d.type = .directory ∧ d.name = ['/']

variable {alloc : Allocator} {s t : KernelState}

theorem createdNode_made (s : KernelState) (name : CString) (type : FsNodeType) :
    MadeNode (createdNode s name type) := by
  refine ⟨fun htype => if_pos htype,?_,rfl⟩
  change (name.take 127).length ≤ 127
  rw [List.length_take]
  exact Nat.min_le_left ..

theorem Made.of_eq (h : Made s) (hnodes : t.nodes = s.nodes) (hroot : t.fs_root = s.fs_root) :
    Made t := by
  refine ⟨fun p n hn => h.node p n (hnodes ▸ hn),fun r hr => ?_⟩
  rw [hnodes]
  exact h.root r (hroot ▸ hr)

theorem Made.setNode (h : Made s) {p : NodePtr} {n n' : FsNode} (hn : s.nodes[p]? = some n)
    (hmade : MadeNode n → MadeNode n') (htype : n'.type = n.type) (hname : n'.name = n.name) :
    Made (s.setNode p n') := by
  refine ⟨fun q m hm => ?_,fun r hr => ?_⟩
  · rcases setNode_cases hm with ⟨-,rfl⟩ | ⟨-,hold⟩
    · exact hmade (h.node p n hn)
    · exact h.node q m hold
  · obtain ⟨d,hd,hdir,hslash⟩ := h.root r hr
    by_cases hrp : r = p
    · subst hrp
      rw [hn] at hd
      cases hd
      exact ⟨n',setNode_self hn,htype.trans hdir,hname.trans hslash⟩
    · exact ⟨d,(setNode_other hrp).trans hd,hdir,hslash⟩

theorem made_append (h : Made s) {n : FsNode} (hn : MadeNode n) (hnodes : t.nodes = s.nodes ++ [n])
    (hroot : t.fs_root = s.fs_root) : Made t := by
  refine ⟨fun p m hm => ?_,fun r hr => ?_⟩
  · rcases grown_cases hnodes hm with hm | ⟨-,rfl⟩
    · exact h.node p m hm
    · exact hn
  · obtain ⟨d,hd,hroot⟩ := h.root r (hroot ▸ hr)
    exact ⟨d,grown_old hnodes hd,hroot⟩

theorem made_create (h : Made s) (name : CString) (type : FsNodeType) :
    Made (fsCreateNode alloc s name type).1 := by
  by_cases haddr : (allocate alloc s fsNodeSize).2 = 0#32
  · rw [fsCreateNode_null alloc s haddr,allocate_nodes]
    exact h.of_eq rfl rfl
  · rw [fsCreateNode_some alloc s haddr]
    exact made_append h (createdNode_made s name type) rfl rfl

theorem made_add {parent child : Option NodePtr} (h : Made s)
    (ht : fsAddNode s parent child = some t) : Made t := by
  cases fsAddNode_cases ht with
  | ignored => exact h
  | refused text => exact h.of_eq rfl rfl
  | @linked p c q d node n _ _ _ _ _ _ hnode hn =>
    have hmid : Made (s.setNode c { node with parent := some p }) :=
      h.setNode hnode (fun m => ⟨m.finddir,m.name,m.target⟩) rfl rfl
    exact hmid.setNode hn (fun m => ⟨m.finddir,m.name,m.target⟩) rfl rfl

theorem made_setNext {current : NodePtr} {next : Option NodePtr} (h : Made s)
    (ht : setNext s current next = some t) : Made t := by
  obtain ⟨n,hn,ht⟩ := Option.bind_eq_some_iff.mp ht
  cases ht
  exact h.setNode hn (fun m => ⟨m.finddir,m.name,m.target⟩) rfl rfl

theorem made_detach {c : NodePtr} (h : Made s) (ht : detach s c = some t) : Made t := by
  obtain ⟨n,hn,ht⟩ := Option.bind_eq_some_iff.mp ht
  cases ht
  exact h.setNode hn (fun m => ⟨m.finddir,m.name,m.target⟩) rfl rfl

theorem made_remove {parent node : Option NodePtr} {status : ℤ} (h : Made s)
    (ht : fsRemoveNode s parent node = some (t,status)) : Made t := by
  unfold fsRemoveNode at ht
  split at ht
  · next p c =>
    obtain ⟨d,hd,ht⟩ := Option.bind_eq_some_iff.mp ht
    split at ht
    · cases ht
      exact h.of_eq rfl rfl
    · obtain ⟨child,-,ht⟩ := Option.bind_eq_some_iff.mp ht
      split at ht
      · obtain ⟨u,hu,ht⟩ := Option.bind_eq_some_iff.mp ht
        cases ht
        have hmid : Made (s.setNode p { d with children := child.next }) :=
          h.setNode hd (fun m => ⟨m.finddir,m.name,m.target⟩) rfl rfl
        exact made_detach hmid hu
      · obtain ⟨current,-,ht⟩ := Option.bind_eq_some_iff.mp ht
        split at ht
        · cases ht
          exact h
        · obtain ⟨u,hu,ht⟩ := Option.bind_eq_some_iff.mp ht
          obtain ⟨v,hv,ht⟩ := Option.bind_eq_some_iff.mp ht
          cases ht
          exact made_detach (made_setNext h hu) hv
  · cases ht
    exact h

theorem made_step {c : TreeCall} (h : Made s) (ht : treeStep alloc s c = some t) : Made t := by
  cases c with
  | create name type =>
    cases ht
    exact made_create h name type
  | add parent child => exact made_add h ht
  | remove parent node =>
    obtain ⟨⟨u,status⟩,hu,rfl⟩ := Option.map_eq_some_iff.mp ht
    exact made_remove h hu

end Made

section Init

variable {alloc : Allocator} {s : KernelState}

-- the root as fs_init makes it, alone
structure FreshRoot (s : KernelState) : Prop where
  nodes : s.nodes = [] ∧ s.fs_root = none ∨ ∃ n, s.nodes = [n] ∧ s.fs_root = some 0 ∧ MadeNode n ∧
    n.type = .directory ∧ n.name = ['/'] ∧ n.parent = none ∧ n.next = none ∧ n.children = none

theorem fsInit_fresh (h : s.nodes = []) : FreshRoot (fsInit alloc s) := by
  rw [fsInit]
  simp only
  generalize hprint : s.print "Dosya sistemi baslatiliyor...\n".toList = s'
  have hnodes : s'.nodes = [] := hprint ▸ h
  by_cases haddr : (allocate alloc s' fsNodeSize).2 = 0#32
  · rw [fsCreateNode_null alloc s' haddr,allocate_nodes]
    exact ⟨.inl ⟨hnodes,rfl⟩⟩
  · rw [fsCreateNode_some alloc s' haddr]
    have hmade := createdNode_made s' ['/'] .directory
    refine ⟨.inr ⟨{ createdNode s' ['/'] .directory with
      mask := fsPermRead ||| fsPermWrite, uid := 0#32, gid := 0#32 },?_,?_,
      ⟨hmade.finddir,hmade.name,hmade.target⟩,rfl,rfl,rfl,rfl,rfl⟩⟩
    · simp only [print_nodes,hnodes]
      rfl
    · exact congrArg some (by rw [hnodes]; rfl)

theorem FreshRoot.made (h : FreshRoot s) : Made s := by
  rcases h.nodes with ⟨hnodes,hroot⟩ | ⟨n,hnodes,hroot,hmade,hdir,hname,-⟩
  · refine ⟨fun p n hn => ?_,fun r hr => ?_⟩
    · simp [hnodes] at hn
    · simp [hroot] at hr
  · refine ⟨fun p m hm => ?_,fun r hr => ?_⟩
    · rw [hnodes] at hm
      exact List.mem_singleton.mp (List.mem_of_getElem? hm) ▸ hmade
    · rw [hroot] at hr
      cases hr
      exact ⟨n,by rw [hnodes]; rfl,hdir,hname⟩

theorem FreshRoot.shaped (h : FreshRoot s) : Shaped s := by
  rcases h.nodes with ⟨hnodes,-⟩ | ⟨n,hnodes,-,-,-,-,hparent,hnext,hchildren⟩
  · have hnone : noNodes s = s := by
      rw [noNodes,← hnodes]
    exact hnone ▸ noNodes_shaped s
  · obtain ⟨kids,hkids⟩ := noNodes_shaped s
    have happend : s.nodes = (noNodes s).nodes ++ [n] := hnodes
    exact ⟨kids,represents_create happend hkids hparent hnext hchildren⟩

-- the tree after any run in which every child added is in no chain
theorem run_tree {t : KernelState} {cs : List TreeCall} (hs : s.nodes = [])
    (hsafe : Every (treeStep alloc) AddsDetached (fsInit alloc s) cs)
    (hrun : run (treeStep alloc) (fsInit alloc s) cs = some t) : Shaped t ∧ Made t := by
  have hfresh : FreshRoot (fsInit alloc s) := fsInit_fresh hs
  have hstep : ∀ (s : KernelState) (c : TreeCall) (t : KernelState), Shaped s ∧ Made s →
      AddsDetached s c (treeStep alloc s c) → treeStep alloc s c = some t → Shaped t ∧ Made t :=
    fun s c t hs hsafe ht => ⟨shaped_step hs.1 hsafe ht,made_step hs.2 ht⟩
  exact hsafe.invariant ⟨hfresh.shaped,hfresh.made⟩ hstep hrun

end Init

section Paths

variable {s : KernelState}

def Proper (name : CString) : Prop :=
  name ≠ [] ∧ name ≠ ['.'] ∧ name ≠ ['.','.'] ∧ '/' ∉ name ∧ name.length ≤ 127

def Entry (s : KernelState) (p : NodePtr) (name : CString) (c : NodePtr) : Prop :=
  Proper name ∧ ∃ n, s.nodes[c]? = some n ∧ n.name = name ∧ n.parent = some p

-- the names on the way from the root to p
def Names (s : KernelState) (names : List CString) (p : NodePtr) : Prop :=
  ∃ root, s.fs_root = some root ∧ Spells (Entry s) root names p

def absolutePath (names : List CString) : CString := '/' :: ['/'].intercalate names

theorem proper_step {name : CString} (h : Proper name) : steps name = [.down name] := by
  rw [steps_name h.2.2.2.1 h.1 h.2.1 h.2.2.1,List.take_of_length_le h.2.2.2.2,
    List.drop_of_length_le h.2.2.2.2,steps_nil]

theorem steps_intercalate {names : List CString} (h : ∀ name ∈ names, Proper name) :
    steps (['/'].intercalate names) = names.map .down := by
  induction names with
  | nil => exact steps_nil
  | cons name names ih =>
    have hname := proper_step (h name List.mem_cons_self)
    have hrest := ih fun other hother => h other (List.mem_cons_of_mem name hother)
    cases names with
    | nil =>
      rw [List.intercalate_singleton,hname]
      rfl
    | cons other names =>
      rw [List.intercalate_cons_cons,List.append_assoc,List.singleton_append,steps_slash,hname,hrest]
      rfl

theorem steps_absolutePath {names : List CString} (h : ∀ name ∈ names, Proper name) :
    steps (absolutePath names) = names.map .down := by
  have hslash := steps_slash [] (['/'].intercalate names)
  rw [steps_nil,List.nil_append,List.nil_append,steps_intercalate h] at hslash
  exact hslash

theorem tree_of_shaped {kids : NodePtr → List NodePtr} (h : Represents s kids) (hmade : Made s) :
    Tree s := by
  refine ⟨fun p d hd hdir => ⟨kids p,h.chain p d hd hdir⟩,
    fun p d hd hdir => ⟨_,(hmade.node p d hd).finddir hdir⟩,fun p n q hn hq => ?_,
    fun p n q hn hq => ?_,fun r hr => ?_⟩
  · obtain ⟨d,hd,-⟩ := h.directory q p ((h.parent p n q hn).mpr hq)
    exact lt_of_node hd
  · rw [(hmade.node p n hn).target] at hq
    cases hq
  · obtain ⟨d,hd,-⟩ := hmade.root r hr
    exact lt_of_node hd

theorem follow_self (hlinks : NoSymlinks s) {p : NodePtr} {n : FsNode} (hn : s.nodes[p]? = some n) :
    follow s p = some p := by
  rw [follow,hn,Option.bind_some,if_neg (hlinks n (List.mem_of_getElem? hn))]

theorem entry_back {p q c : NodePtr} {name other : CString} (h : Entry s p name c)
    (h' : Entry s q other c) : p = q ∧ name = other := by
  obtain ⟨-,n,hn,rfl,hparent⟩ := h
  obtain ⟨-,m,hm,rfl,hparent'⟩ := h'
  rw [hn] at hm
  cases hm
  rw [hparent] at hparent'
  exact ⟨Option.some.inj hparent',rfl⟩

-- the name of the root is a slash
theorem root_no_entry (hmade : Made s) {root p : NodePtr} (hroot : s.fs_root = some root)
    (name : CString) : ¬ Entry s p name root := by
  rintro ⟨hproper,n,hn,rfl,-⟩
  obtain ⟨d,hd,-,hslash⟩ := hmade.root root hroot
  rw [hn] at hd
  cases hd
  rw [hslash] at hproper
  exact hproper.2.2.2.1 List.mem_cons_self

theorem names_unique (hmade : Made s) {names others : List CString} {p : NodePtr}
    (h : Names s names p) (h' : Names s others p) : names = others := by
  obtain ⟨root,hroot,h⟩ := h
  obtain ⟨root',hroot',h'⟩ := h'
  rw [hroot] at hroot'
  cases hroot'
  have hback : ∀ p q name other c, Entry s p name c → Entry s q other c → p = q ∧ name = other :=
    fun _ _ _ _ _ => entry_back
  exact h.unique hback (fun _ name => root_no_entry hmade hroot name) h'

variable {kids : NodePtr → List NodePtr} (h : Represents s kids) (hlinks : NoSymlinks s)

include h hlinks

theorem child_entry {p c : NodePtr} {name : CString} (hname : Proper name)
    (hc : (graph s).child p name = some c) : Entry s p name c := by
  obtain ⟨d,hd,hc⟩ := Option.bind_eq_some_iff.mp hc
  split at hc
  · next hdir =>
    obtain ⟨q,hq,hfollow⟩ := Option.bind_eq_some_iff.mp hc
    obtain ⟨n,hn,hnamed⟩ := lookup_node hq
    rw [follow_self hlinks hn] at hfollow
    cases hfollow
    rw [lookup_eq (h.chain p d hd hdir)] at hq
    exact ⟨hname,n,hn,hnamed,(h.parent c n p hn).mp (List.mem_of_find?_eq_some hq)⟩
  · cases hc

theorem entry_child {p c : NodePtr} {name : CString} (hc : Entry s p name c) :
    (graph s).child p name ≠ none := by
  obtain ⟨-,n,hn,hnamed,hparent⟩ := hc
  have hmem := (h.parent c n p hn).mpr hparent
  obtain ⟨d,hd,hdir⟩ := h.directory p c hmem
  have hfound : (lookup s d name).isSome := by
    rw [lookup_eq (h.chain p d hd hdir),List.find?_isSome]
    exact ⟨c,hmem,decide_eq_true (by rw [hn,Option.map_some,hnamed])⟩
  obtain ⟨q,hq⟩ := Option.isSome_iff_exists.mp hfound
  obtain ⟨m,hm,-⟩ := lookup_node hq
  simp only [graph,hd,Option.bind_some,if_pos hdir,hq,follow_self hlinks hm]
  exact Option.some_ne_none q

-- no two entries of an attached directory share a name
def EntriesDistinct (s : KernelState) : Prop :=
  ∀ names p name c c', Names s names p → Entry s p name c → Entry s p name c' → c = c'

theorem resolve_names_iff : (∀ names, (∀ name ∈ names, Proper name) → ∀ p,
    resolve s (absolutePath names) = some p ↔ Names s names p) ↔ EntriesDistinct s := by
  cases hroot : s.fs_root with
  | none =>
    have hnone : ∀ names p, ¬ Names s names p := by
      rintro names p ⟨root,hsome,-⟩
      rw [hroot] at hsome
      cases hsome
    refine iff_of_true (fun names _ p => iff_of_false ?_ (hnone names p))
      fun names p name c c' hp => absurd hp (hnone names p)
    rw [resolve,hroot]
    exact Option.some_ne_none p ∘ Eq.symm
  | some root =>
    have hnames : ∀ names p, Names s names p ↔ Spells (Entry s) root names p := by
      refine fun names p => ⟨?_,fun h => ⟨root,hroot,h⟩⟩
      rintro ⟨root',hsome,h⟩
      rw [hroot] at hsome
      exact Option.some.inj hsome ▸ h
    have hwalk : ∀ names, (∀ name ∈ names, Proper name) → ∀ p,
        resolve s (absolutePath names) = some p ↔
          (graph s).walk root (names.map .down) = some p := by
      intro names hproper p
      rw [resolve,hroot,Option.bind_some,steps_absolutePath hproper]
    have hgraph : (∀ names, (∀ name ∈ names, Proper name) → ∀ p,
        (graph s).walk root (names.map .down) = some p ↔ Spells (Entry s) root names p) ↔
        ∀ names p name c c', Spells (Entry s) root names p → Entry s p name c →
          Entry s p name c' → c = c' :=
      walk_spells_iff (fun _ _ _ hname => child_entry h hlinks hname)
        fun _ _ _ hc => ⟨hc.1,entry_child h hlinks hc⟩
    simp only [EntriesDistinct,hnames]
    rw [← hgraph]
    exact forall_congr' fun names => forall_congr' fun hproper => forall_congr' fun p =>
      by rw [hwalk names hproper p]

end Paths

theorem paths_name_nodes (alloc : Allocator) (hooks : Hooks) (hexact : ExactFinddir hooks)
    {s t : KernelState} (cs : List TreeCall) (hs : s.nodes = [])
    (hsafe : Every (treeStep alloc) AddsDetached (fsInit alloc s) cs)
    (hrun : run (treeStep alloc) (fsInit alloc s) cs = some t) (hlinks : NoSymlinks t) :
    (∀ names others p, Names t names p → Names t others p → names = others) ∧
      ((∀ names, (∀ name ∈ names, Proper name) → ∀ p,
        fsResolvePath hooks t (some (absolutePath names)) = some (some p) ↔ Names t names p) ↔
      EntriesDistinct t) := by
  obtain ⟨⟨kids,hkids⟩,hmade⟩ := run_tree hs hsafe hrun
  have htree := tree_of_shaped hkids hmade
  refine ⟨fun names others p => names_unique hmade,?_⟩
  rw [← resolve_names_iff hkids hlinks]
  simp only [fsResolvePath_graph htree hexact,Option.some.injEq]

def emptyRootStart : KernelState := fsInit constantAllocator (noNodes .boot)

def oneFile : List TreeCall := [.create ['a'] .file,.add (some 0) (some 1)]

theorem oneFile_detached :
    Every (treeStep constantAllocator) AddsDetached emptyRootStart oneFile := by
  refine ⟨trivial,fun t ht => ?_⟩
  cases ht
  refine ⟨?_,fun _ _ => trivial⟩
  rintro p q d n ⟨⟩ ⟨⟩ hd hdir hn
  have hfile : some (createdNode emptyRootStart ['a'] .file) = some n := hn
  rw [← Option.some.inj hfile]
  rfl

theorem paths_name_nodes_file : ∃ t, run (treeStep constantAllocator) emptyRootStart oneFile = some t ∧
    fsResolvePath treeHooks t (some (absolutePath [['a']])) = some (some 1) := by
  have hnodes : (run (treeStep constantAllocator) emptyRootStart oneFile).map
      (fun t => (t.nodes,t.fs_root)) = some ([{ createdNode .boot ['/'] .directory with
        mask := fsPermRead ||| fsPermWrite, children := some 1 },
        { createdNode .boot ['a'] .file with parent := some 0 }],some 0) := by decide
  obtain ⟨t,hrun,hpair⟩ := Option.map_eq_some_iff.mp hnodes
  obtain ⟨hnodes,hroot⟩ := Prod.mk.inj hpair
  have hlinks : NoSymlinks t := by
    rw [NoSymlinks,hnodes]
    decide
  have hpaths := paths_name_nodes constantAllocator treeHooks treeHooks_exact oneFile rfl
    oneFile_detached hrun hlinks
  have hproper : Proper ['a'] := by
    unfold Proper
    decide
  have hfile : Entry t 0 ['a'] 1 := ⟨hproper,_,by rw [hnodes]; rfl,rfl,rfl⟩
  -- the root has no parent
  have hone : ∀ p name c, Entry t p name c → c = 1 := by
    rintro p name c ⟨-,n,hn,-,hparent⟩
    rw [hnodes] at hn
    rcases c with _ | _ | c
    · cases hn
      cases hparent
    · rfl
    · cases hn
  refine ⟨t,hrun,(hpaths.2.mpr ?_ _ ?_ 1).mpr ⟨0,hroot,spells_snoc.mpr ⟨0,.nil,hfile⟩⟩⟩
  · exact fun _ p name c c' _ hc hc' => (hone p name c hc).trans (hone p name c' hc').symm
  · exact fun name hname => List.mem_singleton.mp hname ▸ hproper

end KluxOS.Fs
