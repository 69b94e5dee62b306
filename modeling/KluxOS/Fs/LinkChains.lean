import KluxOS.Fs.ComponentWalk
import KluxOS.Fs.Dispatch

namespace KluxOS.Fs

open KernelState LinkedList PathWalk

section Assembled

variable (alloc : Allocator)

-- as Built, but every link is made to a node that exists
inductive Assembled : KernelState → Prop
  | init (s : KernelState) : s.nodes = [] → Assembled (fsInit alloc s)
  | create (s : KernelState) (name : CString) (type : FsNodeType) :
      Assembled s → Assembled (fsCreateNode alloc s name type).1
  | add (s t : KernelState) (parent child : Option NodePtr) :
      Assembled s → fsAddNode s parent child = some t → Assembled t
  | symlink (s : KernelState) (name : CString) (target : Option NodePtr) :
      Assembled s → (∀ q, target = some q → q < s.nodes.length) →
      Assembled (fsCreateSymlink alloc s name target).1

-- a link points to an older node
def Descends (s : KernelState) : Prop :=
  ∀ (p : NodePtr) (n : FsNode) (q : NodePtr), s.nodes[p]? = some n →
    n.symlink_target = some q → q < p

variable {alloc} {s t : KernelState}

theorem Assembled.built (h : Assembled alloc s) : Built alloc s := by
  induction h with
  | init s hs => exact .init s hs
  | create s name type _ ih => exact .create s name type ih
  | add s t parent child _ ht ih => exact .add s t parent child ih ht
  | symlink s name target _ _ ih => exact .symlink s name target ih

theorem Descends.of_eq (h : Descends s) (hnodes : t.nodes = s.nodes) : Descends t := by
  intro p n q hn hq
  exact h p n q (hnodes ▸ hn) hq

theorem Descends.setNode (h : Descends s) {p : NodePtr} {n' : FsNode}
    (htarget : ∀ q, n'.symlink_target = some q → q < p) : Descends (s.setNode p n') := by
  intro r m q hm hq
  rcases setNode_cases hm with ⟨rfl,rfl⟩ | ⟨-,hold⟩
  · exact htarget q hq
  · exact h r m q hold hq

theorem descends_create (h : Descends s) (name : CString) (type : FsNodeType) :
    Descends (fsCreateNode alloc s name type).1 := by
  by_cases haddr : (allocate alloc s fsNodeSize).2 = 0#32
  · rw [fsCreateNode_null alloc s haddr]
    exact h.of_eq (by rw [allocate_nodes])
  · rw [fsCreateNode_some alloc s haddr]
    intro p n q hn hq
    rcases CArray.concat_cases hn with hold | ⟨-,rfl⟩
    · exact h p n q hold hq
    · cases hq

theorem descends_add {parent child : Option NodePtr} (h : Descends s)
    (ht : fsAddNode s parent child = some t) : Descends t := by
  cases fsAddNode_cases ht with
  | ignored => exact h
  | refused text => exact h.of_eq rfl
  | @linked p c q d node n _ _ _ _ _ _ hnode hn =>
    have hmid : Descends (s.setNode c { node with parent := some p }) :=
      h.setNode fun r hr => h c node r hnode hr
    exact hmid.setNode fun r hr => hmid q n r hn hr

theorem descends_symlink (h : Descends s) (name : CString) {target : Option NodePtr}
    (htarget : ∀ q, target = some q → q < s.nodes.length) :
    Descends (fsCreateSymlink alloc s name target).1 := by
  cases target with
  | none => exact h
  | some q =>
    by_cases haddr : (allocate alloc s fsNodeSize).2 = 0#32
    · rw [fsCreateSymlink,fsCreateNode_null alloc s haddr]
      exact h.of_eq (by rw [allocate_nodes])
    · have hcreate : Descends (fsCreateNode alloc s name .symlink).1 := descends_create h name .symlink
      rw [fsCreateNode_some alloc s haddr] at hcreate
      rw [fsCreateSymlink,fsCreateNode_some alloc s haddr]
      simp only [List.getElem?_concat_length]
      exact hcreate.setNode fun r hr => Option.some.inj hr ▸ htarget q rfl

theorem descends_init (h : s.nodes = []) : Descends (fsInit alloc s) := by
  have hnone : Descends (fsCreateNode alloc (s.print "Dosya sistemi baslatiliyor...\n".toList) ['/']
      .directory).1 := descends_create (fun p n q hn => by simp [h] at hn) ['/'] .directory
  rw [fsInit]
  simp only
  split
  · next u hu =>
    rw [hu] at hnone
    exact hnone.of_eq rfl
  · next u root hu =>
    rw [hu] at hnone
    intro p n q hn hq
    simp only [print_nodes,List.getElem?_modify] at hn
    obtain ⟨m,hm,rfl⟩ := Option.map_eq_some_iff.mp hn
    refine hnone p m q hm ?_
    split at hq
    · exact hq
    · exact hq

theorem descends_of_assembled (h : Assembled alloc s) : Descends s := by
  induction h with
  | init s hs => exact descends_init hs
  | create s name type _ ih => exact descends_create ih name type
  | add s t parent child _ ht ih => exact descends_add ih ht
  | symlink s name target _ htarget ih => exact descends_symlink ih name htarget

end Assembled

section Ends

variable (s : KernelState)

-- the fuel is the number of nodes: links point to older nodes
def chainEnd : ℕ → NodePtr → Option NodePtr
  | 0, _ => none
  | fuel + 1, q => (s.nodes[q]?).bind fun n =>
    if n.type = .symlink then n.symlink_target.bind (chainEnd fuel) else some q

def endGraph : PathGraph NodePtr CString where
  up := (graph s).up
  child p c := (s.nodes[p]?).bind fun d =>
    if d.type = .directory then (lookup s d c).bind (chainEnd s s.nodes.length) else none

-- the path with every chain of links followed to its end
def endWalk (path : CString) : Option NodePtr :=
  s.fs_root.bind fun root => (endGraph s).walk root ((path.splitOn '/').map toStep)

-- the target, itself a link, of a link
def linkedLink (q : NodePtr) : Option NodePtr := do
  let link ← s.nodes[q]?
  let target ← link.symlink_target
  let n ← s.nodes[target]?
  if link.type = .symlink ∧ n.type = .symlink then some target else none

def linkToLink (p : NodePtr) : Step CString → Option NodePtr
  | .stay => none
  | .up => none
  | .down c => (s.nodes[p]?).bind fun d =>
    if d.type = .directory then (lookup s d c).bind (linkedLink s) else none

def NoChains : NodePtr → List (Step CString) → Prop
  | _,[] => True
  | p,a :: as => linkToLink s p a = none ∧ ∀ q, (graph s).step p a = some q → NoChains q as

-- from the first link to a link on, the rest leads from its target where it leads from the
-- chain's end
def ChainsMeet : NodePtr → List (Step CString) → Prop
  | _,[] => True
  | p,a :: as =>
    match linkToLink s p a with
    | some target => (graph s).walk target as =
        (chainEnd s s.nodes.length target).bind fun r => (endGraph s).walk r as
    | none => ∀ q, (graph s).step p a = some q → ChainsMeet q as

def NotLink (p : NodePtr) : Prop := ∀ n, s.nodes[p]? = some n → n.type ≠ .symlink

def LinksFollowed (hooks : Hooks) (path : CString) : Prop :=
  (∀ r, fsResolvePath hooks s (some path) = some (some r) → NotLink s r) ∧
    fsResolvePath hooks s (some path) = some (endWalk s path)

end Ends

section Chains

variable {s : KernelState} {p q r : NodePtr} {a : Step CString}

theorem chainEnd_notLink {fuel : ℕ} (h : chainEnd s fuel q = some r) : NotLink s r := by
  induction fuel generalizing q with
  | zero => cases h
  | succ fuel ih =>
    obtain ⟨n,hn,h⟩ := Option.bind_eq_some_iff.mp h
    split at h
    · obtain ⟨target,-,h⟩ := Option.bind_eq_some_iff.mp h
      exact ih h
    · next hlink =>
      cases h
      intro m hm
      rw [hn] at hm
      cases hm
      exact hlink

theorem chainEnd_fuel (hdescends : Descends s) {fuel fuel' : ℕ} (hq : q < fuel) (hq' : q < fuel') :
    chainEnd s fuel q = chainEnd s fuel' q := by
  induction fuel generalizing fuel' q with
  | zero => exact absurd hq (Nat.not_lt_zero q)
  | succ fuel ih =>
    cases fuel' with
    | zero => exact absurd hq' (Nat.not_lt_zero q)
    | succ fuel' =>
      rw [chainEnd,chainEnd]
      refine Option.bind_congr fun n hn => ?_
      split
      · refine Option.bind_congr fun target htarget => ?_
        have hlt : target < q := hdescends q n target hn htarget
        exact ih (Nat.lt_of_lt_of_le hlt (Nat.le_of_lt_succ hq))
          (Nat.lt_of_lt_of_le hlt (Nat.le_of_lt_succ hq'))
      · rfl

theorem chainEnd_eq (hdescends : Descends s) {n : FsNode} (hn : s.nodes[q]? = some n) :
    chainEnd s s.nodes.length q =
      if n.type = .symlink then n.symlink_target.bind (chainEnd s s.nodes.length) else some q := by
  have hlt := lt_of_node hn
  rw [chainEnd_fuel hdescends hlt (Nat.lt_succ_of_lt hlt),chainEnd,hn]
  rfl

theorem chainEnd_self (hdescends : Descends s) {n : FsNode} (hn : s.nodes[q]? = some n)
    (hlink : n.type ≠ .symlink) : chainEnd s s.nodes.length q = some q := by
  rw [chainEnd_eq hdescends hn,if_neg hlink]

theorem step_alike (hdescends : Descends s) (htree : Tree s) (h : linkToLink s p a = none) :
    (endGraph s).step p a = (graph s).step p a := by
  cases a with
  | stay => rfl
  | up => rfl
  | down c =>
    refine Option.bind_congr fun d hd => ?_
    split
    · next hdir =>
      refine Option.bind_congr fun q hq => ?_
      obtain ⟨n,hn,-⟩ := lookup_node hq
      rw [chainEnd_eq hdescends hn,follow,hn,Option.bind_some]
      split
      · next hlink =>
        cases htarget : n.symlink_target with
        | none => rfl
        | some target =>
          obtain ⟨m,hm⟩ : ∃ m, s.nodes[target]? = some m :=
            ⟨_,List.getElem?_eq_getElem (htree.target q n target hn htarget)⟩
          refine chainEnd_self hdescends hm fun hmlink => ?_
          simp [linkToLink,linkedLink,hd,hdir,hq,hn,hlink,htarget,hm,hmlink] at h
      · rfl
    · rfl

theorem step_chain {target : NodePtr} (hdescends : Descends s)
    (h : linkToLink s p a = some target) : (graph s).step p a = some target ∧
      (endGraph s).step p a = chainEnd s s.nodes.length target ∧ ¬ NotLink s target := by
  cases a with
  | stay => cases h
  | up => cases h
  | down c =>
    obtain ⟨d,hd,h⟩ := Option.bind_eq_some_iff.mp h
    split at h
    · next hdir =>
      obtain ⟨q,hq,h⟩ := Option.bind_eq_some_iff.mp h
      obtain ⟨link,hlink,h⟩ := Option.bind_eq_some_iff.mp h
      obtain ⟨t,ht,h⟩ := Option.bind_eq_some_iff.mp h
      obtain ⟨n,hn,h⟩ := Option.bind_eq_some_iff.mp h
      split at h
      · next htypes =>
        cases h
        refine ⟨?_,?_,fun hnot => hnot n hn htypes.2⟩
        · simp only [PathGraph.step,graph,follow,hd,Option.bind_some,if_pos hdir,hq,hlink,
            if_pos htypes.1,ht]
        · simp only [PathGraph.step,endGraph,hd,Option.bind_some,if_pos hdir,hq,
            chainEnd_eq hdescends hlink,if_pos htypes.1,ht]
      · cases h
    · cases h

theorem walk_eq_iff (hdescends : Descends s) (htree : Tree s) (p : NodePtr)
    (as : List (Step CString)) :
    (graph s).walk p as = (endGraph s).walk p as ↔ ChainsMeet s p as := by
  induction as generalizing p with
  | nil => exact iff_of_true rfl trivial
  | cons a as ih =>
    rw [PathGraph.walk,PathGraph.walk,ChainsMeet]
    cases hchain : linkToLink s p a with
    | some target =>
      obtain ⟨hstep,hend,-⟩ := step_chain hdescends hchain
      rw [hstep,hend]
      rfl
    | none =>
      rw [step_alike hdescends htree hchain]
      cases (graph s).step p a with
      | none => exact iff_of_true rfl fun q hq => by cases hq
      | some q =>
        refine (ih q).trans ⟨?_,fun h => h q rfl⟩
        rintro h _ ⟨⟩
        exact h

theorem notLink_of_directory (h : IsDirectory s p) : NotLink s p := by
  obtain ⟨d,hd,hdir⟩ := h
  intro n hn hlink
  rw [hd] at hn
  cases hn
  rw [hdir] at hlink
  cases hlink

theorem endStep_notLink (hwired : Wired s) (hp : NotLink s p)
    (h : (endGraph s).step p a = some q) : NotLink s q := by
  cases a with
  | stay => exact Option.some.inj h ▸ hp
  | up =>
    have hq : ((s.nodes[p]?).bind FsNode.parent).getD p = q := Option.some.inj h
    cases hparent : (s.nodes[p]?).bind FsNode.parent with
    | none =>
      rw [hparent] at hq
      exact hq ▸ hp
    | some r =>
      rw [hparent] at hq
      obtain ⟨n,hn,hr⟩ := Option.bind_eq_some_iff.mp hparent
      exact notLink_of_directory (hq ▸ hwired.parent p n r hn hr)
  | down c =>
    obtain ⟨d,-,h⟩ := Option.bind_eq_some_iff.mp h
    split at h
    · obtain ⟨r,-,h⟩ := Option.bind_eq_some_iff.mp h
      exact chainEnd_notLink h
    · cases h

theorem endSteps_notLink (hwired : Wired s) {as : List (Step CString)} (hp : NotLink s p)
    (h : (endGraph s).walk p as = some q) : NotLink s q := by
  induction as generalizing p with
  | nil => exact Option.some.inj h ▸ hp
  | cons a as ih =>
    obtain ⟨r,hr,h⟩ := Option.bind_eq_some_iff.mp h
    exact ih (endStep_notLink hwired hp hr) h

theorem endWalk_notLink (hwired : Wired s) {path : CString} (h : endWalk s path = some r) :
    NotLink s r := by
  obtain ⟨root,hroot,h⟩ := Option.bind_eq_some_iff.mp h
  exact endSteps_notLink hwired (notLink_of_directory (hwired.root root hroot)) h

def ShortComponents (path : CString) : Prop := ∀ c ∈ path.splitOn '/', c.length ≤ 127

theorem resolve_short {path : CString} (hshort : ShortComponents path) : resolve s path =
    s.fs_root.bind fun root => (graph s).walk root ((path.splitOn '/').map toStep) := by
  obtain ⟨hpath,hslash⟩ := splitOn_components path
  refine Option.bind_congr fun root _ => ?_
  rw [steps,hpath,PathGraph.walk_map,PathGraph.walk_map]
  exact foldlM_short (fun _ => rfl) hslash hshort root

theorem resolve_eq_endWalk_iff (hdescends : Descends s) (htree : Tree s) {path : CString}
    (hshort : ShortComponents path) : resolve s path = endWalk s path ↔
      ∀ root, s.fs_root = some root → ChainsMeet s root ((path.splitOn '/').map toStep) := by
  rw [resolve_short hshort,endWalk]
  cases s.fs_root with
  | none => exact iff_of_true rfl fun root hroot => by cases hroot
  | some root =>
    refine (walk_eq_iff hdescends htree root _).trans ⟨?_,fun h => h root rfl⟩
    rintro h _ ⟨⟩
    exact h

theorem noChains_meet {as : List (Step CString)} (h : NoChains s p as) : ChainsMeet s p as := by
  induction as generalizing p with
  | nil => trivial
  | cons a as ih =>
    rw [ChainsMeet,h.1]
    exact fun q hq => ih (h.2 q hq)

-- cs before the component in question are the path walked so far
theorem noChains_of_followed (root : NodePtr) (cs : List CString) {ds : List CString}
    (hall : ∀ es : List CString, es ≠ [] → (∀ c ∈ es, '/' ∉ c ∧ c.length ≤ 127) →
      ∀ q, (graph s).walk root (es.map toStep) = some q → NotLink s q)
    (hdescends : Descends s) (hp : (graph s).walk root (cs.map toStep) = some p)
    (hfit : ∀ c ∈ cs ++ ds, '/' ∉ c ∧ c.length ≤ 127) : NoChains s p (ds.map toStep) := by
  induction ds generalizing cs p with
  | nil => trivial
  | cons c ds ih =>
    have hsplit : (cs ++ [c]) ++ ds = cs ++ c :: ds := List.append_cons cs c ds ▸ rfl
    have hwalk : ∀ q, (graph s).step p (toStep c) = some q →
        (graph s).walk root ((cs ++ [c]).map toStep) = some q := by
      intro q hq
      rw [List.map_append,PathGraph.walk_append,hp,Option.bind_some,List.map_singleton,
        PathGraph.walk,hq]
      rfl
    refine ⟨Option.eq_none_iff_forall_ne_some.mpr fun target htarget => ?_,fun q hq => ?_⟩
    · obtain ⟨hstep,-,hlink⟩ := step_chain hdescends htarget
      refine hlink (hall (cs ++ [c]) (by simp) (fun d hd => hfit d ?_) target (hwalk target hstep))
      exact hsplit ▸ List.mem_append_left ds hd
    · exact ih (cs ++ [c]) (hwalk q hq) (by rwa [hsplit])

end Chains

section Resolve

variable {alloc : Allocator} {hooks : Hooks} {s : KernelState}

theorem linksFollowed_iff (hs : Assembled alloc s) (htree : Tree s) (hexact : ExactFinddir hooks)
    {path : CString} (hshort : ShortComponents path) : LinksFollowed s hooks path ↔
      ∀ root, s.fs_root = some root → ChainsMeet s root ((path.splitOn '/').map toStep) := by
  rw [LinksFollowed,fsResolvePath_graph htree hexact,Option.some.injEq,
    ← resolve_eq_endWalk_iff (descends_of_assembled hs) htree hshort,and_iff_right_iff_imp]
  intro heq r hr
  exact endWalk_notLink (wired_of_built alloc hs.built) (heq ▸ Option.some.inj hr)

theorem shortComponents_join {cs : List CString} (hcs : cs ≠ [])
    (hfit : ∀ c ∈ cs, '/' ∉ c ∧ c.length ≤ 127) :
    (['/'].intercalate cs).splitOn '/' = cs ∧ ShortComponents (['/'].intercalate cs) := by
  have hsplit : (['/'].intercalate cs).splitOn '/' = cs :=
    List.splitOn_intercalate '/' (fun c hc => (hfit c hc).1) hcs
  exact ⟨hsplit,fun c hc => (hfit c (hsplit ▸ hc)).2⟩

theorem links_followed_to_end (hs : Assembled alloc s) (htree : Tree s)
    (hexact : ExactFinddir hooks) :
    (∀ path, ShortComponents path → (LinksFollowed s hooks path ↔
      ∀ root, s.fs_root = some root → ChainsMeet s root ((path.splitOn '/').map toStep))) ∧
    ((∀ path, ShortComponents path → LinksFollowed s hooks path) ↔
      ∀ path, ShortComponents path → ∀ root, s.fs_root = some root →
        NoChains s root ((path.splitOn '/').map toStep)) := by
  refine ⟨fun path hshort => linksFollowed_iff hs htree hexact hshort,fun hall => ?_,
    fun hnone path hshort => ?_⟩
  · intro path hshort root hroot
    refine noChains_of_followed root [] (fun es hes hfit q hq => ?_)
      (descends_of_assembled hs) rfl fun c hc => ⟨(splitOn_components path).2 c hc,hshort c hc⟩
    obtain ⟨hsplit,hjoin⟩ := shortComponents_join hes hfit
    refine (hall _ hjoin).1 q ?_
    rw [fsResolvePath_graph htree hexact,resolve_short hjoin,hroot,hsplit,Option.bind_some,hq]
  · exact (linksFollowed_iff hs htree hexact hshort).mpr fun root hroot =>
      noChains_meet (hnone path hshort root hroot)

theorem assembled_added (hs : Assembled alloc s) (parent child : Option NodePtr) :
    Assembled alloc ((fsAddNode s parent child).getD s) := by
  cases hadd : fsAddNode s parent child with
  | none => exact hs
  | some t => exact .add s t parent child hs hadd

-- a file, a link to it and a link to the link, in the root directory
def fileAndLinks : KernelState :=
  let s := fsInit constantAllocator .boot
  let s := (fsCreateNode constantAllocator s ['a'] .file).1
  let s := (fsCreateSymlink constantAllocator s ['b'] (some 1)).1
  let s := (fsAddNode s (some 0) (some 1)).getD s
  (fsAddNode s (some 0) (some 2)).getD s

def linkToTheLink : KernelState :=
  let s := (fsCreateSymlink constantAllocator fileAndLinks ['c'] (some 2)).1
  (fsAddNode s (some 0) (some 3)).getD s

theorem fileAndLinks_assembled : Assembled constantAllocator fileAndLinks := by
  have hfile : Assembled constantAllocator
      (fsCreateNode constantAllocator (fsInit constantAllocator .boot) ['a'] .file).1 :=
    .create _ ['a'] .file (.init .boot rfl)
  have hlink := Assembled.symlink _ ['b'] (some 1) hfile fun q hq =>
    Option.some.inj hq ▸ by decide
  exact assembled_added (assembled_added hlink (some 0) (some 1)) (some 0) (some 2)

theorem linkToTheLink_assembled : Assembled constantAllocator linkToTheLink := by
  have hlink := Assembled.symlink _ ['c'] (some 2) fileAndLinks_assembled fun q hq =>
    Option.some.inj hq ▸ by decide
  exact assembled_added hlink (some 0) (some 3)

theorem links_followed_to_end_file : LinksFollowed fileAndLinks treeHooks ['b'] := by
  have htree : Tree fileAndLinks := tree_of_checks (by decide)
  have hsplit : ['b'].splitOn '/' = [['b']] := by decide
  have hshort : ShortComponents ['b'] := by
    unfold ShortComponents
    decide
  refine ((links_followed_to_end fileAndLinks_assembled htree treeHooks_exact).1 ['b'] hshort).mpr ?_
  intro root hroot
  have hzero : fileAndLinks.fs_root = some 0 := by decide
  rw [hzero] at hroot
  cases hroot
  rw [hsplit]
  exact noChains_meet ⟨by decide,fun q _ => trivial⟩

-- the link to the link resolves to the link
theorem link_to_link_not_followed : Assembled constantAllocator linkToTheLink ∧
    Tree linkToTheLink ∧ ExactFinddir treeHooks ∧ ShortComponents ['c'] ∧
    fsResolvePath treeHooks linkToTheLink (some ['c']) = some (some 2) ∧
    (linkToTheLink.nodes[2]?).map FsNode.type = some .symlink ∧
    endWalk linkToTheLink ['c'] = some 1 ∧ ¬ LinksFollowed linkToTheLink treeHooks ['c'] := by
  have htree : Tree linkToTheLink := tree_of_checks (by decide)
  have hresolve : fsResolvePath treeHooks linkToTheLink (some ['c']) = some (some 2) := by
    rw [fsResolvePath_graph htree treeHooks_exact]
    decide
  have hend : endWalk linkToTheLink ['c'] = some 1 := by decide
  refine ⟨linkToTheLink_assembled,htree,treeHooks_exact,?_,hresolve,by decide,hend,fun h => ?_⟩
  · unfold ShortComponents
    decide
  · have heq := h.2
    rw [hresolve,hend] at heq
    exact absurd heq (by decide)

end Resolve

end KluxOS.Fs
