import KluxOS.Fs.ChildTree

namespace KluxOS.Fs

open KernelState LinkedList

inductive TreeCall where
  | create (name : CString) (type : FsNodeType)
  | add (parent child : Option NodePtr)
  | remove (parent node : Option NodePtr)

def treeStep (alloc : Allocator) (s : KernelState) : TreeCall → Option KernelState
  | .create name type => some (fsCreateNode alloc s name type).1
  | .add parent child => fsAddNode s parent child
  | .remove parent node => (fsRemoveNode s parent node).map Prod.fst

def KeepsShape (_ : KernelState) (_ : TreeCall) (result : Option KernelState) : Prop :=
  ∀ t, result = some t → TreeShape t

def AddsDetached (s : KernelState) (c : TreeCall) (_ : Option KernelState) : Prop :=
  match c with
  | .add parent child => ∀ p q d n, parent = some p → child = some q → s.nodes[p]? = some d →
      d.type = .directory → s.nodes[q]? = some n → n.parent = none
  | .create _ _ => True
  | .remove _ _ => True

section Violation

variable {s t : KernelState} {kids : NodePtr → List NodePtr} {p q c : NodePtr} {d node : FsNode}

-- the child stays in the chain of its first parent q, but names p as its parent
theorem stays_linked {x : NodePtr} {g : FsNode → FsNode} {e : FsNode}
    (hg : ∀ n, (g n).type = n.type ∧ (g n).parent = n.parent)
    (hnodes : t.nodes = (s.nodes.modify c (withParent p)).modify x g)
    (hc : s.nodes[c]? = some node) (hmem : c ∈ kids q) (hqp : q ≠ p) (he : t.nodes[q]? = some e)
    (htype : e.type = .directory) (hchain : Siblings t e.children (kids q)) : ¬ TreeShape t := by
  intro hshape
  obtain ⟨l,hl,-,hiff⟩ := hshape.chains q e he htype
  rw [hl.unique hchain] at hiff
  obtain ⟨n,hn,hparent⟩ := (hiff c).mp hmem
  obtain ⟨m,hm,-,hmparent,-⟩ := relinked_get hnodes hg hc
  rw [hn] at hm
  cases hm
  rw [hparent,if_pos rfl] at hmparent
  exact hqp (Option.some.inj hmparent)

theorem add_linked_other (h : Represents s kids) (hd : s.nodes[p]? = some d)
    (htype : d.type = .directory) (hc : s.nodes[c]? = some node) (hparent : node.parent = some q)
    (hqp : q ≠ p) (ht : fsAddNode s (some p) (some c) = some t) : ¬ TreeShape t := by
  have hmem : c ∈ kids q := (h.parent c node q hc).mpr hparent
  obtain ⟨dq,hdq,hdqtype⟩ := h.directory q c hmem
  have hchain := h.chain q dq hdq hdqtype
  obtain ⟨u,hu,hcases⟩ := fsAddNode_nodes hd htype (h.chain p d hd htype) hc
  rw [ht] at hu
  cases hu
  rcases hcases with ⟨-,hnodes⟩ | ⟨e,he,-,hnodes⟩
  · have hg := withChildren_kept (some c)
    obtain ⟨m,hm,hmtype,-,hother,-⟩ := relinked_get hnodes hg hdq
    refine stays_linked hg hnodes hc hmem hqp hm (hmtype.trans hdqtype) ?_
    rw [(hother (Ne.symm hqp)).2]
    refine hchain.frame fun x k hk => ?_
    obtain ⟨m,hm,-,-,hxother,hxself⟩ := relinked_get hnodes hg hk
    by_cases hpx : p = x
    · obtain ⟨k',rfl,hk',-⟩ := hxself hpx
      exact ⟨_,hm,hk'⟩
    · exact ⟨m,hm,(hxother hpx).1⟩
  · have hg := withNext_kept (some c)
    have heq : e ∉ kids q := fun hin => hqp (h.single hin he)
    obtain ⟨m,hm,hmtype,-,hother,hself⟩ := relinked_get hnodes hg hdq
    have hchildren : m.children = dq.children := by
      by_cases hx : e = q
      · obtain ⟨k,rfl,-,hk⟩ := hself hx
        exact hk
      · exact (hother hx).2
    refine stays_linked hg hnodes hc hmem hqp hm (hmtype.trans hdqtype) ?_
    rw [hchildren]
    refine hchain.frame_mem fun x hx k hk => ?_
    obtain ⟨m,hm,-,-,hxother,-⟩ := relinked_get hnodes hg hk
    refine ⟨m,hm,(hxother ?_).1⟩
    rintro rfl
    exact heq hx

theorem add_linked_again (h : Represents s kids) (hd : s.nodes[p]? = some d)
    (htype : d.type = .directory) (hc : s.nodes[c]? = some node) (hparent : node.parent = some p)
    (ht : fsAddNode s (some p) (some c) = some t) : ¬ TreeShape t := by
  have hmem : c ∈ kids p := (h.parent c node p hc).mpr hparent
  obtain ⟨u,hu,hcases⟩ := fsAddNode_nodes hd htype (h.chain p d hd htype) hc
  rw [ht] at hu
  cases hu
  rcases hcases with ⟨hnil,-⟩ | ⟨e,he,hend,hnodes⟩
  · rw [hnil] at hmem
    cases hmem
  · have hg := withNext_kept (some c)
    intro hshape
    obtain ⟨m,hm,hmtype,-,hother,hself⟩ := relinked_get hnodes hg hd
    have hchildren : m.children = d.children := by
      by_cases hx : e = p
      · obtain ⟨k,rfl,-,hk⟩ := hself hx
        exact hk
      · exact (hother hx).2
    obtain ⟨l,hl,-⟩ := hshape.chains p m hm (hmtype.trans htype)
    rw [hchildren] at hl
    refine (h.chain p d hd htype).link_cycle he hend (fun x k hxe hk => ?_) ?_ hmem l hl
    · obtain ⟨m,hm,-,-,hxother,-⟩ := relinked_get hnodes hg hk
      exact ⟨m,hm,(hxother (Ne.symm hxe)).1⟩
    · obtain ⟨n,hn,-⟩ := h.get he
      obtain ⟨m,hm,-,-,-,hxself⟩ := relinked_get hnodes hg hn
      obtain ⟨k,rfl,-,-⟩ := hxself rfl
      exact ⟨_,hm,rfl⟩

end Violation

section Step

variable {alloc : Allocator} {s t : KernelState} {kids : NodePtr → List NodePtr}

def Shaped (s : KernelState) : Prop := ∃ kids, Represents s kids

theorem add_shaped {parent child : Option NodePtr} (h : Represents s kids)
    (ht : fsAddNode s parent child = some t)
    (hsafe : AddsDetached s (.add parent child) (some t)) : Shaped t := by
  cases fsAddNode_cases ht with
  | ignored => exact ⟨kids,h⟩
  | refused text => exact ⟨kids,represents_congr h rfl⟩
  | @linked p c q d node n _ _ hp hc hd htype hnode _ =>
    subst hp hc
    exact ⟨_,represents_add h hd htype hnode (hsafe p c d node rfl rfl hd htype hnode) ht⟩

theorem remove_shaped {parent node : Option NodePtr} {status : ℤ} (h : Represents s kids)
    (ht : fsRemoveNode s parent node = some (t,status)) : Shaped t := by
  cases parent with
  | none =>
    cases ht
    exact ⟨kids,h⟩
  | some p =>
    cases node with
    | none =>
      cases ht
      exact ⟨kids,h⟩
    | some c =>
      cases hd : s.nodes[p]? with
      | none =>
        rw [fsRemoveNode,hd] at ht
        cases ht
      | some d =>
        by_cases htype : d.type = .directory
        · cases hc : s.nodes[c]? with
          | none =>
            simp only [fsRemoveNode,hd,hc,htype,Option.bind_eq_bind,Option.bind_some,
              Option.bind_none,ne_eq,not_true_eq_false,if_false] at ht
            cases ht
          | some node => exact ⟨_,represents_remove h hd htype hc ht⟩
        · have hdir : d.type ≠ .directory := htype
          simp only [fsRemoveNode,hd,if_pos hdir,Option.bind_eq_bind,Option.bind_some] at ht
          cases ht
          exact ⟨kids,represents_congr h rfl⟩

theorem create_shaped (h : Represents s kids) (name : CString) (type : FsNodeType) :
    Shaped (fsCreateNode alloc s name type).1 := by
  rcases fsCreateNode_nodes alloc name type with hnodes | hnodes
  · exact ⟨kids,represents_congr h hnodes⟩
  · exact ⟨kids,represents_create hnodes h rfl rfl rfl⟩

theorem shaped_step (h : Shaped s) {c : TreeCall} (hsafe : AddsDetached s c (treeStep alloc s c))
    (ht : treeStep alloc s c = some t) : Shaped t := by
  obtain ⟨kids,h⟩ := h
  cases c with
  | create name type =>
    cases ht
    exact create_shaped h name type
  | add parent child => exact add_shaped h ht hsafe
  | remove parent node =>
    obtain ⟨⟨u,status⟩,hu,rfl⟩ := Option.map_eq_some_iff.mp ht
    exact remove_shaped h hu

theorem keepsShape_iff (h : Shaped s) (c : TreeCall) :
    KeepsShape s c (treeStep alloc s c) ↔ AddsDetached s c (treeStep alloc s c) := by
  refine ⟨fun hkeeps => ?_,fun hsafe t ht => ?_⟩
  · obtain ⟨kids,h⟩ := h
    cases c with
    | create name type => trivial
    | remove parent node => trivial
    | add parent child =>
      rintro p q d n rfl rfl hd htype hn
      cases hparent : n.parent with
      | none => rfl
      | some r =>
        obtain ⟨t,ht,-⟩ := fsAddNode_nodes hd htype (h.chain p d hd htype) hn
        have hshape := hkeeps t ht
        by_cases hrp : r = p
        · subst hrp
          exact absurd hshape (add_linked_again h hd htype hn hparent ht)
        · exact absurd hshape (add_linked_other h hd htype hn hparent hrp ht)
  · obtain ⟨kids,hkids⟩ := shaped_step h hsafe ht
    exact hkids.shape

end Step

def noNodes (s : KernelState) : KernelState := { s with nodes := [] }

theorem noNodes_shaped (s : KernelState) : Shaped (noNodes s) := by
  refine ⟨fun _ => [],fun p d hd => ?_,fun c n p hn => ?_,fun p c hc => ?_,fun c n hn => ?_⟩
  · cases hd
  · cases hn
  · cases hc
  · cases hn

theorem directory_tree_invariant (alloc : Allocator) (s : KernelState) (cs : List TreeCall) :
    TreeShape (noNodes s) ∧ (Run.Every (treeStep alloc) KeepsShape (noNodes s) cs ↔
      Run.Every (treeStep alloc) AddsDetached (noNodes s) cs) := by
  have hall : ∀ c ∈ cs, True := fun _ _ => trivial
  obtain ⟨kids,hkids⟩ := noNodes_shaped s
  exact ⟨hkids.shape,Run.every_iff (noNodes_shaped s) hall
    (fun s c hs _ => keepsShape_iff hs c) fun s c t hs _ hsafe ht => shaped_step hs hsafe ht⟩

-- a file added to its directory twice
def addedTwice : List TreeCall :=
  [.create ['/'] .directory,.create ['a'] .file,.add (some 0) (some 1)]

theorem added_twice_cycle : ¬ Run.Every (treeStep constantAllocator) KeepsShape
    (noNodes .boot) (addedTwice ++ [.add (some 0) (some 1)]) := by
  intro hevery
  have hrun : (Run.run (treeStep constantAllocator) (noNodes .boot) addedTwice).bind
      (fun s => (treeStep constantAllocator s (.add (some 0) (some 1))).map fun t => t.nodes) =
      some [{ createdNode .boot ['/'] .directory with children := some 1 },
        { createdNode .boot ['a'] .file with parent := some 0, next := some 1 }] := by decide
  obtain ⟨s,hs,hstep⟩ := Option.bind_eq_some_iff.mp hrun
  obtain ⟨t,ht,hnodes⟩ := Option.map_eq_some_iff.mp hstep
  have hshape := hevery.last hs t ht
  obtain ⟨l,hl,-⟩ := hshape.chains 0 _ (by rw [hnodes]; rfl) rfl
  obtain ⟨m,rfl,hm⟩ := Chain.tail (p := 1) hl (by rw [hnodes]; rfl)
  have hcycle := hm.unique hl
  exact absurd hcycle (List.cons_ne_self 1 m).symm

end KluxOS.Fs
