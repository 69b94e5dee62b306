import KluxOS.Fs.Tree
import KluxOS.Lib.Run
import Mathlib.Logic.Function.Basic

namespace KluxOS.Fs

open KernelState LinkedList

structure TreeShape (s : KernelState) : Prop where
  chains : ∀ (p : NodePtr) (d : FsNode), s.nodes[p]? = some d → d.type = .directory →
    ∃ l, Siblings s d.children l ∧ l.Nodup ∧
      ∀ c, c ∈ l ↔ ∃ n, s.nodes[c]? = some n ∧ n.parent = some p
  disjoint : ∀ (p q : NodePtr) (d e : FsNode) (l m : List NodePtr) (c : NodePtr),
    s.nodes[p]? = some d → d.type = .directory → s.nodes[q]? = some e → e.type = .directory →
    Siblings s d.children l → Siblings s e.children m → c ∈ l → c ∈ m → p = q

-- kids lists the children of every node, in chain order
structure Represents (s : KernelState) (kids : NodePtr → List NodePtr) : Prop where
  chain : ∀ (p : NodePtr) (d : FsNode), s.nodes[p]? = some d → d.type = .directory →
    Siblings s d.children (kids p)
  parent : ∀ (c : NodePtr) (n : FsNode) (p : NodePtr), s.nodes[c]? = some n →
    (c ∈ kids p ↔ n.parent = some p)
  directory : ∀ p c : NodePtr, c ∈ kids p → IsDirectory s p
  detached : ∀ (c : NodePtr) (n : FsNode), s.nodes[c]? = some n → n.parent = none → n.next = none

section Shape

variable {s : KernelState} {kids : NodePtr → List NodePtr}

theorem Represents.get (h : Represents s kids) {p c : NodePtr} (hc : c ∈ kids p) :
    ∃ n, s.nodes[c]? = some n ∧ n.parent = some p := by
  obtain ⟨d,hd,htype⟩ := h.directory p c hc
  obtain ⟨n,hn⟩ := (h.chain p d hd htype).get hc
  exact ⟨n,hn,(h.parent c n p hn).mp hc⟩

theorem Represents.has_parent (h : Represents s kids) {p c : NodePtr} {n : FsNode} (hc : c ∈ kids p)
    (hn : s.nodes[c]? = some n) : n.parent ≠ none := by
  rw [(h.parent c n p hn).mp hc]
  exact Option.some_ne_none p

theorem Represents.single (h : Represents s kids) {p q c : NodePtr} (hp : c ∈ kids p)
    (hq : c ∈ kids q) : p = q := by
  obtain ⟨n,hn,hparent⟩ := h.get hp
  have hq' := (h.parent c n q hn).mp hq
  rw [hparent] at hq'
  exact Option.some.inj hq'

-- a change to the chain of p alone leaves every other chain
theorem Represents.elsewhere {t : KernelState} {p r : NodePtr} {n : FsNode}
    (h : Represents s kids) (hrp : r ≠ p) (hn : s.nodes[r]? = some n) (htype : n.type = .directory)
    (hkeep : ∀ (x : NodePtr) (k : FsNode), x ∉ kids p → s.nodes[x]? = some k →
      ∃ m, t.nodes[x]? = some m ∧ m.next = k.next) : Siblings t n.children (kids r) :=
  (h.chain r n hn htype).frame_mem fun x hx k hk =>
    hkeep x k (fun hp => hrp (h.single hx hp)) hk

theorem Represents.shape (h : Represents s kids) : TreeShape s := by
  refine ⟨fun p d hd htype => ?_,fun p q d e l m c hd htype he hetype hl hm hc hc' => ?_⟩
  · have hl := h.chain p d hd htype
    refine ⟨kids p,hl,hl.nodup,fun c => ⟨h.get,?_⟩⟩
    rintro ⟨n,hn,hparent⟩
    exact (h.parent c n p hn).mpr hparent
  · rw [hl.unique (h.chain p d hd htype)] at hc
    rw [hm.unique (h.chain q e he hetype)] at hc'
    exact h.single hc hc'

end Shape

section Create

variable {s : KernelState} {kids : NodePtr → List NodePtr}

theorem fsCreateNode_nodes (alloc : Allocator) (name : CString) (type : FsNodeType) :
    (fsCreateNode alloc s name type).1.nodes = s.nodes ∨
      (fsCreateNode alloc s name type).1.nodes = s.nodes ++ [createdNode s name type] := by
  by_cases haddr : (allocate alloc s fsNodeSize).2 = 0#32
  · rw [fsCreateNode_null alloc s haddr,allocate_nodes]
    exact .inl rfl
  · rw [fsCreateNode_some alloc s haddr]
    exact .inr rfl

theorem represents_congr {t : KernelState} (h : Represents s kids) (ht : t.nodes = s.nodes) :
    Represents t kids := by
  have hdirectory : ∀ p, IsDirectory s p → IsDirectory t p := by
    rintro p ⟨d,hd,htype⟩
    exact ⟨d,ht ▸ hd,htype⟩
  refine ⟨fun p d hd htype => ?_,fun c n p hn => h.parent c n p (ht ▸ hn),
    fun p c hc => hdirectory p (h.directory p c hc),fun c n hn => h.detached c n (ht ▸ hn)⟩
  have hl := h.chain p d (ht ▸ hd) htype
  rw [Siblings,ht]
  exact hl

section Grown

variable {t : KernelState} {n : FsNode} (ht : t.nodes = s.nodes ++ [n])

include ht

theorem grown_old {p : NodePtr} {d : FsNode} (hd : s.nodes[p]? = some d) :
    t.nodes[p]? = some d := by
  rw [ht,List.getElem?_append_left (lt_of_node hd)]
  exact hd

theorem grown_cases {p : NodePtr} {d : FsNode} (hd : t.nodes[p]? = some d) :
    s.nodes[p]? = some d ∨ p = s.nodes.length ∧ d = n := by
  rw [ht] at hd
  exact CArray.concat_cases hd

theorem represents_create (h : Represents s kids) (hparent : n.parent = none)
    (hnext : n.next = none) (hchildren : n.children = none) : Represents t kids := by
  have hfresh : ∀ p, s.nodes.length ∉ kids p := by
    intro p hp
    obtain ⟨m,hm,-⟩ := h.get hp
    exact absurd (lt_of_node hm) (Nat.lt_irrefl _)
  refine ⟨fun p d hd htype => ?_,fun c m p hm => ?_,fun p c hc => ?_,fun c m hm hnone => ?_⟩
  · rcases grown_cases ht hd with hd | ⟨rfl,rfl⟩
    · exact (h.chain p d hd htype).frame fun q m hm => ⟨m,grown_old ht hm,rfl⟩
    · have hnil : kids s.nodes.length = [] := by
        refine List.eq_nil_iff_forall_not_mem.mpr fun c hc => ?_
        obtain ⟨e,he,-⟩ := h.directory _ c hc
        exact absurd (lt_of_node he) (Nat.lt_irrefl _)
      rw [hnil,hchildren]
      exact .nil
  · rcases grown_cases ht hm with hm | ⟨rfl,rfl⟩
    · exact h.parent c m p hm
    · rw [hparent]
      exact iff_of_false (hfresh p) (fun heq => by cases heq)
  · obtain ⟨d,hd,htype⟩ := h.directory p c hc
    exact ⟨d,grown_old ht hd,htype⟩
  · rcases grown_cases ht hm with hm | ⟨rfl,rfl⟩
    · exact h.detached c m hm hnone
    · exact hnext

end Grown

end Create

section Add

variable {s : KernelState} {kids : NodePtr → List NodePtr} {p c : NodePtr} {d node : FsNode}

def withParent (p : NodePtr) (n : FsNode) : FsNode := { n with parent := some p }

def withChildren (first : Option NodePtr) (n : FsNode) : FsNode := { n with children := first }

def withNext (next : Option NodePtr) (n : FsNode) : FsNode := { n with next := next }

theorem withChildren_kept (first : Option NodePtr) (n : FsNode) :
    (withChildren first n).type = n.type ∧ (withChildren first n).parent = n.parent := ⟨rfl,rfl⟩

theorem withNext_kept (next : Option NodePtr) (n : FsNode) :
    (withNext next n).type = n.type ∧ (withNext next n).parent = n.parent := ⟨rfl,rfl⟩

theorem modify_twice {nodes : List FsNode} {c q x : NodePtr} {f g : FsNode → FsNode} {n : FsNode}
    (hn : nodes[x]? = some n) : ((nodes.modify c f).modify q g)[x]? =
      some ((if q = x then g else id) ((if c = x then f else id) n)) := by
  rw [List.getElem?_modify,List.getElem?_modify,hn]
  split <;> split <;> rfl

theorem modify_twice_inv {nodes : List FsNode} {c q x : NodePtr} {f g : FsNode → FsNode}
    {m : FsNode} (hm : ((nodes.modify c f).modify q g)[x]? = some m) : ∃ n, nodes[x]? = some n ∧
      m = (if q = x then g else id) ((if c = x then f else id) n) := by
  cases hn : nodes[x]? with
  | none =>
    rw [List.getElem?_modify,List.getElem?_modify,hn] at hm
    split at hm <;> split at hm <;> cases hm
  | some n =>
    rw [modify_twice hn] at hm
    exact ⟨n,rfl,(Option.some.inj hm).symm⟩

theorem setNode_modify {n : FsNode} (hn : s.nodes[p]? = some n) (f : FsNode → FsNode) :
    (s.setNode p (f n)).nodes = s.nodes.modify p f := by
  rw [setNode_nodes]
  refine List.ext_getElem? fun i => ?_
  rw [List.getElem?_set,List.getElem?_modify]
  split
  · next h =>
    subst h
    rw [if_pos (lt_of_node hn),hn]
    rfl
  · simp

theorem parented_get (hc : s.nodes[c]? = some node) (p : NodePtr) {x : NodePtr} {n : FsNode}
    (hn : s.nodes[x]? = some n) : ∃ m, (s.setNode c (withParent p node)).nodes[x]? = some m ∧
      m.next = n.next ∧ m.children = n.children := by
  rw [setNode_modify hc (withParent p),List.getElem?_modify,hn]
  split
  · exact ⟨_,rfl,rfl,rfl⟩
  · exact ⟨n,rfl,rfl,rfl⟩

-- the child is linked behind the last of the children, or as the first
theorem fsAddNode_nodes {l : List NodePtr} (hd : s.nodes[p]? = some d) (htype : d.type = .directory)
    (hl : Siblings s d.children l) (hc : s.nodes[c]? = some node) :
    ∃ t, fsAddNode s (some p) (some c) = some t ∧
      ((l = [] ∧ t.nodes =
          (s.nodes.modify c (withParent p)).modify p (withChildren (some c))) ∨
        ∃ e, e ∈ l ∧ (∀ n, s.nodes[e]? = some n → n.next = none) ∧
          t.nodes = (s.nodes.modify c (withParent p)).modify e (withNext (some c))) := by
  have hs : (s.setNode c (withParent p node)).nodes = s.nodes.modify c (withParent p) :=
    setNode_modify hc (withParent p)
  obtain ⟨d',hd',-,hchildren⟩ := parented_get hc p hd
  have hl' : Siblings (s.setNode c (withParent p node)) d'.children l := by
    rw [hchildren]
    refine hl.frame fun x n hn => ?_
    obtain ⟨m,hm,hnext,-⟩ := parented_get hc p hn
    exact ⟨m,hm,hnext⟩
  cases hfirst : d'.children with
  | none =>
    rw [hfirst] at hl'
    cases hl'
    refine ⟨_,?_,.inl ⟨rfl,(setNode_modify hd' (withChildren (some c))).trans (by rw [hs])⟩⟩
    have hd'' : (s.setNode c { node with parent := some p }).nodes[p]? = some d' := hd'
    simp only [fsAddNode,hd,hc,hd'',hfirst,htype,Option.bind_eq_bind,Option.bind_some,ne_eq,
      not_true_eq_false,if_false]
    rfl
  | some first =>
    rw [hfirst] at hl'
    obtain ⟨e,n,hlast,hn,hend,he⟩ := lastSibling_eq hl' hl'.length_le
    refine ⟨_,?_,.inr ⟨e,he,fun n' hn' => ?_,
      (setNode_modify hn (withNext (some c))).trans (by rw [hs])⟩⟩
    · have hd'' : (s.setNode c { node with parent := some p }).nodes[p]? = some d' := hd'
      have hlast' : lastSibling (s.setNode c { node with parent := some p }).nodes
          (s.setNode c { node with parent := some p }).nodes.length first = some e := hlast
      have hn'' : (s.setNode c { node with parent := some p }).nodes[e]? = some n := hn
      simp only [fsAddNode,hd,hc,hd'',hfirst,htype,hlast',hn'',setNext,Option.bind_eq_bind,
        Option.bind_some,ne_eq,not_true_eq_false,if_false]
      rfl
    · obtain ⟨m,hm,hnext,-⟩ := parented_get hc p hn'
      rw [hn] at hm
      cases hm
      rw [← hnext]
      exact hend

section Relinked

variable {t : KernelState} {q : NodePtr} {g : FsNode → FsNode}
  (ht : t.nodes = (s.nodes.modify c (withParent p)).modify q g)
  (hg : ∀ n, (g n).type = n.type ∧ (g n).parent = n.parent)

include ht hg

theorem relinked_get {x : NodePtr} {n : FsNode} (hn : s.nodes[x]? = some n) :
    ∃ m, t.nodes[x]? = some m ∧ m.type = n.type ∧
      m.parent = (if c = x then some p else n.parent) ∧
      (q ≠ x → m.next = n.next ∧ m.children = n.children) ∧
      (q = x → ∃ k, m = g k ∧ k.next = n.next ∧ k.children = n.children) := by
  refine ⟨_,ht ▸ modify_twice hn,?_⟩
  by_cases hcx : c = x
  · by_cases hqx : q = x
    · simp only [if_pos hcx,if_pos hqx]
      exact ⟨(hg _).1,(hg _).2,fun hne => absurd hqx hne,fun _ => ⟨_,rfl,rfl,rfl⟩⟩
    · simp only [if_pos hcx,if_neg hqx]
      exact ⟨rfl,rfl,fun _ => ⟨rfl,rfl⟩,fun heq => absurd heq hqx⟩
  · by_cases hqx : q = x
    · simp only [if_neg hcx,if_pos hqx]
      exact ⟨(hg _).1,(hg _).2,fun hne => absurd hqx hne,fun _ => ⟨_,rfl,rfl,rfl⟩⟩
    · simp only [if_neg hcx,if_neg hqx]
      exact ⟨rfl,rfl,fun _ => ⟨rfl,rfl⟩,fun heq => absurd heq hqx⟩

theorem relinked_inv {x : NodePtr} {m : FsNode} (hm : t.nodes[x]? = some m) :
    ∃ n, s.nodes[x]? = some n ∧ m.type = n.type ∧
      m.parent = (if c = x then some p else n.parent) ∧
      (q ≠ x → m.next = n.next ∧ m.children = n.children) ∧
      (q = x → ∃ k, m = g k ∧ k.next = n.next ∧ k.children = n.children) := by
  obtain ⟨n,hn,-⟩ := modify_twice_inv (ht ▸ hm)
  obtain ⟨m',hm',hget⟩ := relinked_get ht hg hn
  rw [hm] at hm'
  cases hm'
  exact ⟨n,hn,hget⟩

theorem represents_relinked (h : Represents s kids) (hd : s.nodes[p]? = some d)
    (htype : d.type = .directory) (hc : s.nodes[c]? = some node) (hnone : node.parent = none)
    (hnext : ∀ n, s.nodes[q]? = some n → n.parent = none → (∀ k, (g k).next = k.next))
    (hchain : ∀ (r : NodePtr) (e : FsNode), t.nodes[r]? = some e → e.type = .directory →
      Siblings t e.children (Function.update kids p (kids p ++ [c]) r)) :
    Represents t (Function.update kids p (kids p ++ [c])) := by
  refine ⟨hchain,fun x m r hm => ?_,fun r x hx => ?_,fun x m hm hmnone => ?_⟩
  · obtain ⟨n,hn,-,hparent,-⟩ := relinked_inv ht hg hm
    rw [hparent]
    by_cases hcx : c = x
    · subst hcx
      rw [hc] at hn
      cases hn
      rw [if_pos rfl]
      by_cases hrp : r = p
      · subst hrp
        simp
      · rw [Function.update_of_ne hrp,h.parent c node r hc,hnone]
        exact iff_of_false (fun heq => by cases heq) fun heq => hrp (Option.some.inj heq).symm
    · rw [if_neg hcx,← h.parent x n r hn]
      by_cases hrp : r = p
      · subst hrp
        rw [Function.update_self,List.mem_append,List.mem_singleton]
        exact or_iff_left (Ne.symm hcx)
      · rw [Function.update_of_ne hrp]
  · have hr : IsDirectory s r := by
      by_cases hrp : r = p
      · subst hrp
        exact ⟨d,hd,htype⟩
      · rw [Function.update_of_ne hrp] at hx
        exact h.directory r x hx
    obtain ⟨e,he,hetype⟩ := hr
    obtain ⟨m,hm,hmtype,-⟩ := relinked_get ht hg he
    exact ⟨m,hm,hmtype.trans hetype⟩
  · obtain ⟨n,hn,-,hparent,hother,hself⟩ := relinked_inv ht hg hm
    have hnnone : n.parent = none := by
      rw [hmnone] at hparent
      split at hparent
      · cases hparent
      · exact hparent.symm
    have hend := h.detached x n hn hnnone
    by_cases hqx : q = x
    · obtain ⟨k,rfl,hk,-⟩ := hself hqx
      rw [hnext n (hqx ▸ hn) hnnone,hk,hend]
    · rw [(hother hqx).1,hend]

end Relinked

theorem represents_add_first {t : KernelState} (h : Represents s kids)
    (hd : s.nodes[p]? = some d) (htype : d.type = .directory) (hc : s.nodes[c]? = some node)
    (hnone : node.parent = none) (hnil : kids p = [])
    (hnodes : t.nodes = (s.nodes.modify c (withParent p)).modify p (withChildren (some c))) :
    Represents t (Function.update kids p (kids p ++ [c])) := by
  have hg := withChildren_kept (some c)
  have hkeep : ∀ (x : NodePtr) (k : FsNode), s.nodes[x]? = some k →
      ∃ m, t.nodes[x]? = some m ∧ m.next = k.next := by
    intro x k hk
    obtain ⟨m,hm,-,-,hother,hself⟩ := relinked_get hnodes hg hk
    by_cases hpx : p = x
    · obtain ⟨k',rfl,hk',-⟩ := hself hpx
      exact ⟨_,hm,hk'⟩
    · exact ⟨m,hm,(hother hpx).1⟩
  refine represents_relinked hnodes hg h hd htype hc hnone (fun _ _ _ _ => rfl) fun r f hf hftype => ?_
  obtain ⟨n,hn,hntype,-,hother,hself⟩ := relinked_inv hnodes hg hf
  by_cases hrp : p = r
  · subst hrp
    obtain ⟨k,rfl,-,-⟩ := hself rfl
    obtain ⟨m,hm,hmnext⟩ := hkeep c node hc
    have hend : m.next = none := hmnext.trans (h.detached c node hc hnone)
    rw [Function.update_self,hnil]
    exact .cons hm (by rw [hend]; exact .nil)
  · rw [Function.update_of_ne (Ne.symm hrp),(hother hrp).2]
    exact h.elsewhere (Ne.symm hrp) hn (hntype.symm.trans hftype) fun x k _ hk => hkeep x k hk

theorem represents_add_behind {t : KernelState} {e : NodePtr} (h : Represents s kids)
    (hd : s.nodes[p]? = some d) (htype : d.type = .directory) (hc : s.nodes[c]? = some node)
    (hnone : node.parent = none) (he : e ∈ kids p)
    (hend : ∀ n, s.nodes[e]? = some n → n.next = none)
    (hnodes : t.nodes = (s.nodes.modify c (withParent p)).modify e (withNext (some c))) :
    Represents t (Function.update kids p (kids p ++ [c])) := by
  have hg := withNext_kept (some c)
  obtain ⟨ne,hne,-⟩ := h.get he
  have hce : c ≠ e := by
    rintro rfl
    exact h.has_parent he hc hnone
  have hlinked : ∀ n, s.nodes[e]? = some n → n.parent = none →
      ∀ k, (withNext (some c) k).next = k.next :=
    fun n hn hfree => absurd hfree (h.has_parent he hn)
  have hkeep : ∀ (x : NodePtr) (k : FsNode), x ≠ e → s.nodes[x]? = some k →
      ∃ m, t.nodes[x]? = some m ∧ m.next = k.next := by
    intro x k hxe hk
    obtain ⟨m,hm,-,-,hother,-⟩ := relinked_get hnodes hg hk
    exact ⟨m,hm,(hother (Ne.symm hxe)).1⟩
  have hlink : ∃ m, t.nodes[e]? = some m ∧ m.next = some c := by
    obtain ⟨m,hm,-,-,-,hself⟩ := relinked_get hnodes hg hne
    obtain ⟨k,rfl,-,-⟩ := hself rfl
    exact ⟨_,hm,rfl⟩
  obtain ⟨m,hm,hmnext⟩ := hkeep c node hce hc
  refine represents_relinked hnodes hg h hd htype hc hnone hlinked fun r f hf hftype => ?_
  obtain ⟨n,hn,hntype,-,hother,hself⟩ := relinked_inv hnodes hg hf
  have hchildren : f.children = n.children := by
    by_cases her : e = r
    · obtain ⟨k,rfl,-,hk⟩ := hself her
      exact hk
    · exact (hother her).2
  have hchain := (h.chain r n hn (hntype.symm.trans hftype)).link hend hkeep hlink hm
    (hmnext.trans (h.detached c node hc hnone))
  rw [hchildren]
  by_cases hrp : r = p
  · subst hrp
    rw [if_pos he] at hchain
    rw [Function.update_self]
    exact hchain
  · rw [if_neg (fun her => hrp (h.single her he))] at hchain
    rw [Function.update_of_ne hrp]
    exact hchain

theorem represents_add {t : KernelState} (h : Represents s kids) (hd : s.nodes[p]? = some d)
    (htype : d.type = .directory) (hc : s.nodes[c]? = some node) (hnone : node.parent = none)
    (ht : fsAddNode s (some p) (some c) = some t) :
    Represents t (Function.update kids p (kids p ++ [c])) := by
  obtain ⟨u,hu,hcases⟩ := fsAddNode_nodes hd htype (h.chain p d hd htype) hc
  rw [ht] at hu
  cases hu
  rcases hcases with ⟨hnil,hnodes⟩ | ⟨e,he,hend,hnodes⟩
  · exact represents_add_first h hd htype hc hnone hnil hnodes
  · exact represents_add_behind h hd htype hc hnone he hend hnodes

end Add

section Remove

variable {s : KernelState} {kids : NodePtr → List NodePtr} {p c : NodePtr} {d node : FsNode}
  {l : List NodePtr}

def detached (n : FsNode) : FsNode := { n with parent := none, next := none }

theorem detach_nodes {n : FsNode} (hn : s.nodes[c]? = some n) :
    ∃ t, detach s c = some t ∧ t.nodes = s.nodes.modify c detached := by
  refine ⟨_,?_,setNode_modify hn detached⟩
  simp only [detach,hn,Option.bind_eq_bind,Option.bind_some]
  rfl

theorem fsRemoveNode_absent (hd : s.nodes[p]? = some d) (htype : d.type = .directory)
    (hl : Siblings s d.children l) (hc : s.nodes[c]? = some node) (hmem : c ∉ l) :
    fsRemoveNode s (some p) (some c) = some (s,-1) := by
  have hfirst : d.children ≠ some c := by
    rw [hl.start_eq]
    exact fun h => hmem (List.mem_of_mem_head? h)
  have hpred : predecessor FsNode.next s.nodes c s.nodes.length d.children = some none := by
    rcases hl.predecessor hfirst hl.length_le with ⟨pre,q,post,rfl,-⟩ | ⟨-,hpred⟩
    · exact absurd (List.mem_append_right pre (List.mem_cons_of_mem q List.mem_cons_self)) hmem
    · exact hpred
  simp only [fsRemoveNode,hd,hc,hpred,htype,if_neg hfirst,Option.bind_eq_bind,Option.bind_some,
    ne_eq,not_true_eq_false,if_false]

theorem fsRemoveNode_nodes (hd : s.nodes[p]? = some d) (htype : d.type = .directory)
    (hl : Siblings s d.children l) (hc : s.nodes[c]? = some node) (hmem : c ∈ l) :
    ∃ t, fsRemoveNode s (some p) (some c) = some (t,0) ∧
      ((∃ post, l = c :: post ∧
          t.nodes = (s.nodes.modify p (withChildren node.next)).modify c detached) ∨
        ∃ pre q post, l = pre ++ q :: c :: post ∧
          t.nodes = (s.nodes.modify q (withNext node.next)).modify c detached) := by
  by_cases hfirst : d.children = some c
  · have hs := setNode_modify hd (withChildren node.next)
    obtain ⟨n,hn⟩ : ∃ n, (s.setNode p (withChildren node.next d)).nodes[c]? = some n := by
      rw [hs,List.getElem?_modify,hc]
      exact ⟨_,rfl⟩
    obtain ⟨t,ht,hnodes⟩ := detach_nodes hn
    have ht' : detach (s.setNode p { d with children := node.next }) c = some t := ht
    have hdir : ¬ d.type ≠ .directory := not_not.mpr htype
    refine ⟨t,?_,.inl ?_⟩
    · simp only [fsRemoveNode,hd,hc,if_neg hdir,if_pos hfirst,ht',Option.bind_eq_bind,
        Option.bind_some]
    · rw [hfirst] at hl
      obtain ⟨post,rfl,-⟩ := hl.tail hc
      exact ⟨post,rfl,hnodes.trans (by rw [hs])⟩
  · rcases hl.predecessor hfirst hl.length_le with ⟨pre,q,post,rfl,hpred⟩ | ⟨hnot,-⟩
    · obtain ⟨k,hk⟩ := hl.get (List.mem_append_right pre List.mem_cons_self)
      have hs := setNode_modify hk (withNext node.next)
      obtain ⟨n,hn⟩ : ∃ n, (s.setNode q (withNext node.next k)).nodes[c]? = some n := by
        rw [hs,List.getElem?_modify,hc]
        exact ⟨_,rfl⟩
      obtain ⟨t,ht,hnodes⟩ := detach_nodes hn
      have ht' : detach (s.setNode q { k with next := node.next }) c = some t := ht
      refine ⟨t,?_,.inr ⟨pre,q,post,rfl,hnodes.trans (by rw [hs])⟩⟩
      simp only [fsRemoveNode,setNext,hd,hc,hk,hpred,htype,if_neg hfirst,ht',Option.bind_eq_bind,
        Option.bind_some,ne_eq,not_true_eq_false,if_false]
    · exact absurd hmem hnot

section Unlinked

variable {t : KernelState} {q : NodePtr} {g : FsNode → FsNode}
  (ht : t.nodes = (s.nodes.modify q g).modify c detached)
  (hg : ∀ n, (g n).type = n.type ∧ (g n).parent = n.parent)

include ht hg

theorem unlinked_get {x : NodePtr} {n : FsNode} (hn : s.nodes[x]? = some n) :
    ∃ m, t.nodes[x]? = some m ∧ m.type = n.type ∧
      m.parent = (if c = x then none else n.parent) ∧ (c = x → m.next = none) ∧
      (c ≠ x → m = (if q = x then g else id) n) ∧
      m.children = ((if q = x then g else id) n).children := by
  refine ⟨_,ht ▸ modify_twice hn,?_⟩
  have hkeep : ((if q = x then g else id) n).type = n.type ∧
      ((if q = x then g else id) n).parent = n.parent := by
    split
    · exact hg n
    · exact ⟨rfl,rfl⟩
  by_cases hcx : c = x
  · simp only [if_pos hcx]
    exact ⟨hkeep.1,rfl,fun _ => rfl,fun hne => absurd hcx hne,rfl⟩
  · rw [if_neg hcx,if_neg hcx]
    exact ⟨hkeep.1,hkeep.2,fun heq => absurd heq hcx,fun _ => rfl,rfl⟩

theorem unlinked_inv {x : NodePtr} {m : FsNode} (hm : t.nodes[x]? = some m) :
    ∃ n, s.nodes[x]? = some n ∧ m.type = n.type ∧
      m.parent = (if c = x then none else n.parent) ∧ (c = x → m.next = none) ∧
      (c ≠ x → m = (if q = x then g else id) n) ∧
      m.children = ((if q = x then g else id) n).children := by
  obtain ⟨n,hn,-⟩ := modify_twice_inv (ht ▸ hm)
  obtain ⟨m',hm',hget⟩ := unlinked_get ht hg hn
  rw [hm] at hm'
  cases hm'
  exact ⟨n,hn,hget⟩

theorem represents_unlinked (h : Represents s kids) (hc : c ∈ kids p) (hnodup : (kids p).Nodup)
    (hnext : ∀ n, s.nodes[q]? = some n → n.parent = none → (g n).next = n.next)
    (hchain : ∀ (r : NodePtr) (e : FsNode), t.nodes[r]? = some e → e.type = .directory →
      Siblings t e.children (Function.update kids p ((kids p).erase c) r)) :
    Represents t (Function.update kids p ((kids p).erase c)) := by
  refine ⟨hchain,fun x m r hm => ?_,fun r x hx => ?_,fun x m hm hmnone => ?_⟩
  · obtain ⟨n,hn,-,hparent,-⟩ := unlinked_inv ht hg hm
    rw [hparent]
    by_cases hcx : c = x
    · subst hcx
      rw [if_pos rfl]
      refine iff_of_false (fun hin => ?_) (fun heq => by cases heq)
      by_cases hrp : r = p
      · subst hrp
        rw [Function.update_self] at hin
        exact (hnodup.mem_erase_iff.mp hin).1 rfl
      · rw [Function.update_of_ne hrp] at hin
        exact hrp (h.single hin hc)
    · rw [if_neg hcx,← h.parent x n r hn]
      by_cases hrp : r = p
      · subst hrp
        rw [Function.update_self,hnodup.mem_erase_iff]
        exact and_iff_right (Ne.symm hcx)
      · rw [Function.update_of_ne hrp]
  · have hr : x ∈ kids r := by
      by_cases hrp : r = p
      · subst hrp
        rw [Function.update_self] at hx
        exact List.mem_of_mem_erase hx
      · rwa [Function.update_of_ne hrp] at hx
    obtain ⟨e,he,hetype⟩ := h.directory r x hr
    obtain ⟨m,hm,hmtype,-⟩ := unlinked_get ht hg he
    exact ⟨m,hm,hmtype.trans hetype⟩
  · obtain ⟨n,hn,-,hparent,hself,hother,-⟩ := unlinked_inv ht hg hm
    by_cases hcx : c = x
    · exact hself hcx
    · rw [if_neg hcx,hmnone] at hparent
      rw [hother hcx]
      split
      · next hqx =>
        rw [hnext n (hqx ▸ hn) hparent.symm]
        exact h.detached x n hn hparent.symm
      · exact h.detached x n hn hparent.symm

end Unlinked

section Chains

variable {t : KernelState} {q x : NodePtr} {k : FsNode} {start : Option NodePtr}
  {pre post : List NodePtr}

theorem unlinked_first_next {first : Option NodePtr}
    (ht : t.nodes = (s.nodes.modify p (withChildren first)).modify c detached)
    (hxc : x ≠ c) (hk : s.nodes[x]? = some k) : ∃ m, t.nodes[x]? = some m ∧ m.next = k.next := by
  obtain ⟨m,hm,-,-,-,hother,-⟩ := unlinked_get ht (withChildren_kept first) hk
  refine ⟨m,hm,?_⟩
  rw [hother (Ne.symm hxc)]
  split <;> rfl

theorem siblings_unlinked_first (hl : Siblings s start (c :: post)) (hc : s.nodes[c]? = some node)
    (ht : t.nodes = (s.nodes.modify p (withChildren node.next)).modify c detached) :
    Siblings t node.next post := by
  obtain ⟨-,n,hn,hpost⟩ := hl.head
  rw [hc] at hn
  cases hn
  refine hpost.frame_mem fun x hx k hk => unlinked_first_next ht ?_ hk
  rintro rfl
  exact (List.nodup_cons.mp hl.nodup).1 hx

theorem unlinked_behind_next {next : Option NodePtr}
    (ht : t.nodes = (s.nodes.modify q (withNext next)).modify c detached) (hxq : x ≠ q)
    (hxc : x ≠ c) (hk : s.nodes[x]? = some k) : ∃ m, t.nodes[x]? = some m ∧ m.next = k.next := by
  obtain ⟨m,hm,-,-,-,hother,-⟩ := unlinked_get ht (withNext_kept next) hk
  refine ⟨m,hm,?_⟩
  rw [hother (Ne.symm hxc),if_neg (Ne.symm hxq)]
  rfl

theorem siblings_unlinked_behind (hl : Siblings s start (pre ++ q :: c :: post))
    (hc : s.nodes[c]? = some node)
    (ht : t.nodes = (s.nodes.modify q (withNext node.next)).modify c detached) :
    Siblings t start ((pre ++ q :: c :: post).erase c) := by
  have hcq : c ≠ q := by
    rintro rfl
    exact (List.nodup_cons.mp (List.nodup_append.mp hl.nodup).2.1).1 List.mem_cons_self
  refine hl.erase (fun x k hxq hxc hk => unlinked_behind_next ht hxq hxc hk) fun a ha => ?_
  rw [hc] at ha
  cases ha
  obtain ⟨k,hk⟩ := hl.get (List.mem_append_right pre List.mem_cons_self)
  obtain ⟨m,hm,-,-,-,hother,-⟩ := unlinked_get ht (withNext_kept node.next) hk
  refine ⟨m,hm,?_⟩
  rw [hother hcq,if_pos rfl]
  rfl

end Chains

theorem represents_remove_first {t : KernelState} {post : List NodePtr} (h : Represents s kids)
    (hd : s.nodes[p]? = some d) (htype : d.type = .directory) (hc : s.nodes[c]? = some node)
    (hkids : kids p = c :: post)
    (hnodes : t.nodes = (s.nodes.modify p (withChildren node.next)).modify c detached) :
    Represents t (Function.update kids p ((kids p).erase c)) := by
  have hl := h.chain p d hd htype
  have hmem : c ∈ kids p := hkids ▸ List.mem_cons_self
  have hg := withChildren_kept node.next
  refine represents_unlinked hnodes hg h hmem hl.nodup (fun _ _ _ => rfl) fun r f hf hftype => ?_
  obtain ⟨n,hn,hntype,-,-,-,hchildren⟩ := unlinked_inv hnodes hg hf
  rw [hchildren]
  by_cases hrp : r = p
  · subst hrp
    rw [Function.update_self,hkids,List.erase_cons_head,if_pos rfl]
    exact siblings_unlinked_first (hkids ▸ hl) hc hnodes
  · rw [Function.update_of_ne hrp,if_neg (Ne.symm hrp)]
    refine h.elsewhere hrp hn (hntype.symm.trans hftype) fun x k hx hk =>
      unlinked_first_next hnodes ?_ hk
    rintro rfl
    exact hx hmem

theorem represents_remove_behind {t : KernelState} {pre post : List NodePtr} {q : NodePtr}
    (h : Represents s kids) (hd : s.nodes[p]? = some d) (htype : d.type = .directory)
    (hc : s.nodes[c]? = some node) (hkids : kids p = pre ++ q :: c :: post)
    (hnodes : t.nodes = (s.nodes.modify q (withNext node.next)).modify c detached) :
    Represents t (Function.update kids p ((kids p).erase c)) := by
  have hl := h.chain p d hd htype
  have hmem : c ∈ kids p := by
    rw [hkids]
    exact List.mem_append_right pre (List.mem_cons_of_mem q List.mem_cons_self)
  have hq : q ∈ kids p := by
    rw [hkids]
    exact List.mem_append_right pre List.mem_cons_self
  have hg := withNext_kept node.next
  have hnext : ∀ n, s.nodes[q]? = some n → n.parent = none →
      (withNext node.next n).next = n.next :=
    fun n hn hnone => absurd hnone (h.has_parent hq hn)
  refine represents_unlinked hnodes hg h hmem hl.nodup hnext fun r f hf hftype => ?_
  obtain ⟨n,hn,hntype,-,-,-,hchildren⟩ := unlinked_inv hnodes hg hf
  have hsame : f.children = n.children := by
    rw [hchildren]
    split <;> rfl
  rw [hsame]
  by_cases hrp : r = p
  · subst hrp
    rw [hd] at hn
    cases hn
    rw [Function.update_self,hkids]
    exact siblings_unlinked_behind (hkids ▸ hl) hc hnodes
  · rw [Function.update_of_ne hrp]
    refine h.elsewhere hrp hn (hntype.symm.trans hftype) fun x k hx hk =>
      unlinked_behind_next hnodes ?_ ?_ hk
    · rintro rfl
      exact hx hq
    · rintro rfl
      exact hx hmem

theorem represents_remove {t : KernelState} {status : ℤ} (h : Represents s kids)
    (hd : s.nodes[p]? = some d) (htype : d.type = .directory) (hc : s.nodes[c]? = some node)
    (ht : fsRemoveNode s (some p) (some c) = some (t,status)) :
    Represents t (Function.update kids p ((kids p).erase c)) := by
  have hl := h.chain p d hd htype
  have hnodup := hl.nodup
  by_cases hmem : c ∈ kids p
  · obtain ⟨u,hu,hcases⟩ := fsRemoveNode_nodes hd htype hl hc hmem
    rw [ht] at hu
    cases hu
    rcases hcases with ⟨post,hkids,hnodes⟩ | ⟨pre,q,post,hkids,hnodes⟩
    · exact represents_remove_first h hd htype hc hkids hnodes
    · exact represents_remove_behind h hd htype hc hkids hnodes
  · rw [fsRemoveNode_absent hd htype hl hc hmem] at ht
    cases ht
    rw [List.erase_of_not_mem hmem,Function.update_eq_self]
    exact h

end Remove

end KluxOS.Fs
