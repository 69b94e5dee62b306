import Mathlib.Data.List.Find
import KluxOS.Fs.Graph

namespace KluxOS.Fs

open KernelState LinkedList PathWalk

def entry (n : FsNode) : FsNode := { links n with next := none, children := none }

-- t is s with one more node, a file, at the end of the children of dir
structure Grows (s t : KernelState) (child : FsNode) (dir : Option NodePtr) : Prop where
  length : t.nodes.length = s.nodes.length + 1
  fs_root : t.fs_root = s.fs_root
  new : t.nodes[s.nodes.length]? = some child
  type : child.type = .file
  target : child.symlink_target = none
  parent : child.parent = dir
  dir_lt : ∀ p, dir = some p → p < s.nodes.length
  old : ∀ (p : NodePtr) (n : FsNode), s.nodes[p]? = some n →
    ∃ m, t.nodes[p]? = some m ∧ entry m = entry n
  chains : ∀ (p : NodePtr) (n m : FsNode) (l : List NodePtr), s.nodes[p]? = some n →
    t.nodes[p]? = some m → n.type = .directory → Siblings s n.children l →
    Siblings t m.children (if dir = some p then l ++ [s.nodes.length] else l)

def leaf (s : KernelState) (n : Option NodePtr) : NodePtr := n.getD s.nodes.length

section Growth

variable {s t : KernelState} {child : FsNode} {dir : Option NodePtr} (h : Grows s t child dir)

include h

theorem Grows.field {α : Type} (field : FsNode → α) (hfield : ∀ n, field (entry n) = field n)
    {p : NodePtr} (hp : p < s.nodes.length) :
    (t.nodes[p]?).map field = (s.nodes[p]?).map field := by
  obtain ⟨n,hn⟩ : ∃ n, s.nodes[p]? = some n := ⟨_,List.getElem?_eq_getElem hp⟩
  obtain ⟨m,hm,hentry⟩ := h.old p n hn
  rw [hm,hn,Option.map_some,Option.map_some,← hfield m,hentry,hfield]

theorem Grows.node {p : NodePtr} {m : FsNode} (hm : t.nodes[p]? = some m) :
    (p = s.nodes.length ∧ m = child) ∨ ∃ n, s.nodes[p]? = some n ∧ entry m = entry n := by
  have hp := lt_of_node hm
  rw [h.length] at hp
  rcases Nat.lt_succ_iff_lt_or_eq.mp hp with hp | rfl
  · obtain ⟨n,hn⟩ : ∃ n, s.nodes[p]? = some n := ⟨_,List.getElem?_eq_getElem hp⟩
    obtain ⟨m',hm',hentry⟩ := h.old p n hn
    rw [hm] at hm'
    cases hm'
    exact .inr ⟨n,hn,hentry⟩
  · rw [h.new] at hm
    cases hm
    exact .inl ⟨rfl,rfl⟩

theorem Grows.tree (htree : Tree s) : Tree t := by
  have hlt : ∀ q, q < s.nodes.length → q < t.nodes.length := fun q hq => by
    rw [h.length]
    exact Nat.lt_succ_of_lt hq
  have hfile : ∀ m, m = child → m.type ≠ .directory := by
    rintro m rfl hdir
    rw [h.type] at hdir
    cases hdir
  refine ⟨?_,?_,?_,?_,?_⟩
  · intro p m hm hdir
    rcases h.node hm with ⟨-,hnew⟩ | ⟨n,hn,hentry⟩
    · exact absurd hdir (hfile m hnew)
    · have htype := (congrArg FsNode.type hentry :).symm.trans hdir
      obtain ⟨l,hl⟩ := htree.chains p n hn htype
      exact ⟨_,h.chains p n m l hn hm htype hl⟩
  · intro p m hm hdir
    rcases h.node hm with ⟨-,hnew⟩ | ⟨n,hn,hentry⟩
    · exact absurd hdir (hfile m hnew)
    · obtain ⟨hook,hhook⟩ := htree.finddir p n hn ((congrArg FsNode.type hentry :).symm.trans hdir)
      exact ⟨hook,(congrArg FsNode.finddir hentry :).trans hhook⟩
  · intro p m q hm hq
    rcases h.node hm with ⟨-,rfl⟩ | ⟨n,hn,hentry⟩
    · exact hlt q (h.dir_lt q (h.parent.symm.trans hq))
    · exact hlt q (htree.parent p n q hn ((congrArg FsNode.parent hentry :).symm.trans hq))
  · intro p m q hm hq
    rcases h.node hm with ⟨-,rfl⟩ | ⟨n,hn,hentry⟩
    · rw [h.target] at hq
      cases hq
    · exact hlt q (htree.target p n q hn ((congrArg FsNode.symlink_target hentry :).symm.trans hq))
  · intro r hr
    exact hlt r (htree.root r (h.fs_root.symm.trans hr))

theorem Grows.up {p : NodePtr} (hp : p < s.nodes.length) : (graph t).up p = (graph s).up p := by
  obtain ⟨n,hn⟩ : ∃ n, s.nodes[p]? = some n := ⟨_,List.getElem?_eq_getElem hp⟩
  obtain ⟨m,hm,hentry⟩ := h.old p n hn
  have hparent : m.parent = n.parent := (congrArg FsNode.parent hentry :)
  simp only [graph,hn,hm,Option.bind_some,hparent]

theorem Grows.follow_eq {q : NodePtr} (hq : q < s.nodes.length) : follow t q = follow s q := by
  obtain ⟨n,hn⟩ : ∃ n, s.nodes[q]? = some n := ⟨_,List.getElem?_eq_getElem hq⟩
  obtain ⟨m,hm,hentry⟩ := h.old q n hn
  have htype : m.type = n.type := (congrArg FsNode.type hentry :)
  have htarget : m.symlink_target = n.symlink_target := (congrArg FsNode.symlink_target hentry :)
  simp only [follow,hn,hm,Option.bind_some,htype,htarget]

theorem Grows.follow_new : follow t s.nodes.length = some s.nodes.length := by
  simp only [follow,h.new,Option.bind_some,h.type]
  exact if_neg (by decide)

theorem Grows.child_new (c : CString) : (graph t).child s.nodes.length c = none := by
  simp only [graph,h.new,Option.bind_some,h.type]
  exact if_neg (by decide)

theorem Grows.lookup_or (htree : Tree s) {p : NodePtr} {n m : FsNode} (hn : s.nodes[p]? = some n)
    (hm : t.nodes[p]? = some m) (hdir : n.type = .directory) (c : CString) :
    lookup t m c = (lookup s n c).or
      (if dir = some p ∧ child.name = c then some s.nodes.length else none) := by
  obtain ⟨l,hl⟩ := htree.chains p n hn hdir
  have hnames : ∀ q ∈ l, (decide ((t.nodes[q]?).map FsNode.name = some c)) =
      decide ((s.nodes[q]?).map FsNode.name = some c) := by
    intro q hq
    rw [h.field FsNode.name (fun _ => rfl) (hl.lt_of_mem hq)]
  rw [lookup_eq (h.chains p n m l hn hm hdir hl),lookup_eq hl]
  by_cases hp : dir = some p
  · simp only [hp,if_true,true_and,List.find?_append,List.find?_congr hnames,List.find?_singleton,
      h.new,Option.map_some,Option.some.injEq,decide_eq_true_eq]
  · simp only [hp,if_false,false_and,List.find?_congr hnames,Option.or_none]

theorem Grows.child_eq (htree : Tree s) {p : NodePtr} {n : FsNode} (hn : s.nodes[p]? = some n)
    (c : CString) : (graph t).child p c =
      if n.type = .directory ∧ lookup s n c = none ∧ dir = some p ∧ child.name = c
      then some s.nodes.length else (graph s).child p c := by
  obtain ⟨m,hm,hentry⟩ := h.old p n hn
  have htype : m.type = n.type := (congrArg FsNode.type hentry :)
  by_cases hdir : n.type = .directory
  · simp only [graph,hn,hm,Option.bind_some,htype,hdir,if_true,true_and,
      h.lookup_or htree hn hm hdir]
    cases hlookup : lookup s n c with
    | none =>
      by_cases hnew : dir = some p ∧ child.name = c
      · simp only [hnew,and_self,if_true,Option.none_or,Option.bind_some,h.follow_new]
      · simp only [hnew,if_false,and_false,Option.none_or,Option.bind_none]
    | some q =>
      obtain ⟨e,he,-⟩ := lookup_node hlookup
      simp only [Option.some_or,Option.bind_some,h.follow_eq (lt_of_node he),reduceCtorEq,
        false_and,if_false]
  · simp only [graph,hn,hm,Option.bind_some,htype,hdir,if_false,false_and]

theorem Grows.resolve_old (htree : Tree s) (hhidden : ∀ p n, dir = some p → s.nodes[p]? = some n →
    lookup s n child.name ≠ none) (path : CString) : resolve t path = resolve s path := by
  have hembeds : Embeds (graph s) (graph t) (· < s.nodes.length) id := by
    refine ⟨fun p hp => ⟨h.up hp,graph_up_lt htree hp⟩,fun p c hp => ⟨?_,?_⟩⟩
    · obtain ⟨n,hn⟩ : ∃ n, s.nodes[p]? = some n := ⟨_,List.getElem?_eq_getElem hp⟩
      rw [id_eq,h.child_eq htree hn,Option.map_id_fun,id_eq]
      refine if_neg ?_
      rintro ⟨-,hnone,hdir,rfl⟩
      exact hhidden p n hdir hn hnone
    · exact fun q hq => graph_child_lt htree hq
  rw [resolve,resolve,h.fs_root]
  cases hroot : s.fs_root with
  | none => rfl
  | some root => simpa using hembeds.walk (htree.root root hroot) (steps path)

theorem Grows.child_extend (htree : Tree s) {p r : NodePtr} {n : FsNode} (hdir : dir = some p)
    (hn : s.nodes[p]? = some n) (htype : n.type = .directory)
    (hfree : lookup s n child.name = none) (hr : r < s.nodes.length) (c : CString) :
    (graph t).child r c = ((extend (graph s) p child.name).child (some r) c).map (leaf s) ∧
      ∀ m, (extend (graph s) p child.name).child (some r) c = some m →
        ∀ q, m = some q → q < s.nodes.length := by
  obtain ⟨e,he⟩ : ∃ e, s.nodes[r]? = some e := ⟨_,List.getElem?_eq_getElem hr⟩
  simp only [extend,h.child_eq htree he c]
  cases hold : (graph s).child r c with
  | some q =>
    refine ⟨if_neg ?_,?_⟩
    · rintro ⟨hdir',hnone,-⟩
      simp only [graph,he,hdir',hnone,if_true,Option.bind_some,Option.bind_none,
        reduceCtorEq] at hold
    · rintro m ⟨⟩ q ⟨⟩
      exact graph_child_lt htree hold
  | none =>
    by_cases hnew : r = p ∧ c = child.name
    · obtain ⟨rfl,rfl⟩ := hnew
      rw [hn] at he
      cases he
      refine ⟨?_,?_⟩
      · simp only [htype,hfree,hdir,and_self,if_true,Option.map_some]
        rfl
      · intro m hm
        simp only [and_self,if_true,Option.some.injEq] at hm
        subst hm
        rintro q ⟨⟩
    · refine ⟨?_,?_⟩
      · rw [if_neg hnew,Option.map_none]
        refine if_neg ?_
        rintro ⟨-,-,hr,rfl⟩
        rw [hdir] at hr
        cases hr
        exact hnew ⟨rfl,rfl⟩
      · intro m hm
        rw [if_neg hnew] at hm
        cases hm

-- t is s with one more name below p
theorem Grows.embeds_new (htree : Tree s) {p : NodePtr} {n : FsNode} (hdir : dir = some p)
    (hn : s.nodes[p]? = some n) (htype : n.type = .directory)
    (hfree : lookup s n child.name = none) :
    Embeds (extend (graph s) p child.name) (graph t)
      (fun r => ∀ q, r = some q → q < s.nodes.length) (leaf s) := by
  refine ⟨fun r hr => ?_,fun r c hr => ?_⟩
  · cases r with
    | none =>
      refine ⟨?_,?_⟩
      · simp only [leaf,graph,extend,h.new,h.parent,hdir,Option.bind_some,Option.getD_none,
          Option.getD_some]
      · rintro q ⟨⟩
        exact lt_of_node hn
    | some r =>
      refine ⟨h.up (hr r rfl),?_⟩
      rintro q ⟨⟩
      exact graph_up_lt htree (hr r rfl)
  · cases r with
    | none => exact ⟨h.child_new c,fun m hm => by cases hm⟩
    | some r => exact h.child_extend htree hdir hn htype hfree (hr r rfl) c

theorem Grows.resolve_new (htree : Tree s) {p : NodePtr} {n : FsNode} (hdir : dir = some p)
    (hn : s.nodes[p]? = some n) (htype : n.type = .directory)
    (hfree : lookup s n child.name = none) (path : CString) :
    resolve t path = some s.nodes.length ↔ ∃ root, s.fs_root = some root ∧
      (extend (graph s) p child.name).walk (some root) (steps path) = some none := by
  have hembeds := h.embeds_new htree hdir hn htype hfree
  rw [resolve,h.fs_root]
  cases hroot : s.fs_root with
  | none => simp
  | some root =>
    have hvalid : ∀ q, some root = some q → q < s.nodes.length := by
      rintro q ⟨⟩
      exact htree.root root hroot
    have hwalk := hembeds.walk hvalid (steps path)
    simp only [leaf,Option.getD_some] at hwalk
    simp only [Option.bind_some,hwalk,Option.some.injEq,exists_eq_left',Option.map_eq_some_iff]
    constructor
    · rintro ⟨r,hr,hlast⟩
      cases r with
      | none => exact hr
      | some q => exact absurd hlast (Nat.ne_of_lt (hembeds.valid hvalid hr q rfl))
    · intro hr
      exact ⟨none,hr,rfl⟩

end Growth

end KluxOS.Fs
