import KluxOS.Fs.Nodes
import KluxOS.Lib.LinkedList

namespace KluxOS.Fs

open KernelState LinkedList

abbrev Siblings (s : KernelState) : Option NodePtr → List NodePtr → Prop :=
  Chain FsNode.next s.nodes

structure Tree (s : KernelState) : Prop where
  chains : ∀ (p : NodePtr) (d : FsNode), s.nodes[p]? = some d → d.type = .directory →
    ∃ l, Siblings s d.children l
  finddir : ∀ (p : NodePtr) (d : FsNode), s.nodes[p]? = some d → d.type = .directory →
    ∃ hook, d.finddir = some hook
  parent : ∀ (p : NodePtr) (n : FsNode) (q : NodePtr), s.nodes[p]? = some n → n.parent = some q →
    q < s.nodes.length
  target : ∀ (p : NodePtr) (n : FsNode) (q : NodePtr), s.nodes[p]? = some n →
    n.symlink_target = some q → q < s.nodes.length
  root : ∀ r, s.fs_root = some r → r < s.nodes.length

def lookup (s : KernelState) (d : FsNode) (name : CString) : Option NodePtr :=
  (listing FsNode.next s.nodes s.nodes.length d.children).find? fun q =>
    decide ((s.nodes[q]?).map FsNode.name = some name)

def ExactFinddir (hooks : Hooks) : Prop :=
  ∀ (hook : Hook) (s : KernelState) (p : NodePtr) (d : FsNode) (name : CString),
    s.nodes[p]? = some d → d.type = .directory → hooks.finddir hook s p name = some (lookup s d name)

def treeHooks : Hooks where
  read := fun _ _ _ _ _ => none
  write := fun _ _ _ _ _ _ => none
  open_ := fun _ s _ => some s
  close := fun _ s _ => some s
  readdir := fun _ _ _ _ => none
  finddir := fun _ s p name => (s.nodes[p]?).map fun d => lookup s d name
  truncate := fun _ _ _ => none

theorem treeHooks_exact : ExactFinddir treeHooks := by
  intro hook s p d name hd _
  simp only [treeHooks,hd,Option.map_some]

theorem treeHooks_open (hook : Hook) (s : KernelState) (p : NodePtr) :
    treeHooks.open_ hook s p = some s := rfl

section Example

def nodeChecks (s : KernelState) (n : FsNode) : Bool :=
  (decide (n.type ≠ .directory) ||
    ends FsNode.next s.nodes s.nodes.length n.children && n.finddir.isSome) &&
  n.parent.all (fun q => decide (q < s.nodes.length)) &&
  n.symlink_target.all (fun q => decide (q < s.nodes.length))

def treeChecks (s : KernelState) : Bool :=
  s.nodes.all (nodeChecks s) && s.fs_root.all fun r => decide (r < s.nodes.length)

theorem tree_of_checks {s : KernelState} (h : treeChecks s = true) : Tree s := by
  obtain ⟨hnodes,hroot⟩ := Bool.and_eq_true_iff.mp h
  have hnode : ∀ (p : NodePtr) (n : FsNode), s.nodes[p]? = some n →
      (n.type = .directory → ends FsNode.next s.nodes s.nodes.length n.children = true ∧
        n.finddir.isSome) ∧ (∀ q, n.parent = some q → q < s.nodes.length) ∧
        ∀ q, n.symlink_target = some q → q < s.nodes.length := by
    intro p n hn
    have hall := List.all_eq_true.mp hnodes n (List.mem_of_getElem? hn)
    rw [nodeChecks,Bool.and_eq_true,Bool.and_eq_true,Bool.or_eq_true,Bool.and_eq_true] at hall
    obtain ⟨⟨hdir,hparent⟩,htarget⟩ := hall
    refine ⟨fun htype => hdir.resolve_left (by simp [htype]),fun q hq => ?_,fun q hq => ?_⟩
    · simpa [hq] using hparent
    · simpa [hq] using htarget
  refine ⟨fun p d hd htype => ?_,fun p d hd htype => ?_,fun p n q hn => (hnode p n hn).2.1 q,
    fun p n q hn => (hnode p n hn).2.2 q,fun r hr => ?_⟩
  · exact chain_of_ends ((hnode p d hd).1 htype).1
  · exact Option.isSome_iff_exists.mp ((hnode p d hd).1 htype).2
  · simpa [hr] using hroot

def rootWithFile : KernelState :=
  { KernelState.boot with
    nodes := [{ createdNode KernelState.boot ['/'] .directory with children := some 1 },
      { createdNode KernelState.boot ['a'] .file with parent := some 0 }]
    fs_root := some 0 }

theorem rootWithFile_tree : Tree rootWithFile := tree_of_checks (by decide)

end Example

section Add

theorem lastSibling_eq {s : KernelState} {p : NodePtr} {l : List NodePtr}
    (h : Siblings s (some p) l) {fuel : ℕ} (hfuel : l.length ≤ fuel) :
    ∃ q n, lastSibling s.nodes fuel p = some q ∧ s.nodes[q]? = some n ∧ n.next = none ∧ q ∈ l := by
  generalize hstart : some p = start at h
  induction h generalizing p fuel with
  | nil => cases hstart
  | @cons r n l hn hl ih =>
    cases hstart
    cases fuel with
    | zero => simp at hfuel
    | succ fuel =>
      cases hnext : n.next with
      | none => exact ⟨r,n,by simp [lastSibling,hn,hnext],hn,hnext,List.mem_cons_self⟩
      | some r' =>
        obtain ⟨q,m,hq,hm,hend,hmem⟩ := ih (by simpa using hfuel) hnext.symm
        refine ⟨q,m,?_,hm,hend,List.mem_cons_of_mem _ hmem⟩
        simpa [lastSibling,hn,hnext] using hq

theorem siblings_of_next {s t : KernelState} {start : Option NodePtr} {l : List NodePtr}
    (h : Siblings s start l) (hkeep : ∀ (p : NodePtr) (n : FsNode), s.nodes[p]? = some n →
      ∃ m, t.nodes[p]? = some m ∧ m.next = n.next) : Siblings t start l := h.frame hkeep

-- the one cell fs_add_node links the child from: the directory, or the last of its children
inductive LinkedFrom (s : KernelState) (p c : NodePtr) (d : FsNode) (l : List NodePtr) :
    NodePtr → FsNode → FsNode → Prop
  | first : d.children = none → s.nodes[p]? = some d →
      LinkedFrom s p c d l p d { d with children := some c }
  | last {q : NodePtr} {n : FsNode} : d.children ≠ none → q ∈ l → s.nodes[q]? = some n →
      n.next = none → LinkedFrom s p c d l q n { n with next := some c }

theorem fsAddNode_refused {s : KernelState} {p c : NodePtr} {d : FsNode}
    (hd : s.nodes[p]? = some d) (htype : d.type ≠ .directory) :
    fsAddNode s (some p) (some c) =
      some (s.print "HATA: Dizin olmayan bir dugume alt dugum eklenemez!\n".toList) := by
  simp only [fsAddNode,hd,Option.bind_eq_bind,Option.bind_some,if_pos htype]

theorem fsAddNode_linked {s : KernelState} {p c : NodePtr} {d node : FsNode} {l : List NodePtr}
    (hd : s.nodes[p]? = some d) (htype : d.type = .directory) (hl : Siblings s d.children l)
    (hc : s.nodes[c]? = some node) (hpc : p ≠ c) (hcl : c ∉ l) :
    ∃ q n n', LinkedFrom s p c d l q n n' ∧ fsAddNode s (some p) (some c) =
      some ((s.setNode c { node with parent := some p }).setNode q n') := by
  have hd' : (s.setNode c { node with parent := some p }).nodes[p]? = some d :=
    (setNode_other hpc).trans hd
  cases hchildren : d.children with
  | none =>
    refine ⟨p,d,_,.first hchildren hd,?_⟩
    simp only [fsAddNode,hd,hc,hd',hchildren,htype,Option.bind_eq_bind,Option.bind_some,ne_eq,
      not_true_eq_false,if_false]
  | some first =>
    have hl' : Siblings (s.setNode c { node with parent := some p }) (some first) l := by
      rw [← hchildren]
      refine siblings_of_next hl fun r n hn => ?_
      by_cases hr : r = c
      · subst hr
        rw [hc] at hn
        cases hn
        exact ⟨_,setNode_self hc,rfl⟩
      · exact ⟨n,(setNode_other hr).trans hn,rfl⟩
    obtain ⟨q,n,hlast,hn,hend,hq⟩ := lastSibling_eq hl' hl'.length_le
    have hqc : q ≠ c := fun heq => hcl (heq ▸ hq)
    refine ⟨q,n,_,.last (by simp [hchildren]) hq ((setNode_other hqc).symm.trans hn) hend,?_⟩
    simp only [fsAddNode,hd,hc,hd',hchildren,htype,hlast,setNext,hn,Option.bind_eq_bind,
      Option.bind_some,ne_eq,not_true_eq_false,if_false]

theorem LinkedFrom.changed {s : KernelState} {p c q : NodePtr} {d n n' : FsNode}
    {l : List NodePtr} (h : LinkedFrom s p c d l q n n') : s.nodes[q]? = some n ∧ n' ≠ n := by
  cases h with
  | first hchildren hd =>
    refine ⟨hd,fun heq => ?_⟩
    have hsome := congrArg FsNode.children heq
    rw [hchildren] at hsome
    cases hsome
  | last _ _ hn hend =>
    refine ⟨hn,fun heq => ?_⟩
    have hsome := congrArg FsNode.next heq
    rw [hend] at hsome
    cases hsome

end Add

end KluxOS.Fs
