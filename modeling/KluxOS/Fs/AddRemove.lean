import KluxOS.Fs.ChildTree

namespace KluxOS.Fs

open KernelState LinkedList

def Children (s : KernelState) (p : NodePtr) (l : List NodePtr) : Prop :=
  ∃ d, s.nodes[p]? = some d ∧ d.type = .directory ∧ Siblings s d.children l

-- every link of the heap after c is added to p, the children before it l
def added (l : List NodePtr) (p c x : NodePtr) (n : FsNode) : FsNode :=
  { n with
    parent := if x = c then some p else n.parent
    next := if l.getLast? = some x then some c else n.next
    children := if x = p ∧ l = [] then some c else n.children }

section Add

variable {s t : KernelState} {p c : NodePtr} {d node : FsNode} {l : List NodePtr}

theorem modify_twice_map (nodes : List FsNode) (c q x : NodePtr) (f g : FsNode → FsNode) :
    ((nodes.modify c f).modify q g)[x]? =
      (nodes[x]?).map fun n => (if q = x then g else id) ((if c = x then f else id) n) := by
  cases hn : nodes[x]? with
  | none =>
    rw [List.getElem?_modify,List.getElem?_modify,hn]
    split <;> split <;> rfl
  | some n => exact modify_twice hn

-- the one child that ends the chain is its last
theorem last_of_end (hl : Siblings s d.children l) {e : NodePtr} (he : e ∈ l)
    (hend : ∀ n, s.nodes[e]? = some n → n.next = none) : l.getLast? = some e := by
  obtain ⟨n,hn⟩ := hl.get he
  obtain ⟨pre,post,rfl⟩ := List.append_of_mem he
  have hpost := hl.next_eq hn
  rw [hend n hn,eq_comm,List.head?_eq_none_iff] at hpost
  rw [hpost,List.getLast?_concat]

theorem fsAddNode_links (hd : s.nodes[p]? = some d) (htype : d.type = .directory)
    (hl : Siblings s d.children l) (hc : s.nodes[c]? = some node) :
    ∃ t, fsAddNode s (some p) (some c) = some t ∧
      ∀ x : NodePtr, t.nodes[x]? = (s.nodes[x]?).map (added l p c x) := by
  obtain ⟨t,ht,hcases⟩ := fsAddNode_nodes hd htype hl hc
  refine ⟨t,ht,fun x => ?_⟩
  rcases hcases with ⟨rfl,hnodes⟩ | ⟨e,he,hend,hnodes⟩
  · rw [hnodes,modify_twice_map]
    refine Option.map_congr fun n _ => ?_
    by_cases hcx : c = x
    · by_cases hpx : p = x
      · simp [added,withParent,withChildren,hcx,hpx]
      · simp [added,withParent,hcx,hpx,Ne.symm hpx]
    · by_cases hpx : p = x
      · simp [added,withChildren,hcx,Ne.symm hcx,hpx]
      · simp [added,hcx,Ne.symm hcx,hpx,Ne.symm hpx]
  · have hlast := last_of_end hl he hend
    have hne : l ≠ [] := List.ne_nil_of_mem he
    rw [hnodes,modify_twice_map]
    refine Option.map_congr fun n _ => ?_
    by_cases hcx : c = x
    · by_cases hex : e = x
      · simp [added,withParent,withNext,hcx,hex,hlast,hne]
      · simp [added,withParent,hcx,hex,hlast,hne]
    · by_cases hex : e = x
      · simp [added,withNext,hcx,Ne.symm hcx,hex,hlast,hne]
      · simp [added,hcx,Ne.symm hcx,hex,hlast,hne]

theorem eq_of_links {n : FsNode} {parent next children : Option NodePtr} (hparent : parent = n.parent)
    (hnext : next = n.next) (hchildren : children = n.children) :
    { n with parent := parent, next := next, children := children } = n := by
  subst hparent hnext hchildren
  rfl

theorem restored_first {x : NodePtr} {n : FsNode} (hn : s.nodes[x]? = some n)
    (hd : s.nodes[p]? = some d) (hchildren : d.children = none) (hc : s.nodes[c]? = some node)
    (hnext : node.next = none) (hparent : node.parent = none) :
    (if c = x then detached else id)
      ((if p = x then withChildren none else id) (added [] p c x n)) = n := by
  by_cases hcx : c = x
  · subst hcx
    rw [hc] at hn
    cases hn
    by_cases hpc : p = c
    · subst hpc
      rw [hc] at hd
      cases hd
      rw [if_pos rfl,if_pos rfl]
      exact eq_of_links hparent.symm hnext.symm hchildren.symm
    · rw [if_pos rfl,if_neg hpc]
      exact eq_of_links hparent.symm hnext.symm (if_neg fun h => hpc h.1.symm)
  · rw [if_neg hcx]
    by_cases hpx : p = x
    · subst hpx
      rw [hd] at hn
      cases hn
      rw [if_pos rfl]
      exact eq_of_links (if_neg (Ne.symm hcx)) rfl hchildren.symm
    · rw [if_neg hpx]
      exact eq_of_links (if_neg (Ne.symm hcx)) rfl (if_neg fun h => hpx h.1.symm)

theorem restored_behind {pre : List NodePtr} {q x : NodePtr} {n : FsNode}
    (hn : s.nodes[x]? = some n) (hl : Siblings s d.children (pre ++ [q]))
    (hc : s.nodes[c]? = some node) (hcl : c ∉ pre ++ [q]) (hnext : node.next = none)
    (hparent : node.parent = none) :
    (if c = x then detached else id)
      ((if q = x then withNext none else id) (added (pre ++ [q]) p c x n)) = n := by
  have hqc : q ≠ c := fun h => hcl (h ▸ List.mem_append_right pre (List.mem_singleton_self q))
  have hlast : (pre ++ [q]).getLast? = some q := List.getLast?_concat
  have hchildren : (if x = p ∧ pre ++ [q] = [] then some c else n.children) = n.children :=
    if_neg fun h => List.append_ne_nil_of_right_ne_nil pre (List.cons_ne_nil q []) h.2
  by_cases hcx : c = x
  · subst hcx
    rw [hc] at hn
    cases hn
    rw [if_pos rfl,if_neg hqc]
    exact eq_of_links hparent.symm hnext.symm hchildren
  · rw [if_neg hcx]
    by_cases hqx : q = x
    · subst hqx
      rw [if_pos rfl]
      exact eq_of_links (if_neg (Ne.symm hcx)) (hl.next_eq hn).symm hchildren
    · rw [if_neg hqx]
      exact eq_of_links (if_neg (Ne.symm hcx))
        (if_neg (hlast ▸ fun h => hqx (Option.some.inj h))) hchildren

section Linked

variable (ht : ∀ x : NodePtr, t.nodes[x]? = (s.nodes[x]?).map (added l p c x))

include ht

theorem added_get {x : NodePtr} {n : FsNode} (hn : s.nodes[x]? = some n) :
    t.nodes[x]? = some (added l p c x n) := by
  rw [ht,hn,Option.map_some]

theorem added_children (hd : s.nodes[p]? = some d) (htype : d.type = .directory)
    (hl : Siblings s d.children l) (hc : s.nodes[c]? = some node) (hcl : c ∉ l)
    (hnext : node.next = none) : Children t p (l ++ [c]) := by
  refine ⟨_,added_get ht hd,htype,?_⟩
  have hcnext : (added l p c c node).next = none := by
    rw [added,if_neg (fun h => hcl (List.mem_of_getLast? h)),hnext]
  rcases List.eq_nil_or_concat' l with rfl | ⟨pre,e,rfl⟩
  · have hfirst : (added [] p c p d).children = some c := if_pos ⟨rfl,rfl⟩
    rw [hfirst]
    exact .cons (added_get ht hc) (hcnext ▸ .nil)
  · have he : e ∈ pre ++ [e] := List.mem_append_right pre (List.mem_singleton_self e)
    have hsame : (added (pre ++ [e]) p c p d).children = d.children :=
      if_neg fun h => List.ne_nil_of_mem he h.2
    have hlast : (pre ++ [e]).getLast? = some e := List.getLast?_concat
    obtain ⟨n,hn⟩ := hl.get he
    rw [hsame]
    have hchain := hl.link (q := e) (fun a ha => ?_)
      (fun x a hxe ha => ⟨_,added_get ht ha,if_neg ?_⟩) ⟨_,added_get ht hn,if_pos hlast⟩
      (added_get ht hc) hcnext
    · rwa [if_pos he] at hchain
    · exact hl.next_eq ha
    · rw [hlast]
      exact fun h => hxe (Option.some.inj h).symm

theorem remove_added (hd : s.nodes[p]? = some d) (htype : d.type = .directory)
    (hl : Siblings s d.children l) (hc : s.nodes[c]? = some node) (hcl : c ∉ l)
    (hnext : node.next = none) (hparent : node.parent = none) :
    ∃ u, fsRemoveNode t (some p) (some c) = some (u,0) ∧ u.nodes = s.nodes := by
  obtain ⟨d',hd',htype',hchain⟩ := added_children ht hd htype hl hc hcl hnext
  have hmem : c ∈ l ++ [c] := List.mem_append_right l (List.mem_singleton_self c)
  have hcnext : (added l p c c node).next = none := by
    rw [added,if_neg (fun h => hcl (List.mem_of_getLast? h)),hnext]
  obtain ⟨u,hu,hcases⟩ := fsRemoveNode_nodes hd' htype' hchain (added_get ht hc) hmem
  rw [hcnext] at hcases
  refine ⟨u,hu,List.ext_getElem? fun x => ?_⟩
  have hback : ∀ (q : NodePtr) (g : FsNode → FsNode), (∀ n, s.nodes[x]? = some n →
      (if c = x then detached else id) ((if q = x then g else id) (added l p c x n)) = n) →
      ((t.nodes.modify q g).modify c detached)[x]? = s.nodes[x]? := by
    intro q g hsame
    rw [modify_twice_map,ht,Option.map_map]
    cases hn : s.nodes[x]? with
    | none => rfl
    | some n => exact congrArg some (hsame n hn)
  rcases hcases with ⟨post,hsplit,hnodes⟩ | ⟨pre,q,post,hsplit,hnodes⟩
  · have hnil : l = [] := by
      cases l with
      | nil => rfl
      | cons y l =>
        cases hsplit
        exact absurd List.mem_cons_self hcl
    subst hnil
    rw [hnodes]
    exact hback p (withChildren none) fun n hn =>
      restored_first hn hd hl.start_eq hc hnext hparent
  · obtain ⟨rfl,rfl⟩ : l = pre ++ [q] ∧ post = [] := by
      rcases List.eq_nil_or_concat' post with rfl | ⟨post,y,rfl⟩
      · rw [List.append_cons pre q] at hsplit
        exact ⟨(List.append_inj' hsplit rfl).1,rfl⟩
      · have hl' : l = pre ++ q :: c :: post :=
          (List.append_inj' (hsplit.trans (List.append_assoc pre (q :: c :: post) [y]).symm) rfl).1
        exact absurd (hl' ▸ List.mem_append_right pre (List.mem_cons_of_mem q List.mem_cons_self)) hcl
    rw [hnodes]
    exact hback q (withNext none) fun n hn => restored_behind hn hl hc hcl hnext hparent

end Linked

end Add

section Remove

variable {s u : KernelState} {p m : NodePtr} {d node : FsNode} {l : List NodePtr}

theorem removed_first {post : List NodePtr} (hd : s.nodes[p]? = some d) (htype : d.type = .directory)
    (hl : Siblings s d.children (m :: post)) (hm : s.nodes[m]? = some node)
    (hnodes : u.nodes = (s.nodes.modify p (withChildren node.next)).modify m detached) :
    Children u p post := by
  obtain ⟨d',hd',htype',-,-,-,hchildren⟩ :=
    unlinked_get hnodes (withChildren_kept node.next) hd
  rw [if_pos rfl] at hchildren
  refine ⟨d',hd',htype'.trans htype,?_⟩
  rw [hchildren]
  exact siblings_unlinked_first hl hm hnodes

theorem removed_behind {pre post : List NodePtr} {q : NodePtr} (hd : s.nodes[p]? = some d)
    (htype : d.type = .directory) (hl : Siblings s d.children (pre ++ q :: m :: post))
    (hm : s.nodes[m]? = some node)
    (hnodes : u.nodes = (s.nodes.modify q (withNext node.next)).modify m detached) :
    Children u p ((pre ++ q :: m :: post).erase m) := by
  obtain ⟨d',hd',htype',-,-,-,hchildren⟩ := unlinked_get hnodes (withNext_kept node.next) hd
  have hsame : d'.children = d.children := by
    rw [hchildren]
    split <;> rfl
  refine ⟨d',hd',htype'.trans htype,?_⟩
  rw [hsame]
  exact siblings_unlinked_behind hl hm hnodes

theorem remove_member (hd : s.nodes[p]? = some d) (htype : d.type = .directory)
    (hl : Siblings s d.children l) (hm : m ∈ l) :
    ∃ u, fsRemoveNode s (some p) (some m) = some (u,0) ∧ Children u p (l.erase m) := by
  obtain ⟨node,hnode⟩ := hl.get hm
  obtain ⟨u,hu,hcases⟩ := fsRemoveNode_nodes hd htype hl hnode hm
  refine ⟨u,hu,?_⟩
  rcases hcases with ⟨post,rfl,hnodes⟩ | ⟨pre,q,post,rfl,hnodes⟩
  · rw [List.erase_cons_head]
    exact removed_first hd htype hl hnode hnodes
  · exact removed_behind hd htype hl hnode hnodes

theorem add_and_remove_children (hd : s.nodes[p]? = some d) (htype : d.type = .directory)
    (hl : Siblings s d.children l) :
    (∀ (c : NodePtr) (node : FsNode), s.nodes[c]? = some node → c ∉ l → node.next = none →
      node.parent = none → ∃ t, fsAddNode s (some p) (some c) = some t ∧ Children t p (l ++ [c]) ∧
        (∀ x : NodePtr, t.nodes[x]? = (s.nodes[x]?).map (added l p c x)) ∧
        ∃ u, fsRemoveNode t (some p) (some c) = some (u,0) ∧ u.nodes = s.nodes) ∧
    (∀ m ∈ l, ∃ u, fsRemoveNode s (some p) (some m) = some (u,0) ∧ Children u p (l.erase m)) ∧
    (∀ (m : NodePtr) (node : FsNode), s.nodes[m]? = some node → m ∉ l →
      fsRemoveNode s (some p) (some m) = some (s,-1)) := by
  refine ⟨fun c node hc hcl hnext hparent => ?_,fun m hm => remove_member hd htype hl hm,
    fun m node hm hml => fsRemoveNode_absent hd htype hl hm hml⟩
  obtain ⟨t,ht,hlinks⟩ := fsAddNode_links hd htype hl hc
  exact ⟨t,ht,added_children hlinks hd htype hl hc hcl hnext,hlinks,
    remove_added hlinks hd htype hl hc hcl hnext hparent⟩

end Remove

-- a file in the root directory and one in no directory
def rootAndLooseFile : KernelState :=
  { rootWithFile with nodes := rootWithFile.nodes ++ [createdNode KernelState.boot ['b'] .file] }

theorem add_and_remove_children_file :
    (∃ t, fsAddNode rootAndLooseFile (some 0) (some 2) = some t ∧ Children t 0 [1,2] ∧
      ∃ u, fsRemoveNode t (some 0) (some 2) = some (u,0) ∧ u.nodes = rootAndLooseFile.nodes) ∧
    (∃ u, fsRemoveNode rootAndLooseFile (some 0) (some 1) = some (u,0) ∧ Children u 0 []) ∧
    fsRemoveNode rootAndLooseFile (some 0) (some 2) = some (rootAndLooseFile,-1) := by
  have hchain : Siblings rootAndLooseFile (some 1) [1] :=
    .cons (a := { createdNode KernelState.boot ['a'] .file with parent := some 0 }) rfl .nil
  obtain ⟨hadd,hmember,hother⟩ := add_and_remove_children (s := rootAndLooseFile) (p := 0)
    (d := { createdNode KernelState.boot ['/'] .directory with children := some 1 }) rfl rfl hchain
  have hloose : (2 : NodePtr) ∉ [1] := by simp
  obtain ⟨t,ht,hchildren,-,hback⟩ := hadd 2 _ rfl hloose rfl rfl
  exact ⟨⟨t,ht,hchildren,hback⟩,hmember 1 List.mem_cons_self,hother 2 _ rfl hloose⟩

end KluxOS.Fs
