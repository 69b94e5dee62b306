import KluxOS.Fs.Fs

namespace KluxOS.Fs

open KernelState

def createdNode (s : KernelState) (name : CString) (type : FsNodeType) : FsNode where
  name := name.take 127
  mask := fsPermRead
  created_time := s.tick_count
  modified_time := s.tick_count
  type := type
  read := if type = .file then some .fsRead else none
  write := if type = .file then some .fsWrite else none
  open_ := some .fsOpen
  close := some .fsClose
  readdir := if type = .directory then some .fsReaddir else none
  finddir := if type = .directory then some .fsFinddir else none

section Create

variable (alloc : Allocator) (s : KernelState)

theorem allocate_nodes (size : Uint32) : (allocate alloc s size).1 =
    { s with blocks := (allocate alloc s size).1.blocks } := by
  unfold allocate
  simp only
  split <;> rfl

theorem fsCreateNode_null {name : CString} {type : FsNodeType}
    (h : (allocate alloc s fsNodeSize).2 = 0#32) :
    fsCreateNode alloc s name type = ((allocate alloc s fsNodeSize).1,none) := by
  rw [fsCreateNode]
  simp only
  rw [if_pos h]

theorem fsCreateNode_some {name : CString} {type : FsNodeType}
    (h : (allocate alloc s fsNodeSize).2 ≠ 0#32) : fsCreateNode alloc s name type =
      ({ s with blocks := (allocate alloc s fsNodeSize).1.blocks
                nodes := s.nodes ++ [createdNode s name type] },some s.nodes.length) := by
  rw [fsCreateNode]
  simp only
  rw [if_neg h,allocate_nodes]
  cases type <;> rfl

theorem fsCreateNode_created {t : KernelState} {n : NodePtr} {name : CString} {type : FsNodeType}
    (h : fsCreateNode alloc s name type = (t,some n)) :
    t.nodes[n]? = some (createdNode s name type) := by
  by_cases haddr : (allocate alloc s fsNodeSize).2 = 0#32
  · rw [fsCreateNode_null alloc s haddr] at h
    cases h
  · rw [fsCreateNode_some alloc s haddr] at h
    cases h
    exact List.getElem?_concat_length

end Create

def IsDirectory (s : KernelState) (p : NodePtr) : Prop :=
  ∃ d, s.nodes[p]? = some d ∧ d.type = .directory

section Update

variable {s : KernelState} {p : NodePtr} {n n' : FsNode}

theorem lt_of_node (h : s.nodes[p]? = some n) : p < s.nodes.length :=
  (List.getElem?_eq_some_iff.mp h).1

theorem setNode_self (h : s.nodes[p]? = some n) : (s.setNode p n').nodes[p]? = some n' := by
  rw [setNode_nodes]
  exact List.getElem?_set_self (lt_of_node h)

theorem setNode_other {q : NodePtr} (h : q ≠ p) : (s.setNode p n').nodes[q]? = s.nodes[q]? := by
  rw [setNode_nodes]
  exact List.getElem?_set_ne (Ne.symm h)

theorem setNode_cases {q : NodePtr} {m : FsNode} (h : (s.setNode p n').nodes[q]? = some m) :
    (q = p ∧ m = n') ∨ (q ≠ p ∧ s.nodes[q]? = some m) := by
  by_cases hq : q = p
  · subst hq
    have hlt := List.length_set ▸ lt_of_node h
    rw [setNode_nodes,List.getElem?_set_self hlt] at h
    exact .inl ⟨rfl,(Option.some.inj h).symm⟩
  · rw [setNode_other hq] at h
    exact .inr ⟨hq,h⟩

theorem isDirectory_setNode (h : s.nodes[p]? = some n) (htype : n'.type = n.type) {q : NodePtr}
    (hq : IsDirectory s q) : IsDirectory (s.setNode p n') q := by
  obtain ⟨d,hd,hdir⟩ := hq
  by_cases hqp : q = p
  · subst hqp
    rw [h] at hd
    cases hd
    exact ⟨n',setNode_self h,htype.trans hdir⟩
  · exact ⟨d,(setNode_other hqp).trans hd,hdir⟩

end Update

section Add

-- whatever the tree: the parent of the child, and one link that leads to it
inductive AddCase (s : KernelState) (parent child : Option NodePtr) : KernelState → Prop
  | ignored : AddCase s parent child s
  | refused (text : CString) : AddCase s parent child (s.print text)
  | linked {p c q : NodePtr} {d node n : FsNode} {next children : Option NodePtr} :
      parent = some p → child = some c → s.nodes[p]? = some d → d.type = .directory →
      s.nodes[c]? = some node →
      (s.setNode c { node with parent := some p }).nodes[q]? = some n →
      AddCase s parent child ((s.setNode c { node with parent := some p }).setNode q
        { n with next := next, children := children })

theorem fsAddNode_cases {s t : KernelState} {parent child : Option NodePtr}
    (h : fsAddNode s parent child = some t) : AddCase s parent child t := by
  cases parent with
  | none =>
    cases h
    exact .ignored
  | some p =>
    cases child with
    | none =>
      cases h
      exact .ignored
    | some c =>
      obtain ⟨d,hd,h⟩ := Option.bind_eq_some_iff.mp h
      split at h
      · cases h
        exact .refused _
      · next htype =>
        obtain ⟨node,hnode,h⟩ := Option.bind_eq_some_iff.mp h
        obtain ⟨dir,hdir,h⟩ := Option.bind_eq_some_iff.mp h
        split at h
        · cases h
          exact .linked rfl rfl hd (not_not.mp htype) hnode hdir
        · obtain ⟨current,-,h⟩ := Option.bind_eq_some_iff.mp h
          obtain ⟨last,hlast,h⟩ := Option.bind_eq_some_iff.mp h
          cases h
          exact .linked rfl rfl hd (not_not.mp htype) hnode hlast

end Add

end KluxOS.Fs
