import KluxOS.Fs.Path
import KluxOS.Fs.Tree
import KluxOS.Lib.PathWalk

namespace KluxOS.Fs

open KernelState LinkedList PathWalk

def follow (s : KernelState) (q : NodePtr) : Option NodePtr :=
  (s.nodes[q]?).bind fun n => if n.type = .symlink then n.symlink_target else some q

def graph (s : KernelState) : PathGraph NodePtr CString where
  up p := ((s.nodes[p]?).bind FsNode.parent).getD p
  child p c := (s.nodes[p]?).bind fun d =>
    if d.type = .directory then (lookup s d c).bind (follow s) else none

def toStep (c : CString) : Step CString :=
  if c = [] ∨ c = ['.'] then .stay else if c = ['.','.'] then .up else .down c

def steps (path : CString) : List (Step CString) := (components path).map toStep

def resolve (s : KernelState) (path : CString) : Option NodePtr :=
  s.fs_root.bind fun root => (graph s).walk root (steps path)

theorem steps_slash (d f : CString) : steps (d ++ '/' :: f) = steps d ++ steps f := by
  rw [steps,components_slash,List.map_append]
  rfl

theorem steps_nil : steps [] = [] := rfl

theorem steps_name {f : CString} (hslash : '/' ∉ f) (hne : f ≠ []) (hdot : f ≠ ['.'])
    (hdots : f ≠ ['.','.']) : steps f = .down (f.take 127) :: steps (f.drop 127) := by
  by_cases hlen : f.length ≤ 127
  · rw [steps,components_plain hslash hlen,flush,if_neg hne,List.map_singleton,toStep,
      if_neg (not_or.mpr ⟨hne,hdot⟩),if_neg hdots,List.take_of_length_le hlen,
      List.drop_of_length_le hlen,steps_nil]
  · have htake : (f.take 127).length = 127 := List.length_take_of_le (by omega)
    have hstep : toStep (f.take 127) = .down (f.take 127) := by
      unfold toStep
      rw [if_neg,if_neg]
      · intro h
        rw [h] at htake
        cases htake
      · rintro (h | h)
        · rw [h] at htake
          cases htake
        · rw [h] at htake
          cases htake
    rw [steps,components_long hslash (by omega),List.map_cons,hstep]
    rfl

-- the part of a path before its last slash
def dirName (path : CString) : CString :=
  match strrchr '/' path with
  | some last_slash => path.take last_slash
  | none => []

section Lookup

variable {s : KernelState} {p q : NodePtr} {d n : FsNode} {c : CString}

theorem lookup_node (h : lookup s d c = some q) : ∃ n, s.nodes[q]? = some n ∧ n.name = c := by
  have hname := List.find?_some h
  simp only [decide_eq_true_eq] at hname
  exact Option.map_eq_some_iff.mp hname

theorem lookup_eq {l : List NodePtr} (hl : Siblings s d.children l) :
    lookup s d c = l.find? fun q => decide ((s.nodes[q]?).map FsNode.name = some c) := by
  rw [lookup,hl.listing_eq hl.length_le]

theorem follow_lt (htree : Tree s) (hq : q < s.nodes.length) {r : NodePtr}
    (h : follow s q = some r) : r < s.nodes.length := by
  obtain ⟨n,hn,h⟩ := Option.bind_eq_some_iff.mp h
  split at h
  · exact htree.target q n r hn h
  · cases h
    exact hq

theorem graph_up_lt (htree : Tree s) (hp : p < s.nodes.length) : (graph s).up p < s.nodes.length := by
  simp only [graph]
  cases hup : (s.nodes[p]?).bind FsNode.parent with
  | none => exact hp
  | some q =>
    obtain ⟨n,hn,hq⟩ := Option.bind_eq_some_iff.mp hup
    exact htree.parent p n q hn hq

theorem graph_child_lt (htree : Tree s) (h : (graph s).child p c = some q) :
    q < s.nodes.length := by
  obtain ⟨d,hd,h⟩ := Option.bind_eq_some_iff.mp h
  split at h
  · obtain ⟨r,hr,hfollow⟩ := Option.bind_eq_some_iff.mp h
    obtain ⟨n,hn,-⟩ := lookup_node hr
    exact follow_lt htree (lt_of_node hn) hfollow
  · cases h

theorem graph_step_lt (htree : Tree s) (hp : p < s.nodes.length) {a : Step CString}
    (h : (graph s).step p a = some q) : q < s.nodes.length := by
  cases a with
  | stay =>
    cases h
    exact hp
  | up =>
    cases h
    exact graph_up_lt htree hp
  | down c => exact graph_child_lt htree h

theorem graph_walk_lt (htree : Tree s) (hp : p < s.nodes.length) {as : List (Step CString)}
    (h : (graph s).walk p as = some q) : q < s.nodes.length := by
  induction as generalizing p with
  | nil =>
    cases h
    exact hp
  | cons a as ih =>
    obtain ⟨r,hr,h⟩ := Option.bind_eq_some_iff.mp h
    exact ih (graph_step_lt htree hp hr) h

theorem resolve_lt (htree : Tree s) {path : CString} (h : resolve s path = some q) :
    q < s.nodes.length := by
  obtain ⟨root,hroot,h⟩ := Option.bind_eq_some_iff.mp h
  exact graph_walk_lt htree (htree.root root hroot) h

end Lookup

section Walk

variable {hooks : Hooks} {s : KernelState} (htree : Tree s) (hexact : ExactFinddir hooks)

include htree hexact

theorem fsFinddir_lookup {p : NodePtr} {d : FsNode} (hd : s.nodes[p]? = some d) (c : CString) :
    fsFinddir hooks s (some p) c =
      some (if d.type = .directory then lookup s d c else none) := by
  by_cases hdir : d.type = .directory
  · obtain ⟨hook,hhook⟩ := htree.finddir p d hd hdir
    simp only [fsFinddir,dispatch,hd,hdir,hhook,if_true,Option.bind_eq_bind,Option.bind_some]
    exact hexact hook s p d c hd hdir
  · simp only [fsFinddir,dispatch,hd,if_neg hdir,Option.bind_eq_bind,Option.bind_some]

theorem walk_graph {current : NodePtr} (hcurrent : current < s.nodes.length) (c : CString) :
    walk hooks s current c = some ((graph s).step current (toStep c)) := by
  obtain ⟨d,hd⟩ : ∃ d, s.nodes[current]? = some d := ⟨_,List.getElem?_eq_getElem hcurrent⟩
  unfold walk toStep
  by_cases hnil : c = []
  · simp [hnil,PathGraph.step]
  · by_cases hdot : c = ['.']
    · simp [hdot,PathGraph.step]
    · by_cases hdots : c = ['.','.']
      · simp [hdots,PathGraph.step,graph,hd]
      · simp only [hnil,hdot,hdots,or_self,if_false,PathGraph.step,graph,hd,Option.bind_eq_bind,
          Option.bind_some,fsFinddir_lookup htree hexact hd]
        by_cases hdir : d.type = .directory
        · simp only [if_pos hdir]
          cases hlookup : lookup s d c with
          | none => rfl
          | some next =>
            obtain ⟨n,hn,-⟩ := lookup_node hlookup
            simp only [hn,follow,fsReadlink,Option.bind_eq_bind,Option.bind_some]
            by_cases hlink : n.type = .symlink
            · simp only [hlink,ne_eq,not_true_eq_false,if_true,if_false]
            · simp only [if_neg hlink]
        · simp only [if_neg hdir]

theorem walks_graph {current : NodePtr} (hcurrent : current < s.nodes.length)
    (cs : List CString) :
    walks hooks s current cs = some ((graph s).walk current (cs.map toStep)) := by
  induction cs generalizing current with
  | nil => rfl
  | cons c cs ih =>
    rw [walks,walk_graph htree hexact hcurrent,List.map_cons,PathGraph.walk]
    cases hnext : (graph s).step current (toStep c) with
    | none => rfl
    | some next => exact ih (graph_step_lt htree hcurrent hnext)

theorem fsResolvePath_graph (path : CString) :
    fsResolvePath hooks s (some path) = some (resolve s path) := by
  cases hroot : s.fs_root with
  | none => simp only [fsResolvePath,resolve,hroot,Option.bind_none]
  | some root =>
    rw [fsResolvePath_eq hooks s hroot,walks_graph htree hexact (htree.root root hroot)]
    simp only [resolve,steps,hroot,Option.bind_some]

theorem fsGetParentDir_graph (path : CString) :
    fsGetParentDir hooks s (some path) = some (resolve s ((dirName path).take 255)) := by
  cases hroot : s.fs_root with
  | none => simp only [fsGetParentDir,resolve,hroot,Option.bind_none]
  | some root =>
    have hempty : resolve s [] = some root := by
      simp only [resolve,hroot,steps_nil,Option.bind_some,PathGraph.walk]
    cases hslash : strrchr '/' path with
    | none => simp only [fsGetParentDir,dirName,hroot,hslash,List.take_nil,hempty]
    | some last_slash =>
      simp only [fsGetParentDir,dirName,hroot,hslash]
      by_cases hzero : last_slash = 0
      · simp only [hzero,if_true,List.take_zero,List.take_nil,hempty]
      · rw [if_neg hzero,fsResolvePath_graph htree hexact,List.take_take]
        congr 3
        split <;> omega

end Walk

section Same

-- what path resolution reads of a node
def links (n : FsNode) : FsNode where
  name := n.name
  type := n.type
  finddir := n.finddir
  parent := n.parent
  next := n.next
  children := n.children
  symlink_target := n.symlink_target

structure SameTree (s t : KernelState) : Prop where
  nodes : t.nodes.map links = s.nodes.map links
  fs_root : t.fs_root = s.fs_root

theorem SameTree.refl (s : KernelState) : SameTree s s := ⟨rfl,rfl⟩

theorem SameTree.trans {s t u : KernelState} (h : SameTree s t) (h' : SameTree t u) :
    SameTree s u := ⟨h'.nodes.trans h.nodes,h'.fs_root.trans h.fs_root⟩

theorem SameTree.symm {s t : KernelState} (h : SameTree s t) : SameTree t s :=
  ⟨h.nodes.symm,h.fs_root.symm⟩

theorem sameTree_set {s t : KernelState} {p : NodePtr} {n n' : FsNode} (h : s.nodes[p]? = some n)
    (hlinks : links n' = links n) (hnodes : t.nodes = s.nodes.set p n')
    (hroot : t.fs_root = s.fs_root) : SameTree s t := by
  refine ⟨?_,hroot⟩
  obtain ⟨hlt,hn⟩ := List.getElem?_eq_some_iff.mp h
  rw [hnodes,List.map_set,hlinks,← hn]
  exact List.ext_getElem? fun q => by
    by_cases hq : q = p
    · subst hq
      simp [hlt]
    · rw [List.getElem?_set_ne (Ne.symm hq)]

variable {s t : KernelState} (h : SameTree s t)

include h

theorem SameTree.get (p : NodePtr) : (t.nodes[p]?).map links =
    (s.nodes[p]?).map links := by
  rw [← List.getElem?_map,h.nodes,List.getElem?_map]

theorem SameTree.length : t.nodes.length = s.nodes.length := by
  simpa using congrArg List.length h.nodes

theorem SameTree.node {p : NodePtr} {n : FsNode} (hn : t.nodes[p]? = some n) :
    ∃ m, s.nodes[p]? = some m ∧ links m = links n := by
  have hget := h.get p
  rw [hn] at hget
  exact Option.map_eq_some_iff.mp hget.symm

theorem SameTree.field {α : Type} (field : FsNode → α) (hfield : ∀ n, field (links n) = field n)
    (p : NodePtr) : (t.nodes[p]?).map field = (s.nodes[p]?).map field := by
  have hcomp : field ∘ links = field := funext hfield
  rw [← hcomp,← Option.map_map,← Option.map_map,h.get]

theorem SameTree.bind {α : Type} (field : FsNode → Option α)
    (hfield : ∀ n, field (links n) = field n) (p : NodePtr) :
    (t.nodes[p]?).bind field = (s.nodes[p]?).bind field := by
  have hcomp : field ∘ links = field := funext hfield
  rw [← hcomp,← Option.bind_map,← Option.bind_map,h.get]

theorem SameTree.lookup_eq {d e : FsNode} (hde : e.children = d.children) (c : CString) :
    lookup t e c = lookup s d c := by
  have hnext := h.field FsNode.next fun _ => rfl
  have hname := h.field FsNode.name fun _ => rfl
  simp only [lookup,h.length,hde,listing_congr hnext,hname]

theorem SameTree.follow_eq (q : NodePtr) : follow t q = follow s q := by
  have hbind := h.bind (fun n => if n.type = .symlink then n.symlink_target else some q) fun _ => rfl
  exact hbind q

theorem SameTree.graph_eq : graph t = graph s := by
  have hfollow : follow t = follow s := funext h.follow_eq
  have hup : (graph t).up = (graph s).up := by
    funext p
    exact congrArg (Option.getD · p) (h.bind FsNode.parent (fun _ => rfl) p)
  have hchild : (graph t).child = (graph s).child := by
    funext p c
    simp only [graph]
    cases ht : t.nodes[p]? with
    | none =>
      have hget := h.get p
      rw [ht] at hget
      simp only [Option.map_eq_none_iff.mp hget.symm,Option.bind_none]
    | some e =>
      obtain ⟨d,hd,hlinks⟩ := h.node ht
      have htype : d.type = e.type := (congrArg FsNode.type hlinks :)
      have hchildren : e.children = d.children := (congrArg FsNode.children hlinks :).symm
      simp only [hd,Option.bind_some,htype,h.lookup_eq hchildren,hfollow]
  exact congrArg₂ PathGraph.mk hup hchild

theorem SameTree.resolve_eq (path : CString) : resolve t path = resolve s path := by
  rw [resolve,resolve,h.graph_eq,h.fs_root]

theorem SameTree.tree (htree : Tree s) : Tree t := by
  have hnext := h.symm.field FsNode.next fun _ => rfl
  refine ⟨?_,?_,?_,?_,?_⟩
  · intro p d hd hdir
    obtain ⟨e,he,hlinks⟩ := h.node hd
    obtain ⟨l,hl⟩ := htree.chains p e he ((congrArg FsNode.type hlinks :).trans hdir)
    refine ⟨l,?_⟩
    rw [← show e.children = d.children from (congrArg FsNode.children hlinks :)]
    refine hl.frame fun q n hn => ?_
    have hq := hnext q
    rw [hn] at hq
    exact Option.map_eq_some_iff.mp hq.symm
  · intro p d hd hdir
    obtain ⟨e,he,hlinks⟩ := h.node hd
    obtain ⟨hook,hhook⟩ := htree.finddir p e he ((congrArg FsNode.type hlinks :).trans hdir)
    exact ⟨hook,(congrArg FsNode.finddir hlinks :).symm.trans hhook⟩
  · intro p n q hn hq
    obtain ⟨m,hm,hlinks⟩ := h.node hn
    rw [h.length]
    exact htree.parent p m q hm ((congrArg FsNode.parent hlinks :).trans hq)
  · intro p n q hn hq
    obtain ⟨m,hm,hlinks⟩ := h.node hn
    rw [h.length]
    exact htree.target p m q hm ((congrArg FsNode.symlink_target hlinks :).trans hq)
  · intro r hr
    rw [h.length]
    exact htree.root r (h.fs_root.symm.trans hr)

end Same

end KluxOS.Fs
