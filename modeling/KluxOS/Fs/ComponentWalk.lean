import KluxOS.Fs.Graph

namespace KluxOS.Fs

open KernelState LinkedList PathWalk

def NoSymlinks (s : KernelState) : Prop :=
  ∀ n ∈ s.nodes, n.type ≠ .symlink

-- what a char name[128] can hold
def NamesFit (s : KernelState) : Prop :=
  ∀ n ∈ s.nodes, n.name.length ≤ 127

-- the components before the first one of more than 127 bytes, and the rest
def shortPart (cs : List CString) : List CString := cs.takeWhile (·.length ≤ 127)

def longPart (cs : List CString) : List CString := cs.dropWhile (·.length ≤ 127)

section Walk

variable (s : KernelState)

def nameStep (current : NodePtr) (c : CString) : Option NodePtr :=
  if c = [] ∨ c = ['.'] then some current
  else if c = ['.','.'] then some (((s.nodes[current]?).bind FsNode.parent).getD current)
  else (s.nodes[current]?).bind fun d => if d.type = .directory then lookup s d c else none

def componentWalk (path : CString) : Option NodePtr :=
  s.fs_root.bind fun root => (path.splitOn '/').foldlM (nameStep s) root

-- the walk stops before the first component of more than 127 bytes, or that component's pieces
-- and the rest lead nowhere
def PiecesMiss (cs : List CString) : Prop :=
  ∀ root p, s.fs_root = some root →
    (shortPart cs).foldlM (nameStep s) root = some p → longPart cs ≠ [] →
    ((longPart cs).flatMap components).foldlM (nameStep s) p = none

end Walk

section Components

variable {s : KernelState}

theorem splitOn_components (path : CString) :
    components path = (path.splitOn '/').flatMap components ∧ ∀ c ∈ path.splitOn '/', '/' ∉ c := by
  induction hlen : path.length using Nat.strong_induction_on generalizing path with
  | _ n ih =>
    by_cases hslash : '/' ∈ path
    · obtain ⟨d,f,rfl,hd⟩ := List.eq_append_cons_of_mem hslash
      obtain ⟨hf,hplain⟩ := ih f.length (by simp at hlen; omega) f rfl
      rw [List.splitOn_append_cons_self_of_not_mem hd,components_slash,List.flatMap_cons,hf]
      exact ⟨rfl,List.forall_mem_cons.mpr ⟨hd,hplain⟩⟩
    · rw [List.splitOn_eq_singleton hslash,List.flatMap_singleton]
      exact ⟨rfl,fun c hc => List.mem_singleton.mp hc ▸ hslash⟩

theorem graph_step (hlinks : NoSymlinks s) (p : NodePtr) (c : CString) :
    (graph s).step p (toStep c) = nameStep s p c := by
  rw [toStep,nameStep]
  split
  · rfl
  · split
    · rfl
    · refine Option.bind_congr fun d _ => ?_
      split
      · cases hlookup : lookup s d c with
        | none => rfl
        | some q =>
          obtain ⟨n,hn,-⟩ := lookup_node hlookup
          simp only [Option.bind_some,follow,hn,if_neg (hlinks n (List.mem_of_getElem? hn))]
      · rfl

theorem graph_walk (hlinks : NoSymlinks s) (p : NodePtr) (cs : List CString) :
    (graph s).walk p (cs.map toStep) = cs.foldlM (nameStep s) p := by
  rw [PathGraph.walk_map]
  simp only [graph_step hlinks]

theorem nameStep_long (hnames : NamesFit s) {c : CString} (hlen : 127 < c.length) (p : NodePtr) :
    nameStep s p c = none := by
  have hne : ∀ d : CString, d.length ≤ 2 → c ≠ d := by
    rintro d hd rfl
    omega
  rw [nameStep,if_neg (not_or.mpr ⟨hne _ (by decide),hne _ (by decide)⟩),if_neg (hne _ (by decide))]
  rw [Option.bind_eq_none_iff]
  intro d _
  split
  · cases hlookup : lookup s d c with
    | none => rfl
    | some q =>
      obtain ⟨n,hn,rfl⟩ := lookup_node hlookup
      exact absurd (hnames n (List.mem_of_getElem? hn)) (by omega)
  · rfl

-- a component that fits the buffer is scanned as it is, and an empty one is skipped
theorem foldlM_short {f : NodePtr → CString → Option NodePtr} (hnil : ∀ p, f p [] = some p)
    {cs : List CString} (hslash : ∀ c ∈ cs, '/' ∉ c) (hlen : ∀ c ∈ cs, c.length ≤ 127)
    (p : NodePtr) : (cs.flatMap components).foldlM f p = cs.foldlM f p := by
  induction cs generalizing p with
  | nil => rfl
  | cons c cs ih =>
    have hfirst : (components c).foldlM f p = f p c := by
      rw [components_plain (hslash c List.mem_cons_self) (hlen c List.mem_cons_self),flush]
      split
      · next hempty => exact hempty ▸ (hnil p).symm
      · exact bind_pure _
    rw [List.flatMap_cons,List.foldlM_append,List.foldlM_cons,hfirst]
    exact Option.bind_congr fun q _ => ih (fun d hd => hslash d (List.mem_cons_of_mem c hd))
      (fun d hd => hlen d (List.mem_cons_of_mem c hd)) q

theorem shortPart_append (cs : List CString) : shortPart cs ++ longPart cs = cs :=
  List.takeWhile_append_dropWhile

theorem shortPart_length {cs : List CString} {c : CString} (hc : c ∈ shortPart cs) :
    c ∈ cs ∧ c.length ≤ 127 :=
  ⟨List.takeWhile_subset _ hc,by simpa using List.mem_takeWhile_imp hc⟩

theorem longPart_length {cs rest : List CString} {c : CString} (h : longPart cs = c :: rest) :
    127 < c.length := by
  have hhead := List.head?_dropWhile_not (fun c : CString => decide (c.length ≤ 127)) cs
  rw [longPart] at h
  simpa [h] using hhead

theorem resolve_pieces (hlinks : NoSymlinks s) (path : CString) : resolve s path =
    s.fs_root.bind fun root => ((path.splitOn '/').flatMap components).foldlM (nameStep s) root := by
  rw [← (splitOn_components path).1]
  exact Option.bind_congr fun root _ => graph_walk hlinks root (components path)

theorem pieces_eq_iff (hnames : NamesFit s) {cs : List CString} (hslash : ∀ c ∈ cs, '/' ∉ c)
    (p : NodePtr) : (cs.flatMap components).foldlM (nameStep s) p = cs.foldlM (nameStep s) p ↔
      ∀ q, (shortPart cs).foldlM (nameStep s) p = some q → longPart cs ≠ [] →
        ((longPart cs).flatMap components).foldlM (nameStep s) q = none := by
  have hfit : ∀ c ∈ shortPart cs, '/' ∉ c ∧ c.length ≤ 127 := fun c hc =>
    ⟨hslash c (shortPart_length hc).1,(shortPart_length hc).2⟩
  have hshort := foldlM_short (f := nameStep s) (fun _ => rfl) (fun c hc => (hfit c hc).1)
    (fun c hc => (hfit c hc).2) p
  conv_lhs => rw [← shortPart_append cs,List.flatMap_append,List.foldlM_append,List.foldlM_append,
    hshort]
  cases (shortPart cs).foldlM (nameStep s) p with
  | none => exact iff_of_true rfl fun q h => by cases h
  | some q =>
    cases hlong : longPart cs with
    | nil => exact iff_of_true rfl fun q _ h => absurd rfl h
    | cons c rest =>
      have hnone : (c :: rest).foldlM (nameStep s) q = none := by
        rw [List.foldlM_cons,nameStep_long hnames (longPart_length hlong)]
        rfl
      have hbind : ∀ ds : List CString, (some q >>= fun q => ds.foldlM (nameStep s) q) =
          ds.foldlM (nameStep s) q := fun _ => rfl
      rw [hbind,hbind,hnone]
      constructor
      · rintro h _ ⟨⟩ _
        exact h
      · intro h
        exact h q rfl (List.cons_ne_nil c rest)

theorem resolve_eq_iff (hlinks : NoSymlinks s) (hnames : NamesFit s) (path : CString) :
    resolve s path = componentWalk s path ↔ PiecesMiss s (path.splitOn '/') := by
  rw [resolve_pieces hlinks,componentWalk,PiecesMiss]
  cases s.fs_root with
  | none => exact iff_of_true rfl fun root p h => by cases h
  | some root =>
    rw [Option.bind_some,Option.bind_some,pieces_eq_iff hnames (splitOn_components path).2]
    constructor
    · rintro h _ p ⟨⟩ hp
      exact h p hp
    · intro h p hp
      exact h root p rfl hp

end Components

section Resolve

variable {hooks : Hooks} {s : KernelState}

theorem resolve_is_component_walk (htree : Tree s) (hexact : ExactFinddir hooks)
    (hlinks : NoSymlinks s) (hnames : NamesFit s) (path : CString) :
    (∃ r, fsResolvePath hooks s (some path) = some r) ∧
      (fsResolvePath hooks s (some path) = some (componentWalk s path) ↔
        PiecesMiss s (path.splitOn '/')) := by
  rw [fsResolvePath_graph htree hexact]
  refine ⟨⟨_,rfl⟩,?_⟩
  rw [Option.some.injEq,resolve_eq_iff hlinks hnames]

theorem resolve_is_component_walk_short : fsResolvePath treeHooks rootWithFile
    (some ['/','/','a','/','.']) = some (componentWalk rootWithFile ['/','/','a','/','.']) := by
  have hlinks : NoSymlinks rootWithFile := by
    unfold NoSymlinks
    decide
  have hnames : NamesFit rootWithFile := by
    unfold NamesFit
    decide
  refine (resolve_is_component_walk rootWithFile_tree treeHooks_exact hlinks hnames _).2.mpr ?_
  intro root p _ _ hlong
  exact absurd rfl hlong

-- a directory whose name fills its 127 bytes, with a file "a"
def rootWithLongName : KernelState :=
  { KernelState.boot with
    nodes := [{ createdNode KernelState.boot ['/'] .directory with children := some 1 },
      { createdNode KernelState.boot (List.replicate 127 'a') .directory with
        parent := some 0, children := some 2 },
      { createdNode KernelState.boot ['a'] .file with parent := some 1 }]
    fs_root := some 0 }

-- the name of 128 bytes is looked up as the directory and then the file
theorem long_component_found : NoSymlinks rootWithLongName ∧ NamesFit rootWithLongName ∧
    Tree rootWithLongName ∧
    fsResolvePath treeHooks rootWithLongName (some (List.replicate 128 'a')) = some (some 2) ∧
    componentWalk rootWithLongName (List.replicate 128 'a') = none := by
  have htree : Tree rootWithLongName := tree_of_checks (by decide)
  refine ⟨?_,?_,htree,?_,?_⟩
  · unfold NoSymlinks
    decide
  · unfold NamesFit
    decide +kernel
  · rw [fsResolvePath_graph htree treeHooks_exact]
    decide
  · decide

end Resolve

end KluxOS.Fs
