import KluxOS.Fs.Nodes
import KluxOS.Fs.Path

namespace KluxOS.Fs

open KernelState

section Dispatch

def noDrivers : Hooks where
  read := fun _ _ _ _ _ => none
  write := fun _ _ _ _ _ _ => none
  open_ := fun _ _ _ => none
  close := fun _ _ _ => none
  readdir := fun _ _ _ _ => none
  finddir := fun _ _ _ _ => none
  truncate := fun _ _ _ => none

variable (drivers : Hooks)

-- calls nested to a given depth: a hook that names a function of fs.c runs that function
def kernelHooks : ℕ → Hooks
  | 0 => noDrivers
  | depth + 1 =>
    let inner := kernelHooks depth
    { read := fun hook s p offset size =>
        if hook = .fsRead then fsRead inner s (some p) offset size
        else drivers.read hook s p offset size
      write := fun hook s p offset size buffer =>
        if hook = .fsWrite then fsWrite inner s (some p) offset size buffer
        else drivers.write hook s p offset size buffer
      open_ := fun hook s p =>
        if hook = .fsOpen then fsOpen inner s (some p)
        else if hook = .fsClose then fsClose inner s (some p) else drivers.open_ hook s p
      close := fun hook s p =>
        if hook = .fsClose then fsClose inner s (some p)
        else if hook = .fsOpen then fsOpen inner s (some p) else drivers.close hook s p
      readdir := fun hook s p index =>
        if hook = .fsReaddir then fsReaddir inner s (some p) index
        else drivers.readdir hook s p index
      finddir := fun hook s p name =>
        if hook = .fsFinddir then fsFinddir inner s (some p) name
        else drivers.finddir hook s p name
      truncate := drivers.truncate }

def Returns {α : Type} (call : Hooks → Option α) : Prop :=
  ∃ depth, (call (kernelHooks drivers depth)).isSome

section Generic

variable {α : Type} {s : KernelState} {p : NodePtr} {n : FsNode} {slot : FsNode → Option Hook}
  {f : ℕ → Hook → NodePtr → Option α} {idle : α}

-- the hook of the slot is the dispatcher itself, so each call makes the same call again
theorem dispatch_never (hn : s.nodes[p]? = some n) {hook : Hook} (hslot : slot n = some hook)
    (hzero : f 0 hook p = none)
    (hnext : ∀ depth, f (depth + 1) hook p = dispatch s (some p) slot (f depth) idle) :
    ∀ depth, dispatch s (some p) slot (f depth) idle = none := by
  have hcall : ∀ depth, dispatch s (some p) slot (f depth) idle = f depth hook p := by
    intro depth
    simp [dispatch,hn,hslot]
  intro depth
  induction depth with
  | zero => rw [hcall,hzero]
  | succ depth ih => rw [hcall,hnext,ih]

theorem dispatch_idle (hn : s.nodes[p]? = some n) (hslot : slot n = none)
    (run : Hook → NodePtr → Option α) : dispatch s (some p) slot run idle = some idle := by
  simp [dispatch,hn,hslot]

end Generic

theorem not_returns {α : Type} {f : Hooks → Option α}
    (h : ∀ depth, f (kernelHooks drivers depth) = none) : ¬ Returns drivers f := by
  rintro ⟨depth,hdepth⟩
  rw [h] at hdepth
  cases hdepth

theorem returns_of {α : Type} {f : Hooks → Option α} {r : α}
    (h : f (kernelHooks drivers 0) = some r) : Returns drivers f := ⟨0,by rw [h]; rfl⟩

-- the hooks fs_create_node leaves in a node of this type
structure Installed (n : FsNode) : Prop where
  read : n.read = if n.type = .file then some .fsRead else none
  write : n.write = if n.type = .file then some .fsWrite else none
  open_ : n.open_ = some .fsOpen
  close : n.close = some .fsClose
  readdir : n.readdir = if n.type = .directory then some .fsReaddir else none
  finddir : n.finddir = if n.type = .directory then some .fsFinddir else none

theorem createdNode_installed (s : KernelState) (name : CString) (type : FsNodeType) :
    Installed (createdNode s name type) := ⟨rfl,rfl,rfl,rfl,rfl,rfl⟩

section Installed

variable {s : KernelState} {p : NodePtr} {n : FsNode} (hn : s.nodes[p]? = some n)
  (hi : Installed n)

include hn hi

theorem fsOpen_returns : ¬ Returns drivers fun hooks => fsOpen hooks s (some p) :=
  not_returns drivers (dispatch_never
    (f := fun depth hook p => (kernelHooks drivers depth).open_ hook s p) hn hi.open_ rfl
    fun _ => rfl)

theorem fsClose_returns : ¬ Returns drivers fun hooks => fsClose hooks s (some p) :=
  not_returns drivers (dispatch_never
    (f := fun depth hook p => (kernelHooks drivers depth).close hook s p) hn hi.close rfl
    fun _ => rfl)

theorem fsRead_returns (offset size : Uint32) :
    (Returns drivers fun hooks => fsRead hooks s (some p) offset size) ↔ n.type ≠ .file := by
  have hread := hi.read
  by_cases htype : n.type = .file
  · rw [if_pos htype] at hread
    refine iff_of_false (not_returns drivers (dispatch_never
      (f := fun depth hook p => (kernelHooks drivers depth).read hook s p offset size) hn hread rfl
      fun _ => rfl)) (not_not.mpr htype)
  · rw [if_neg htype] at hread
    exact iff_of_true (returns_of drivers (dispatch_idle hn hread _)) htype

theorem fsWrite_returns (offset size : Uint32) (buffer : ℕ → Uint8) :
    (Returns drivers fun hooks => fsWrite hooks s (some p) offset size buffer) ↔
      n.type ≠ .file := by
  have hwrite := hi.write
  by_cases htype : n.type = .file
  · rw [if_pos htype] at hwrite
    refine iff_of_false (not_returns drivers (dispatch_never
      (f := fun depth hook p => (kernelHooks drivers depth).write hook s p offset size buffer) hn
      hwrite rfl fun _ => rfl)) (not_not.mpr htype)
  · rw [if_neg htype] at hwrite
    exact iff_of_true (returns_of drivers (dispatch_idle hn hwrite _)) htype

theorem fsReaddir_returns (index : Uint32) :
    (Returns drivers fun hooks => fsReaddir hooks s (some p) index) ↔ n.type ≠ .directory := by
  by_cases htype : n.type = .directory
  · have hreaddir := hi.readdir
    rw [if_pos htype] at hreaddir
    refine iff_of_false (not_returns drivers (dispatch_never
      (f := fun depth hook p => (kernelHooks drivers depth).readdir hook s p index) hn
      ((if_pos htype).trans hreaddir) rfl fun _ => rfl)) (not_not.mpr htype)
  · exact iff_of_true (returns_of drivers (dispatch_idle hn (if_neg htype) _)) htype

theorem fsFinddir_never (htype : n.type = .directory) (name : CString) :
    ∀ depth, fsFinddir (kernelHooks drivers depth) s (some p) name = none := by
  have hfinddir := hi.finddir
  rw [if_pos htype] at hfinddir
  exact dispatch_never (f := fun depth hook p => (kernelHooks drivers depth).finddir hook s p name)
    hn ((if_pos htype).trans hfinddir) rfl fun _ => rfl

theorem fsFinddir_returns (name : CString) :
    (Returns drivers fun hooks => fsFinddir hooks s (some p) name) ↔ n.type ≠ .directory := by
  by_cases htype : n.type = .directory
  · exact iff_of_false (not_returns drivers (fsFinddir_never drivers hn hi htype name))
      (not_not.mpr htype)
  · exact iff_of_true (returns_of drivers (dispatch_idle hn (if_neg htype) _)) htype

end Installed

end Dispatch

section Built

variable (alloc : Allocator)

inductive Built : KernelState → Prop
  | init (s : KernelState) : s.nodes = [] → Built (fsInit alloc s)
  | create (s : KernelState) (name : CString) (type : FsNodeType) :
      Built s → Built (fsCreateNode alloc s name type).1
  | add (s t : KernelState) (parent child : Option NodePtr) :
      Built s → fsAddNode s parent child = some t → Built t
  | symlink (s : KernelState) (name : CString) (target : Option NodePtr) :
      Built s → Built (fsCreateSymlink alloc s name target).1

structure Wired (s : KernelState) : Prop where
  installed : ∀ (p : NodePtr) (n : FsNode), s.nodes[p]? = some n → Installed n
  parent : ∀ (p : NodePtr) (n : FsNode) (q : NodePtr), s.nodes[p]? = some n → n.parent = some q → IsDirectory s q
  root : ∀ r, s.fs_root = some r → IsDirectory s r

theorem Wired.of_eq {s t : KernelState} (h : Wired s) (hnodes : t.nodes = s.nodes)
    (hroot : t.fs_root = s.fs_root) : Wired t := by
  have hdir : ∀ q, IsDirectory s q → IsDirectory t q := by
    rintro q ⟨d,hd,hdir⟩
    exact ⟨d,hnodes ▸ hd,hdir⟩
  refine ⟨?_,?_,?_⟩
  · rw [hnodes]
    exact h.installed
  · intro p n q hn hq
    exact hdir q (h.parent p n q (hnodes ▸ hn) hq)
  · intro r hr
    exact hdir r (h.root r (hroot ▸ hr))

theorem Wired.setNode {s : KernelState} (h : Wired s) {p : NodePtr} {n n' : FsNode}
    (hn : s.nodes[p]? = some n) (hi : Installed n') (htype : n'.type = n.type)
    (hparent : ∀ q, n'.parent = some q → IsDirectory s q) : Wired (s.setNode p n') := by
  refine ⟨?_,?_,?_⟩
  · intro q m hm
    rcases setNode_cases hm with ⟨-,rfl⟩ | ⟨-,hold⟩
    · exact hi
    · exact h.installed q m hold
  · intro q m r hm hr
    rcases setNode_cases hm with ⟨-,rfl⟩ | ⟨-,hold⟩
    · exact isDirectory_setNode hn htype (hparent r hr)
    · exact isDirectory_setNode hn htype (h.parent q m r hold hr)
  · intro r hr
    exact isDirectory_setNode hn htype (h.root r hr)

theorem Wired.append {s : KernelState} (h : Wired s) {n : FsNode} (hi : Installed n)
    (hparent : n.parent = none) (blocks : List (Uint32 × Uint32)) :
    Wired { s with blocks := blocks, nodes := s.nodes ++ [n] } := by
  have hold : ∀ q, IsDirectory s q →
      IsDirectory { s with blocks := blocks, nodes := s.nodes ++ [n] } q := by
    rintro q ⟨d,hd,hdir⟩
    exact ⟨d,List.getElem?_append_left (lt_of_node hd) ▸ hd,hdir⟩
  have hcases : ∀ (q : NodePtr) (m : FsNode), (s.nodes ++ [n])[q]? = some m → m = n ∨ s.nodes[q]? = some m := by
    intro q m hm
    rw [List.getElem?_append] at hm
    split at hm
    · exact .inr hm
    · exact .inl (List.mem_singleton.mp (List.mem_of_getElem? hm))
  refine ⟨?_,?_,?_⟩
  · intro q m hm
    rcases hcases q m hm with rfl | hm
    · exact hi
    · exact h.installed q m hm
  · intro q m r hm hr
    rcases hcases q m hm with rfl | hm
    · rw [hparent] at hr
      cases hr
    · exact hold r (h.parent q m r hm hr)
  · intro r hr
    exact hold r (h.root r hr)

theorem wired_create {s : KernelState} (h : Wired s) (name : CString) (type : FsNodeType) :
    Wired (fsCreateNode alloc s name type).1 := by
  by_cases haddr : (allocate alloc s fsNodeSize).2 = 0#32
  · rw [fsCreateNode_null alloc s haddr,allocate_nodes]
    exact h.of_eq rfl rfl
  · rw [fsCreateNode_some alloc s haddr]
    exact h.append (createdNode_installed s name type) rfl _

theorem wired_add {s t : KernelState} (h : Wired s) {parent child : Option NodePtr}
    (ht : fsAddNode s parent child = some t) : Wired t := by
  cases fsAddNode_cases ht with
  | ignored => exact h
  | refused text => exact h.of_eq rfl rfl
  | @linked p c q d node n _ _ _ _ hd htype hnode hn =>
    have hi := h.installed c node hnode
    have hmid : Wired (s.setNode c { node with parent := some p }) := by
      refine h.setNode hnode ⟨hi.read,hi.write,hi.open_,hi.close,hi.readdir,hi.finddir⟩ rfl ?_
      intro r hr
      cases hr
      exact ⟨d,hd,htype⟩
    have hi' := hmid.installed q n hn
    exact hmid.setNode hn ⟨hi'.read,hi'.write,hi'.open_,hi'.close,hi'.readdir,hi'.finddir⟩ rfl
      fun r hr => hmid.parent q n r hn hr

theorem wired_symlink {s : KernelState} (h : Wired s) (name : CString)
    (target : Option NodePtr) : Wired (fsCreateSymlink alloc s name target).1 := by
  cases target with
  | none => exact h
  | some q =>
    have hcreate := wired_create alloc h name .symlink
    rw [fsCreateSymlink]
    cases hlink : fsCreateNode alloc s name .symlink with
    | mk t link =>
      rw [hlink] at hcreate
      cases link with
      | none => exact hcreate
      | some link =>
        have hnode := fsCreateNode_created alloc s hlink
        have hi := hcreate.installed link _ hnode
        simp only [hnode]
        exact hcreate.setNode hnode
          ⟨hi.read,hi.write,hi.open_,hi.close,hi.readdir,hi.finddir⟩ rfl
          fun q hq => hcreate.parent link _ q hnode hq

theorem wired_empty {s : KernelState} (hnodes : s.nodes = []) (hroot : s.fs_root = none) :
    Wired s := by
  have hempty : ∀ (p : NodePtr) (n : FsNode), s.nodes[p]? ≠ some n := by
    rw [hnodes]
    simp
  refine ⟨?_,?_,?_⟩
  · intro p n hn
    exact absurd hn (hempty p n)
  · intro p n q hn
    exact absurd hn (hempty p n)
  · intro r hr
    rw [hroot] at hr
    cases hr

theorem wired_singleton {s : KernelState} {n : FsNode} (hnodes : s.nodes = [n])
    (hroot : s.fs_root = some 0) (hi : Installed n) (htype : n.type = .directory)
    (hparent : n.parent = none) : Wired s := by
  have honly : ∀ (p : NodePtr) (m : FsNode), s.nodes[p]? = some m → m = n := by
    intro p m hm
    rw [hnodes] at hm
    exact List.mem_singleton.mp (List.mem_of_getElem? hm)
  refine ⟨?_,?_,?_⟩
  · intro p m hm
    rw [honly p m hm]
    exact hi
  · intro p m q hm hq
    rw [honly p m hm,hparent] at hq
    cases hq
  · intro r hr
    rw [hroot] at hr
    cases hr
    exact ⟨n,by rw [hnodes]; rfl,htype⟩

theorem wired_init {s : KernelState} (h : s.nodes = []) : Wired (fsInit alloc s) := by
  rw [fsInit]
  simp only
  generalize hprint : s.print "Dosya sistemi baslatiliyor...\n".toList = s'
  have hnodes : s'.nodes = [] := hprint ▸ h
  by_cases haddr : (allocate alloc s' fsNodeSize).2 = 0#32
  · rw [fsCreateNode_null alloc s' haddr]
    refine wired_empty ?_ rfl
    rw [allocate_nodes]
    exact hnodes
  · rw [fsCreateNode_some alloc s' haddr]
    refine wired_singleton ?_ (congrArg some (by rw [hnodes]; rfl))
      (n := { createdNode s' ['/'] .directory with
        mask := fsPermRead ||| fsPermWrite, uid := 0#32, gid := 0#32 })
      ⟨rfl,rfl,rfl,rfl,rfl,rfl⟩ rfl rfl
    simp only [print_nodes,hnodes]
    rfl

theorem wired_of_built {s : KernelState} (h : Built alloc s) : Wired s := by
  induction h with
  | init s hs => exact wired_init alloc hs
  | create s name type _ ih => exact wired_create alloc ih name type
  | add s t parent child _ ht ih => exact wired_add ih ht
  | symlink s name target _ ih => exact wired_symlink alloc ih name target

end Built

section Resolve

def Dots (component : CString) : Prop :=
  component = [] ∨ component = ['.'] ∨ component = ['.','.']

variable (drivers : Hooks) {s : KernelState} (h : Wired s)

include h

theorem walk_dots (hooks : Hooks) {current : NodePtr} (hcurrent : IsDirectory s current)
    {component : CString} (hdots : Dots component) :
    ∃ next, walk hooks s current component = some (some next) ∧ IsDirectory s next := by
  rcases hdots with rfl | rfl | rfl
  · exact ⟨current,rfl,hcurrent⟩
  · exact ⟨current,rfl,hcurrent⟩
  · obtain ⟨d,hd,hdir⟩ := hcurrent
    refine ⟨d.parent.getD current,?_,?_⟩
    · simp [walk,hd]
    · cases hparent : d.parent with
      | none => exact ⟨d,hd,hdir⟩
      | some q => exact h.parent current d q hd hparent

theorem walk_never {current : NodePtr} (hcurrent : IsDirectory s current) {component : CString}
    (hdots : ¬ Dots component) (depth : ℕ) :
    walk (kernelHooks drivers depth) s current component = none := by
  obtain ⟨d,hd,hdir⟩ := hcurrent
  simp only [Dots,not_or] at hdots
  rw [walk,if_neg hdots.1,if_neg hdots.2.1,if_neg hdots.2.2,
    fsFinddir_never drivers hd (h.installed current d hd) hdir]
  rfl

-- the walk stays on directories until the first real component, and never comes back from it
theorem walks_isSome_iff (depth : ℕ) {current : NodePtr} (hcurrent : IsDirectory s current)
    (cs : List CString) : (walks (kernelHooks drivers depth) s current cs).isSome ↔
      ∀ c ∈ cs, Dots c := by
  induction cs generalizing current with
  | nil => simp [walks]
  | cons c cs ih =>
    by_cases hdots : Dots c
    · obtain ⟨next,hnext,hdir⟩ := walk_dots h (kernelHooks drivers depth) hcurrent hdots
      rw [walks,hnext,List.forall_mem_cons]
      exact (ih hdir).trans (and_iff_right hdots).symm
    · rw [walks,walk_never drivers h hcurrent hdots]
      exact iff_of_false (by simp) fun hall => hdots (hall c List.mem_cons_self)

theorem fsResolvePath_returns (path : CString) :
    (Returns drivers fun hooks => fsResolvePath hooks s (some path)) ↔
      s.fs_root = none ∨ ∀ c ∈ components path, Dots c := by
  cases hroot : s.fs_root with
  | none =>
    exact iff_of_true (returns_of drivers (r := none) (by simp only [fsResolvePath,hroot])) (.inl rfl)
  | some root =>
    have hdir := h.root root hroot
    simp only [Returns,fsResolvePath_eq _ s hroot,walks_isSome_iff drivers h _ hdir,
      exists_const,reduceCtorEq,false_or]

end Resolve

theorem vfs_dispatch_returns (drivers : Hooks) (alloc : Allocator) :
    (∀ (s t : KernelState) (name : CString) (type : FsNodeType) (n : NodePtr),
      fsCreateNode alloc s name type = (t,some n) →
      ∀ (offset size index : Uint32) (buffer : ℕ → Uint8) (child : CString),
        ((Returns drivers fun hooks => fsRead hooks t (some n) offset size) ↔ type ≠ .file) ∧
        ((Returns drivers fun hooks => fsWrite hooks t (some n) offset size buffer) ↔
          type ≠ .file) ∧
        (¬ Returns drivers fun hooks => fsOpen hooks t (some n)) ∧
        (¬ Returns drivers fun hooks => fsClose hooks t (some n)) ∧
        ((Returns drivers fun hooks => fsReaddir hooks t (some n) index) ↔ type ≠ .directory) ∧
        ((Returns drivers fun hooks => fsFinddir hooks t (some n) child) ↔ type ≠ .directory)) ∧
    ∀ s : KernelState, Built alloc s → ∀ path : CString,
      (Returns drivers fun hooks => fsResolvePath hooks s (some path)) ↔
        s.fs_root = none ∨ ∀ c ∈ components path, Dots c := by
  constructor
  · intro s t name type n hcreate offset size index buffer child
    have hn := fsCreateNode_created alloc s hcreate
    have hi := createdNode_installed s name type
    exact ⟨fsRead_returns drivers hn hi offset size,fsWrite_returns drivers hn hi offset size buffer,
      fsOpen_returns drivers hn hi,fsClose_returns drivers hn hi,
      fsReaddir_returns drivers hn hi index,fsFinddir_returns drivers hn hi child⟩
  · intro s hs path
    exact fsResolvePath_returns drivers (wired_of_built alloc hs) path

theorem vfs_dispatch_returns_device : Returns noDrivers fun hooks => fsRead hooks
    (fsCreateNode constantAllocator KernelState.boot ['t','t','y'] .chardevice).1 (some 0) 0#32 16#32 :=
  ((vfs_dispatch_returns noDrivers constantAllocator).1 KernelState.boot _ ['t','t','y'] .chardevice
    0 rfl 0#32 16#32 0#32 (fun _ => 0#8) []).1.mpr (by decide)

theorem vfs_dispatch_diverges :
    (¬ Returns noDrivers fun hooks => fsOpen hooks
      (fsCreateNode constantAllocator KernelState.boot ['p','a','s','s','w','d'] .file).1 (some 0)) ∧
    ¬ Returns noDrivers fun hooks => fsResolvePath hooks
      (fsInit constantAllocator KernelState.boot) (some ['/','e','t','c']) := by
  constructor
  · exact fsOpen_returns noDrivers (fsCreateNode_created constantAllocator KernelState.boot rfl)
      (createdNode_installed _ _ _)
  · have hcomponents : components ['/','e','t','c'] = [['e','t','c']] := by decide
    rw [fsResolvePath_returns noDrivers (wired_init constantAllocator rfl),hcomponents]
    rintro (hroot | hdots)
    · cases hroot
    · have habsurd := hdots ['e','t','c'] List.mem_cons_self
      simp [Dots] at habsurd

end KluxOS.Fs
