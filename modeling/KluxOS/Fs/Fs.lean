import KluxOS.Kernel.State
import KluxOS.Lib.LinkedList

namespace KluxOS.Fs

open KernelState LinkedList

def fsPermRead : Uint32 := 1#32

def fsPermWrite : Uint32 := 2#32

def fsPermExec : Uint32 := 4#32

section Nodes

variable (alloc : Allocator)

-- sizeof(fs_node_t)
def fsNodeSize : Uint32 := 224#32

def fsCreateNode (s : KernelState) (name : CString) (type : FsNodeType) :
    KernelState × Option NodePtr :=
  match allocate alloc s fsNodeSize with
  | (s,addr) =>
    if addr = 0#32 then (s,none)
    else
      let node : FsNode := {}
      let node := { node with name := name.take 127 }
      let node := { node with created_time := s.tick_count, modified_time := s.tick_count }
      let node := { node with type := type, length := 0#32, mask := fsPermRead }
      let node := if type = .directory
        then { node with readdir := some .fsReaddir, finddir := some .fsFinddir } else node
      let node := if type = .file
        then { node with read := some .fsRead, write := some .fsWrite } else node
      let node := { node with open_ := some .fsOpen, close := some .fsClose }
      ({ s with nodes := s.nodes ++ [node] },some s.nodes.length)

-- the fuel is the number of nodes: a longer walk is in a cycle of next pointers
def lastSibling (nodes : List FsNode) : ℕ → NodePtr → Option NodePtr
  | 0, _ => none
  | fuel + 1, current => do
    let node ← nodes[current]?
    match node.next with
    | none => some current
    | some next => lastSibling nodes fuel next

def setNext (s : KernelState) (current : NodePtr) (next : Option NodePtr) : Option KernelState := do
  let node ← s.nodes[current]?
  some (s.setNode current { node with next := next })

def fsAddNode (s : KernelState) (parent child : Option NodePtr) : Option KernelState :=
  match parent,child with
  | some parent,some child => do
    let dir ← s.nodes[parent]?
    if dir.type ≠ .directory then
      some (s.print "HATA: Dizin olmayan bir dugume alt dugum eklenemez!\n".toList)
    else
      let node ← s.nodes[child]?
      let s := s.setNode child { node with parent := some parent }
      let dir ← s.nodes[parent]?
      match dir.children with
      | none => some (s.setNode parent { dir with children := some child })
      | some first =>
        let current ← lastSibling s.nodes s.nodes.length first
        setNext s current (some child)
  | _,_ => some s

-- node->parent = NULL; node->next = NULL
def detach (s : KernelState) (node : NodePtr) : Option KernelState := do
  let n ← s.nodes[node]?
  some (s.setNode node { n with parent := none, next := none })

def fsRemoveNode (s : KernelState) (parent node : Option NodePtr) : Option (KernelState × ℤ) :=
  match parent,node with
  | some parent,some node => do
    let dir ← s.nodes[parent]?
    if dir.type ≠ .directory then
      some (s.print "HATA: Dizin olmayan bir dugumden alt dugum kaldirilamaz!\n".toList,-1)
    else
      let child ← s.nodes[node]?
      if dir.children = some node then
        let s := s.setNode parent { dir with children := child.next }
        let s ← detach s node
        some (s,0)
      else
        match ← predecessor FsNode.next s.nodes node s.nodes.length dir.children with
        | none => some (s,-1)
        | some current =>
          let s ← setNext s current child.next
          let s ← detach s node
          some (s,0)
  | _,_ => some (s,-1)

def fsCreateSymlink (s : KernelState) (name : CString) (target : Option NodePtr) :
    KernelState × Option NodePtr :=
  match target with
  | none => (s,none)
  | some target =>
    match fsCreateNode alloc s name .symlink with
    | (s,none) => (s,none)
    | (s,some link) =>
      match s.nodes[link]? with
      | none => (s,none)
      | some node => (s.setNode link
          { node with symlink_target := some target, readlink := some .fsReadlink },some link)

def fsInit (s : KernelState) : KernelState :=
  let s := s.print "Dosya sistemi baslatiliyor...\n".toList
  let s := match fsCreateNode alloc s ['/'] .directory with
    | (s,none) => { s with fs_root := none }.print "HATA: Kok dizin olusturulamadi!\n".toList
    | (s,some root) =>
      let s := { s with
        fs_root := some root
        nodes := s.nodes.modify root fun node =>
          { node with mask := fsPermRead ||| fsPermWrite, uid := 0#32, gid := 0#32 } }
      s.print "Kok dizin olusturuldu.\n".toList
  s.print "Dosya sistemi baslatildi.\n".toList

end Nodes

section Dispatch

variable (hooks : Hooks) (s : KernelState)

-- if (node && slot(node)) return slot(node)(node, ..); return idle;
def dispatch {α : Type} (node : Option NodePtr) (slot : FsNode → Option Hook)
    (call : Hook → NodePtr → Option α) (idle : α) : Option α :=
  match node with
  | none => some idle
  | some p => do
    let n ← s.nodes[p]?
    match slot n with
    | some hook => call hook p
    | none => some idle

def fsRead (node : Option NodePtr) (offset size : Uint32) :
    Option (KernelState × Uint32 × List Uint8) :=
  dispatch s node (fun n => n.read) (fun hook p => hooks.read hook s p offset size) (s,0#32,[])

def fsWrite (node : Option NodePtr) (offset size : Uint32) (buffer : ℕ → Uint8) :
    Option (KernelState × Uint32) :=
  dispatch s node (fun n => n.write) (fun hook p => hooks.write hook s p offset size buffer) (s,0#32)

def fsOpen (node : Option NodePtr) : Option KernelState :=
  dispatch s node (fun n => n.open_) (fun hook p => hooks.open_ hook s p) s

def fsClose (node : Option NodePtr) : Option KernelState :=
  dispatch s node (fun n => n.close) (fun hook p => hooks.close hook s p) s

def fsReaddir (node : Option NodePtr) (index : Uint32) : Option (Option NodePtr) :=
  dispatch s node (fun n => if n.type = .directory then n.readdir else none)
    (fun hook p => hooks.readdir hook s p index) none

def fsFinddir (node : Option NodePtr) (name : CString) : Option (Option NodePtr) :=
  dispatch s node (fun n => if n.type = .directory then n.finddir else none)
    (fun hook p => hooks.finddir hook s p name) none

def fsCheckPermission (node : Option NodePtr) (access_mask uid gid : Uint32) : Option ℤ :=
  match node with
  | none => some 0
  | some p =>
    if uid = 0#32 then some 1
    else do
      let n ← s.nodes[p]?
      if n.uid = uid then
        if n.mask &&& (access_mask <<< 6) = access_mask <<< 6 then some 1 else some 0
      else if n.gid = gid then
        if n.mask &&& (access_mask <<< 3) = access_mask <<< 3 then some 1 else some 0
      else
        if n.mask &&& access_mask = access_mask then some 1 else some 0

def fsReadlink (link : Option NodePtr) : Option (Option NodePtr) :=
  match link with
  | none => some none
  | some p => do
    let n ← s.nodes[p]?
    if n.type ≠ .symlink then some none else some n.symlink_target

end Dispatch

section Path

variable (hooks : Hooks) (s : KernelState)

def nextComponent (path : CString) : CString := (path.takeWhile (· ≠ '/')).take 127

def skipSlash : CString → CString
  | '/' :: path => path
  | path => path

-- one pass of the loop body after the component has been copied
def walk (current : NodePtr) (component : CString) : Option (Option NodePtr) :=
  if component = [] then some (some current)
  else if component = ['.'] then some (some current)
  else if component = ['.','.'] then do
    let n ← s.nodes[current]?
    some (some (n.parent.getD current))
  else do
    match ← fsFinddir hooks s (some current) component with
    | none => some none
    | some next =>
      let n ← s.nodes[next]?
      if n.type = .symlink then fsReadlink s (some next) else some (some next)

theorem nextComponent_rest_lt (c : Char) (path : CString) :
    (skipSlash ((c :: path).drop (nextComponent (c :: path)).length)).length <
      (c :: path).length := by
  have hskip : ∀ p : CString, (skipSlash p).length ≤ p.length := by
    intro p
    unfold skipSlash
    split
    · simp
    · rfl
  by_cases h : c = '/'
  · subst h
    simp [nextComponent,skipSlash]
  · refine (hskip _).trans_lt ?_
    have hpos : 0 < (nextComponent (c :: path)).length := by
      simp [nextComponent,h]
    rw [List.length_drop,List.length_cons]
    omega

def resolveLoop (current : NodePtr) : CString → Option (Option NodePtr)
  | [] => some (some current)
  | c :: path => do
    let component := nextComponent (c :: path)
    match ← walk hooks s current component with
    | none => some none
    | some next => resolveLoop next (skipSlash ((c :: path).drop component.length))
termination_by path => path.length
decreasing_by exact nextComponent_rest_lt c path

def fsResolvePath (path : Option CString) : Option (Option NodePtr) :=
  match path,s.fs_root with
  | some path,some root =>
    let path := skipSlash path
    if path = [] then some (some root) else resolveLoop hooks s root path
  | _,_ => some none

def strrchr (c : Char) : CString → Option ℕ
  | [] => none
  | x :: path =>
    match strrchr c path with
    | some i => some (i + 1)
    | none => if x = c then some 0 else none

def fsGetParentDir (path : Option CString) : Option (Option NodePtr) :=
  match path,s.fs_root with
  | some path,some root =>
    match strrchr '/' path with
    | none => some (some root)
    | some last_slash =>
      if last_slash = 0 then some (some root)
      else
        let len := if last_slash > 255 then 255 else last_slash
        let temp_path := path.take len
        fsResolvePath hooks s (some temp_path)
  | _,_ => some none

end Path

end KluxOS.Fs
