import KluxOS.Kernel.Types
import KluxOS.Lib.ByteMemory

namespace KluxOS

open ByteMemory

abbrev CString := List Char

abbrev NodePtr := ℕ

inductive FsNodeType where
  | file
  | directory
  | chardevice
  | blockdevice
  | pipe
  | symlink
deriving DecidableEq

-- the functions of fs.c that a node's function pointers can name, and those of a driver
inductive Hook where
  | fsRead
  | fsWrite
  | fsOpen
  | fsClose
  | fsReaddir
  | fsFinddir
  | fsReadlink
  | driver (id : ℕ)
deriving DecidableEq

structure FsNode where
  name : CString := []
  mask : Uint32 := 0#32
  uid : Uint32 := 0#32
  gid : Uint32 := 0#32
  length : Uint32 := 0#32
  created_time : Uint32 := 0#32
  modified_time : Uint32 := 0#32
  type : FsNodeType := .file
  contents : Uint32 := 0#32
  read : Option Hook := none
  write : Option Hook := none
  open_ : Option Hook := none
  close : Option Hook := none
  readdir : Option Hook := none
  finddir : Option Hook := none
  readlink : Option Hook := none
  truncate : Option Hook := none
  parent : Option NodePtr := none
  next : Option NodePtr := none
  children : Option NodePtr := none
  symlink_target : Option NodePtr := none
deriving DecidableEq

structure FdEntry where
  used : Bool
  node : Option NodePtr
  offset : Uint32
deriving DecidableEq

structure KernelState where
  nodes : List FsNode
  fs_root : Option NodePtr
  fd_table : Vector FdEntry 32
  memory : Memory Uint8
  blocks : List (Uint32 × Uint32)
  keyboard_buffer : Vector Uint8 256
  keyboard_buffer_pos : Uint32
  tick_count : Uint32
  terminal : CString

namespace KernelState

def boot : KernelState where
  nodes := []
  fs_root := none
  fd_table := Vector.replicate 32 ⟨false,none,0#32⟩
  memory := fun _ => 0#8
  blocks := []
  keyboard_buffer := Vector.replicate 256 0#8
  keyboard_buffer_pos := 0#32
  tick_count := 0#32
  terminal := []

def print (s : KernelState) (text : CString) : KernelState :=
  { s with terminal := s.terminal ++ text }

def setNode (s : KernelState) (p : NodePtr) (n : FsNode) : KernelState :=
  { s with nodes := s.nodes.set p n }

def setFd (s : KernelState) (fd : Fin 32) (e : FdEntry) : KernelState :=
  { s with fd_table := s.fd_table.set fd e fd.isLt }

variable (s : KernelState) (text : CString) (p : NodePtr) (n : FsNode) (fd : Fin 32) (e : FdEntry)

@[simp] theorem print_nodes : (s.print text).nodes = s.nodes := rfl

@[simp] theorem print_fs_root : (s.print text).fs_root = s.fs_root := rfl

@[simp] theorem print_fd_table : (s.print text).fd_table = s.fd_table := rfl

@[simp] theorem print_memory : (s.print text).memory = s.memory := rfl

@[simp] theorem print_blocks : (s.print text).blocks = s.blocks := rfl

theorem print_print (more : CString) : (s.print text).print more = s.print (text ++ more) :=
  congrArg (fun terminal => { s with terminal := terminal }) (List.append_assoc s.terminal text more)

theorem print_nil : s.print [] = s :=
  congrArg (fun terminal => { s with terminal := terminal }) (List.append_nil s.terminal)

@[simp] theorem setNode_nodes : (s.setNode p n).nodes = s.nodes.set p n := rfl

@[simp] theorem setNode_fs_root : (s.setNode p n).fs_root = s.fs_root := rfl

@[simp] theorem setNode_fd_table : (s.setNode p n).fd_table = s.fd_table := rfl

@[simp] theorem setNode_memory : (s.setNode p n).memory = s.memory := rfl

@[simp] theorem setNode_blocks : (s.setNode p n).blocks = s.blocks := rfl

@[simp] theorem setFd_nodes : (s.setFd fd e).nodes = s.nodes := rfl

@[simp] theorem setFd_fs_root : (s.setFd fd e).fs_root = s.fs_root := rfl

@[simp] theorem setFd_memory : (s.setFd fd e).memory = s.memory := rfl

@[simp] theorem setFd_blocks : (s.setFd fd e).blocks = s.blocks := rfl

@[simp] theorem setFd_get (i : Fin 32) :
    (s.setFd fd e).fd_table.get i = if i = fd then e else s.fd_table.get i :=
  CArray.get_set s.fd_table fd i e

end KernelState

-- what a call through a function pointer does; none is a call that never returns
structure Hooks where
  read : Hook → KernelState → NodePtr → Uint32 → Uint32 →
    Option (KernelState × Uint32 × List Uint8)
  write : Hook → KernelState → NodePtr → Uint32 → Uint32 → (ℕ → Uint8) →
    Option (KernelState × Uint32)
  open_ : Hook → KernelState → NodePtr → Option KernelState
  close : Hook → KernelState → NodePtr → Option KernelState
  readdir : Hook → KernelState → NodePtr → Uint32 → Option (Option NodePtr)
  finddir : Hook → KernelState → NodePtr → CString → Option (Option NodePtr)
  truncate : Hook → KernelState → NodePtr → Option KernelState

-- the address a request gets (0 for NULL) from the blocks allocated so far
abbrev Allocator := List (Uint32 × Uint32) → Uint32 → Uint32

def constantAllocator : Allocator := fun _ _ => 0x200000#32

def allocate (alloc : Allocator) (s : KernelState) (size : Uint32) : KernelState × Uint32 :=
  let addr := alloc s.blocks size
  if addr = 0#32 then (s,0#32) else ({ s with blocks := (addr,size) :: s.blocks },addr)

section Allocate

variable (alloc : Allocator) (s : KernelState) {size : Uint32}

theorem allocate_null (h : alloc s.blocks size = 0#32) : allocate alloc s size = (s,0#32) := by
  simp only [allocate,h,if_true]

theorem allocate_block (h : alloc s.blocks size ≠ 0#32) : allocate alloc s size =
    ({ s with blocks := (alloc s.blocks size,size) :: s.blocks },alloc s.blocks size) := by
  simp only [allocate,if_neg h]

end Allocate

end KluxOS
