import KluxOS.Fs.Fs

namespace KluxOS.Syscall

open ByteMemory KernelState Fs

def maxFd : ℤ := 32

def oRdonly : Uint32 := 0x0001#32

def oWronly : Uint32 := 0x0002#32

def oRdwr : Uint32 := 0x0003#32

def oCreat : Uint32 := 0x0100#32

def oTrunc : Uint32 := 0x0200#32

def oAppend : Uint32 := 0x0400#32

section Bytes

variable (alloc : Allocator) (s : KernelState)

def memset (dest : ℕ) (c : Uint8) (n : ℕ) : KernelState :=
  { s with memory := storeLoop (fun _ _ => c) dest n s.memory }

def memcpy (dest src n : ℕ) : KernelState :=
  { s with memory := storeLoop (fun memory i => memory (src + i)) dest n s.memory }

def memcpyFrom (dest : ℕ) (buf : ℕ → Uint8) (n : ℕ) : KernelState :=
  { s with memory := storeLoop (fun _ i => buf i) dest n s.memory }

def kfree (ptr : Uint32) : KernelState :=
  if ptr = 0#32 then s else s.print "kfree: Bellek serbest bırakıldı (stub)\n".toList

def krealloc (ptr size : Uint32) : KernelState × Uint32 :=
  if ptr = 0#32 then allocate alloc s size
  else if size = 0#32 then (kfree s ptr,0#32)
  else
    match allocate alloc s size with
    | (s,new_ptr) =>
      if new_ptr = 0#32 then (s,0#32)
      else
        let copy_size := if size.toNat < 256 then size.toNat else 256
        let s := memcpy s new_ptr.toNat ptr.toNat copy_size
        (kfree s ptr,new_ptr)

theorem kfree_blocks (ptr : Uint32) : (kfree s ptr).blocks = s.blocks := by
  rw [kfree]
  split <;> rfl

theorem kfree_memory (ptr : Uint32) : (kfree s ptr).memory = s.memory := by
  rw [kfree]
  split <;> rfl

end Bytes

section Calls

variable (hooks : Hooks) (alloc : Allocator) (s : KernelState)

-- (size_t)-1
def failed : Uint32 := 0xFFFFFFFF#32

def fdIndex (fd : ℤ) : Option (Fin 32) :=
  if h : 0 ≤ fd ∧ fd < maxFd then some ⟨fd.toNat,by unfold maxFd at h; omega⟩ else none

def syscallReadStdin (count : Uint32) : Option (KernelState × Uint32 × List Uint8) := do
  let available := s.keyboard_buffer_pos
  let to_read := if count > available then available else count
  if to_read > 0#32 then
    let data ← (List.range to_read.toNat).mapM fun (i : ℕ) => CArray.get? s.keyboard_buffer i
    if to_read < available then
      let keyboard_buffer ← (List.range (available - to_read).toNat).foldlM
        (fun keyboard_buffer (i : ℕ) => do
          let c ← CArray.get? keyboard_buffer (i + to_read.toNat)
          CArray.set? keyboard_buffer i c) s.keyboard_buffer
      some ({ s with keyboard_buffer := keyboard_buffer
                     keyboard_buffer_pos := available - to_read },to_read,data)
    else some ({ s with keyboard_buffer_pos := 0#32 },to_read,data)
  else some (s,0#32,[])

def syscallRead (fd : ℤ) (count : Uint32) : Option (KernelState × Uint32 × List Uint8) :=
  match fdIndex fd with
  | none => some (s.print "ERROR: Invalid file descriptor\n".toList,failed,[])
  | some fd =>
    let entry := s.fd_table.get fd
    if entry.used = false then
      some (s.print "ERROR: Invalid file descriptor\n".toList,failed,[])
    else if fd = 0 then syscallReadStdin s count
    else
      match entry.node with
      | none => some (s.print "ERROR: Invalid file descriptor\n".toList,failed,[])
      | some p => do
        let node ← s.nodes[p]?
        if node.mask &&& fsPermRead = 0#32 then
          some (s.print "ERROR: Read permission denied\n".toList,failed,[])
        else
          let (s,read_size,data) ← match node.read with
            | some hook => hooks.read hook s p entry.offset count
            | none =>
              if node.contents ≠ 0#32 then
                let remaining := node.length - entry.offset
                let read_size := if count > remaining then remaining else count
                some (s,read_size,
                  loadBytes s.memory (node.contents + entry.offset).toNat read_size.toNat)
              else some (s,0#32,[])
          let entry := s.fd_table.get fd
          some (s.setFd fd { entry with offset := entry.offset + read_size },read_size,data)

def resize (p : NodePtr) (node : FsNode) (new_size : Uint32) : Option (KernelState × FsNode) :=
  if new_size > node.length then
    match krealloc alloc s node.contents new_size with
    | (s,new_contents) =>
      if new_contents = 0#32 then none
      else
        let s := memset s (new_contents + node.length).toNat 0#8
          (new_size - node.length).toNat
        let node := { node with contents := new_contents, length := new_size }
        some (s.setNode p node,node)
  else some (s,node)

def syscallWrite (fd : ℤ) (buf : ℕ → Uint8) (count : Uint32) : Option (KernelState × Uint32) :=
  match fdIndex fd with
  | none => some (s.print "ERROR: Invalid file descriptor\n".toList,failed)
  | some fd =>
    if fd = 1 ∨ fd = 2 then
      let str := (List.range count.toNat).map fun i => Char.ofNat (buf i).toNat
      some (s.print str,count)
    else
      let entry := s.fd_table.get fd
      if entry.used = false then
        some (s.print "ERROR: Unused file descriptor\n".toList,failed)
      else
        match entry.node with
        | none => some (s.print "ERROR: Invalid file descriptor\n".toList,failed)
        | some p => do
          let node ← s.nodes[p]?
          if node.mask &&& fsPermWrite = 0#32 then
            some (s.print "ERROR: Write permission denied\n".toList,failed)
          else
            match node.write with
            | some hook =>
              let (s,write_size) ← hooks.write hook s p entry.offset count buf
              finish s fd p write_size
            | none =>
              let new_size := entry.offset + count
              match resize alloc s p node new_size with
              | none => some ((krealloc alloc s node.contents new_size).1.print
                  "ERROR: File could not be resized - insufficient memory\n".toList,failed)
              | some (s,node) =>
                let s := memcpyFrom s (node.contents + entry.offset).toNat buf count.toNat
                finish s fd p count
where
  finish (s : KernelState) (fd : Fin 32) (p : NodePtr) (write_size : Uint32) :
      Option (KernelState × Uint32) := do
    let entry := s.fd_table.get fd
    let s := s.setFd fd { entry with offset := entry.offset + write_size }
    let node ← s.nodes[p]?
    some (s.setNode p { node with modified_time := s.tick_count },write_size)

def findFreeFd : Option (Fin 32) :=
  (List.finRange 32).find? fun i => 3 ≤ i.val ∧ (s.fd_table.get i).used = false

def pathError (message : String) (pathname : CString) : KernelState :=
  s.print (message.toList ++ pathname ++ ['\n'])

def fileName (pathname : CString) : CString :=
  match strrchr '/' pathname with
  | some last_slash => pathname.drop (last_slash + 1)
  | none => pathname

-- the node the call opens: found, or created under its parent directory; none is an early exit
def openNode (pathname : CString) (flags : Uint32) :
    Option (KernelState × Option NodePtr) := do
  match ← fsResolvePath hooks s (some pathname) with
  | some node => some (s,some node)
  | none =>
    if flags &&& oCreat = 0#32 then
      some (pathError s "ERROR: File not found: " pathname,none)
    else
      match ← fsGetParentDir hooks s (some pathname) with
      | none => some (pathError s "ERROR: Parent directory not found: " pathname,none)
      | some parent =>
        match fsCreateNode alloc s (fileName pathname) .file with
        | (s,none) => some (pathError s "ERROR: Could not create file: " pathname,none)
        | (s,some node) =>
          let s ← fsAddNode s (some parent) (some node)
          some (pathError s "File created: " pathname,some node)

def truncateNode (p : NodePtr) (node : FsNode) : Option KernelState :=
  match node.truncate with
  | some hook => hooks.truncate hook s p
  | none =>
    if node.length > 0#32 ∧ node.contents ≠ 0#32 then
      let s := memset s node.contents.toNat 0#8 node.length.toNat
      some (s.setNode p { node with length := 0#32 })
    else some s

def openFd (p : NodePtr) (flags : Uint32) : Option (KernelState × ℤ) :=
  match findFreeFd s with
  | none => some (s.print "ERROR: Maximum number of open files reached\n".toList,-1)
  | some fd => do
    let node ← s.nodes[p]?
    let offset := if flags &&& oAppend ≠ 0#32 then node.length else 0#32
    let s := s.setFd fd { used := true, node := some p, offset := offset }
    match node.open_ with
    | some hook =>
      let s ← hooks.open_ hook s p
      some (s,fd.val)
    | none => some (s,fd.val)

def syscallOpen (pathname : Option CString) (flags : Uint32) : Option (KernelState × ℤ) :=
  match pathname with
  | none => some (s,-1)
  | some pathname => do
    match ← openNode hooks alloc s pathname flags with
    | (s,none) => some (s,-1)
    | (s,some p) =>
      let node ← s.nodes[p]?
      if node.type ≠ .file then
        some (pathError s "ERROR: Attempted to open a directory: " pathname,-1)
      else
        let s ← if flags &&& oTrunc ≠ 0#32 then truncateNode hooks s p node else some s
        openFd hooks s p flags

def syscallClose (fd : ℤ) : Option (KernelState × ℤ) :=
  match fdIndex fd with
  | none => some (s.print "ERROR: Invalid file descriptor\n".toList,-1)
  | some fd =>
    if fd.val ≤ 2 then
      some (s.print "ERROR: Cannot close standard I/O descriptors\n".toList,-1)
    else
      let entry := s.fd_table.get fd
      if entry.used = false then
        some (s.print "ERROR: Descriptor is already closed\n".toList,-1)
      else do
        let s ← match entry.node with
          | some p => do
            let node ← s.nodes[p]?
            match node.close with
            | some hook => hooks.close hook s p
            | none => some s
          | none => some s
        some (s.setFd fd { used := false, node := none, offset := 0#32 },0)

end Calls

end KluxOS.Syscall
