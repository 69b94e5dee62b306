import Mathlib.Logic.Function.Basic
import Mathlib.Order.Fin.Basic
import KluxOS.Kernel.Types
import KluxOS.Lib.Bitmap

namespace KluxOS.Memory

def pageSize : Uint32 := 4096#32

def memoryPresent : Uint32 := 0x1#32

def memoryReadwrite : Uint32 := 0x2#32

def memoryUser : Uint32 := 0x4#32

def heapSize : Uint32 := 0x100000#32

-- the link script starts the image at 1 MB and its page-aligned end is a 32-bit symbol
structure KernelImage where
  kernel_heap : Uint32
  page_directory : Fin 1024 → Uint32
  linked : 0x100000 ≤ kernel_heap.toNat
  fits : kernel_heap.toNat + heapSize.toNat ≤ 0xFFFFF000

def bootImage : KernelImage where
  kernel_heap := 0x200000#32
  page_directory := fun _ => 0x400001#32
  linked := by decide
  fits := by decide

abbrev Frames := Vector Uint32 32768

structure MemoryState where
  frames : Frames
  nframes : Uint32
  nframes_le : nframes.toNat ≤ 1048576
  heap_end : Uint32
  words : Uint32 → Uint32

def bootState : MemoryState where
  frames := Vector.replicate 32768 0#32
  nframes := 32768#32
  nframes_le := by decide
  heap_end := 0x200000#32
  words := fun _ => 0#32

section Bitmap

theorem frame_word_lt (frame_addr : Uint32) : frame_addr.toNat / 4096 / 32 < 32768 := by
  omega

def setFrame (frames : Frames) (frame_addr : Uint32) : Frames :=
  let frame := frame_addr.toNat / 4096
  let idx := frame / 32
  let off := frame % 32
  have h : idx < 32768 := frame_word_lt frame_addr
  frames.set idx (frames.get ⟨idx,h⟩ ||| 1#32 <<< off) h

def clearFrame (frames : Frames) (frame_addr : Uint32) : Frames :=
  let frame := frame_addr.toNat / 4096
  let idx := frame / 32
  let off := frame % 32
  have h : idx < 32768 := frame_word_lt frame_addr
  frames.set idx (frames.get ⟨idx,h⟩ &&& ~~~(1#32 <<< off)) h

def testFrame (frames : Frames) (frame_addr : Uint32) : Uint32 :=
  let frame := frame_addr.toNat / 4096
  let idx := frame / 32
  let off := frame % 32
  have h : idx < 32768 := frame_word_lt frame_addr
  frames.get ⟨idx,h⟩ &&& 1#32 <<< off

theorem MemoryState.words_le (s : MemoryState) : s.nframes.toNat / 32 ≤ 32768 := by
  have h := s.nframes_le
  omega

def firstFreeFrame (s : MemoryState) : Uint32 :=
  let found := (List.finRange (s.nframes.toNat / 32)).findSome? fun i =>
    let word := s.frames.get (i.castLE s.words_le)
    if word ≠ 0xFFFFFFFF#32 then
      (List.range 32).findSome? fun j =>
        let test := 1#32 <<< j
        if word &&& test = 0#32 then some (i.val * 32 + j) else none
    else none
  match found with
  | some frame => BitVec.ofNat 32 frame
  | none => 0#32

end Bitmap

section Paging

variable (image : KernelImage)

def pdIndex (virtualaddr : Uint32) : Fin 1024 :=
  ⟨(virtualaddr >>> 22).toNat,by rw [BitVec.toNat_ushiftRight,Nat.shiftRight_eq_div_pow]; omega⟩

def pageTable (virtualaddr : Uint32) : Uint32 :=
  image.page_directory (pdIndex virtualaddr) &&& ~~~0xFFF#32

def entryAddress (virtualaddr : Uint32) : Uint32 :=
  pageTable image virtualaddr + 4#32 * (virtualaddr >>> 12 &&& 0x03FF#32)

def getPhysaddr (s : MemoryState) (virtualaddr : Uint32) : Uint32 :=
  if image.page_directory (pdIndex virtualaddr) &&& 1#32 = 0#32 then 0#32
  else
    let entry := s.words (entryAddress image virtualaddr)
    if entry &&& 1#32 = 0#32 then 0#32
    else (entry &&& ~~~0xFFF#32) + (virtualaddr &&& 0xFFF#32)

def mapPage (s : MemoryState) (physaddr virtualaddr flags : Uint32) : MemoryState :=
  { s with
    words := Function.update s.words (entryAddress image virtualaddr)
      (physaddr ||| (flags &&& 0xFFF#32) ||| 1#32) }

-- the second word of page_frame_t holds used (bit 0), kernel_page (bit 1) and ref_count (bits 2 to 11)
def flagsAddress (frame : Uint32) : Uint32 := frame + 4#32

def used (s : MemoryState) (frame : Uint32) : Bool := (s.words (flagsAddress frame)).getLsbD 0

def setField (word mask value : Uint32) : Uint32 := (word &&& ~~~mask) ||| value

def allocFlags (word : Uint32) (is_kernel : Bool) : Uint32 :=
  let word := setField word 0x1#32 1#32
  let word := setField word 0x2#32 (if is_kernel then 0x2#32 else 0#32)
  setField word 0xFFC#32 (1#32 <<< 2)

def freeFlags (word : Uint32) : Uint32 :=
  let word := setField word 0x1#32 0#32
  setField word 0xFFC#32 0#32

def allocFrame (s : MemoryState) (frame : Uint32) (is_kernel is_writeable : Bool) :
    Option MemoryState :=
  if used s frame then some s
  else
    let idx := firstFreeFrame s
    if idx = 0xFFFFFFFF#32 then none
    else
      let s := { s with
        frames := setFrame s.frames (idx * pageSize)
        words := Function.update s.words (flagsAddress frame)
          (allocFlags (s.words (flagsAddress frame)) is_kernel) }
      let flags := memoryPresent
      let flags := if is_writeable then flags ||| memoryReadwrite else flags
      let flags := if is_kernel then flags else flags ||| memoryUser
      let physaddr := idx * pageSize
      some (mapPage image s physaddr frame flags)

def freeFrame (s : MemoryState) (frame : Uint32) : MemoryState :=
  if used s frame then
    let physaddr := getPhysaddr image s frame
    { s with
      frames := clearFrame s.frames physaddr
      words := Function.update s.words (flagsAddress frame)
        (freeFlags (s.words (flagsAddress frame))) }
  else s

end Paging

section Heap

variable (image : KernelImage)

def kmallocInternal (s : MemoryState) (size : Uint32) (align phys : Bool) :
    MemoryState × Uint32 × Option Uint32 :=
  let heap_end := if align ∧ s.heap_end &&& 0xFFF#32 ≠ 0#32
    then (s.heap_end + 0x1000#32) &&& 0xFFFFF000#32 else s.heap_end
  let addr := heap_end
  let out := if phys then some (getPhysaddr image s addr) else none
  ({ s with heap_end := heap_end + size },addr,out)

def kmalloc (s : MemoryState) (size : Uint32) := kmallocInternal image s size false false

def kmallocAligned (s : MemoryState) (size : Uint32) := kmallocInternal image s size true false

def kmallocPhysical (s : MemoryState) (size : Uint32) := kmallocInternal image s size false true

def kmallocAlignedPhysical (s : MemoryState) (size : Uint32) := kmallocInternal image s size true true

end Heap

section Init

variable (image : KernelImage)

def memsetZero (words : Uint32 → Uint32) (base : Uint32) (n : ℕ) : Uint32 → Uint32 :=
  fun a => if (a - base).toNat < n then 0#32 else words a

def getPage (s : MemoryState) (address : Uint32) (make : Bool) (dir : Uint32) :
    MemoryState × Uint32 :=
  let address := address / pageSize
  let table_idx := address / 1024#32
  let table := dir + 4#32 * table_idx
  let table_physical := dir + 4096#32 + 4#32 * table_idx
  if make ∧ s.words table = 0#32 then
    match kmallocAlignedPhysical image s 4096#32 with
    | (s,new_table,phys) =>
      let words := Function.update s.words table new_table
      let words := Function.update words table_physical
        (phys.getD 0 ||| memoryPresent ||| memoryReadwrite ||| memoryUser)
      let words := memsetZero words new_table 4096
      ({ s with words := words },words table + 4#32 * (address % 1024#32))
  else if s.words table ≠ 0#32 then (s,s.words table + 4#32 * (address % 1024#32))
  else (s,0#32)

-- sizeof(page_directory_t) is 1024 table pointers, 1024 physical addresses and physical_addr
def pageDirectorySize : Uint32 := 8196#32

def initPage (kernel_directory : Uint32) (s : MemoryState) (i : ℕ) : Option MemoryState :=
  match getPage image s (BitVec.ofNat 32 i * pageSize) true kernel_directory with
  | (s,page) => allocFrame image s page true false

def initPaging (s : MemoryState) : Option MemoryState :=
  match kmallocAligned image s pageDirectorySize with
  | (s,kernel_directory,_) =>
    let s := { s with words := memsetZero s.words kernel_directory pageDirectorySize.toNat }
    (List.range 1024).foldlM (initPage image kernel_directory) s

def totalMemory : Uint32 := 128#32 * 1024#32

def initFrames (s : MemoryState) : MemoryState :=
  let nframes := totalMemory * 1024#32 / pageSize
  have h : nframes.toNat = 32768 := by decide
  let frames := (List.finRange (nframes.toNat / 32)).foldl
    (fun frames (i : Fin (nframes.toNat / 32)) => frames.set i 0#32 (by omega)) s.frames
  let frames := (List.range 256).foldl
    (fun frames (i : ℕ) => setFrame frames (BitVec.ofNat 32 i * pageSize)) frames
  { s with heap_end := image.kernel_heap, nframes := nframes, nframes_le := by omega,
           frames := frames }

def initMemory (s : MemoryState) : Option MemoryState := initPaging image (initFrames image s)

end Init

end KluxOS.Memory
