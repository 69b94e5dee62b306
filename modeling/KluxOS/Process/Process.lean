import KluxOS.Lib.LinkedList
import KluxOS.Syscall.Syscall

namespace KluxOS.Processes

open KernelState LinkedList Syscall

abbrev ProcessPtr := ℕ

inductive ProcessState where
  | ready
  | running
  | blocked
  | terminated
deriving DecidableEq

structure ProcessContext where
  eip : Uint32 := 0#32
  esp : Uint32 := 0#32
  ebp : Uint32 := 0#32
  eflags : Uint32 := 0#32
deriving DecidableEq

-- block is the address of the process_t, which kfree gets
structure Process where
  block : Uint32
  pid : Uint32
  name : CString
  state : ProcessState
  context : ProcessContext
  kernel_stack : Uint32
  kernel_stack_size : Uint32
  next : Option ProcessPtr
deriving DecidableEq

structure ProcessTable where
  kernel : KernelState
  processes : List Process
  current_process : Option ProcessPtr
  process_list : Option ProcessPtr
  next_pid : Uint32

namespace ProcessTable

def boot (kernel : KernelState) : ProcessTable := ⟨kernel,[],none,none,1#32⟩

def print (s : ProcessTable) (text : CString) : ProcessTable :=
  { s with kernel := s.kernel.print text }

def update (s : ProcessTable) (p : ProcessPtr) (f : Process → Process) : ProcessTable :=
  { s with processes := s.processes.modify p f }

def setState (s : ProcessTable) (p : ProcessPtr) (state : ProcessState) : ProcessTable :=
  s.update p fun process => { process with state := state }

def setNext (s : ProcessTable) (p : ProcessPtr) (next : Option ProcessPtr) : ProcessTable :=
  s.update p fun process => { process with next := next }

-- the processes met from process_list on
def list (s : ProcessTable) : List ProcessPtr :=
  listing Process.next s.processes s.processes.length s.process_list

def stateOf (s : ProcessTable) (p : ProcessPtr) : Option ProcessState :=
  (s.processes[p]?).map Process.state

end ProcessTable

section Lifecycle

variable (alloc : Allocator)

-- sizeof(process_t)
def processSize : Uint32 := 104#32

def kernelStackSize : Uint32 := 4096#32

def schedulerInit (s : ProcessTable) : ProcessTable :=
  (s.print "Zamanlayici baslatiliyor...\n".toList).print "Zamanlayici baslatildi.\n".toList

-- a process_t at NULL is written through at once: none
def processInit (s : ProcessTable) : Option ProcessTable :=
  let s := s.print "Islem yonetimi baslatiliyor...\n".toList
  match allocate alloc s.kernel processSize with
  | (kernel,block) =>
    if block = 0#32 then none
    else
      match allocate alloc kernel kernelStackSize with
      | (kernel,kernel_stack) =>
        let kernel_process : Process :=
          { block, pid := 0#32, name := "kernel".toList.take 31, state := .running, context := {}
            kernel_stack, kernel_stack_size := kernelStackSize, next := none }
        let s := { s with
          kernel
          processes := s.processes ++ [kernel_process]
          process_list := some s.processes.length
          current_process := some s.processes.length }
        some (schedulerInit (s.print "Islem yonetimi baslatildi.\n".toList))

def processCreate (s : ProcessTable) (name : CString) (entry_point : Uint32) :
    Option (ProcessTable × ProcessPtr) :=
  let s := s.print "Yeni islem olusturuluyor: ".toList
  let s := s.print name
  let s := s.print ['\n']
  match allocate alloc s.kernel processSize with
  | (kernel,block) =>
    if block = 0#32 then none
    else
      match allocate alloc kernel kernelStackSize with
      | (kernel,kernel_stack) =>
        let esp := kernel_stack + kernelStackSize
        let new_process : Process :=
          { block, pid := s.next_pid, name := name.take 31, state := .ready
            context := { eip := entry_point, esp, ebp := esp, eflags := 0x202#32 }
            kernel_stack, kernel_stack_size := kernelStackSize, next := s.process_list }
        some ({ s with
          kernel
          processes := s.processes ++ [new_process]
          process_list := some s.processes.length
          next_pid := s.next_pid + 1#32 },s.processes.length)

def unlink (s : ProcessTable) (process : ProcessPtr) (next : Option ProcessPtr) :
    Option ProcessTable :=
  if s.process_list = some process then some { s with process_list := next }
  else do
    match ← predecessor Process.next s.processes process s.processes.length s.process_list with
    | none => some s
    | some temp => some (s.setNext temp next)

def release (s : ProcessTable) (p : ProcessPtr) (process : Process) : ProcessTable :=
  let s := if s.current_process = some p then { s with current_process := s.process_list } else s
  let s := s.setState p .terminated
  { s with kernel := kfree (kfree s.kernel process.kernel_stack) process.block }

def processTerminate (s : ProcessTable) (process : Option ProcessPtr) : Option ProcessTable :=
  match process with
  | none => some s
  | some p => do
    let process ← s.processes[p]?
    let s := s.print "Islem sonlandiriliyor: ".toList
    let s := s.print process.name
    let s := s.print ['\n']
    let s ← unlink s p process.next
    some (release s p process)

end Lifecycle

section Scheduler

def processSwitch (s : ProcessTable) (next : ProcessPtr) : Option ProcessTable :=
  if s.current_process = some next then some s
  else do
    let current ← s.current_process
    some (({ s.setState current .ready with current_process := some next }).setState next .running)

-- the fuel is one more than the number of processes: a longer scan goes round for ever
def scheduleLoop (processes : List Process) (first current : ProcessPtr) :
    ℕ → ProcessPtr → Option ProcessPtr
  | 0, _ => none
  | fuel + 1, next =>
    if next = current then some next
    else do
      let process ← processes[next]?
      if process.state = .ready then some next
      else scheduleLoop processes first current fuel (process.next.getD first)

def processSchedule (s : ProcessTable) : Option ProcessTable :=
  match s.process_list with
  | none => some s
  | some first => do
    let current ← s.current_process
    let process ← s.processes[current]?
    let next ← scheduleLoop s.processes first current (s.processes.length + 1)
      (process.next.getD first)
    let process ← s.processes[next]?
    if next ≠ current ∧ process.state = .ready then processSwitch s next else some s

def timeSlice : Uint32 := 10#32

-- tick_count++
def ticked (s : ProcessTable) : ProcessTable :=
  { s with kernel := { s.kernel with tick_count := s.kernel.tick_count + 1#32 } }

def schedulerTick (s : ProcessTable) : Option ProcessTable :=
  let s := ticked s
  if s.kernel.tick_count % timeSlice = 0#32 then
    match s.process_list with
    | none => some s
    | some first => do
      let process ← s.processes[first]?
      if process.next = none then some s else processSchedule s
  else some s

end Scheduler

inductive ProcessCall where
  | create (name : CString) (entry_point : Uint32)
  | terminate (process : Option ProcessPtr)
  | schedule
  | tick
deriving DecidableEq

def processStep (alloc : Allocator) (s : ProcessTable) : ProcessCall → Option ProcessTable
  | .create name entry_point => (processCreate alloc s name entry_point).map Prod.fst
  | .terminate process => processTerminate s process
  | .schedule => processSchedule s
  | .tick => schedulerTick s

end KluxOS.Processes
