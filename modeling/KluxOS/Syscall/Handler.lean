import KluxOS.Process.Process
import KluxOS.Syscall.Syscall

namespace KluxOS.Syscall

open KernelState Fs Processes

inductive SystemCall where
  | exit
  | fork
  | read
  | write
  | open_
  | close
  | exec
  | time
  | getpid
  | sleep
  | malloc
  | free
deriving DecidableEq

section Stubs

variable (s : ProcessTable)

def exitText : CString := "System call: exit() - Process is being terminated.\n".toList

def syscallExit : Option ProcessTable :=
  match s.current_process with
  | none => some s
  | some current => processTerminate (s.print exitText) (some current)

def syscallFork : ProcessTable × ℤ :=
  (s.print "System call: fork() - New process is being created.\n".toList,-1)

def syscallExec : ProcessTable × ℤ := (s.print "System call: exec()\n".toList,-1)

def syscallTime : ProcessTable × Uint32 := (s.print "System call: time()\n".toList,0#32)

def syscallGetpid : ProcessTable × Uint32 :=
  (s,((s.current_process.bind fun current => s.processes[current]?).map Process.pid).getD 0#32)

def syscallSleep : ProcessTable := s.print "System call: sleep()\n".toList

def syscallMalloc : ProcessTable × Uint32 := (s.print "System call: malloc()\n".toList,0#32)

def syscallFree : ProcessTable := s.print "System call: free()\n".toList

end Stubs

section Handler

-- SYS_EXIT to SYS_FREE
def SystemCall.number : SystemCall → Fin 32
  | .exit => 1
  | .fork => 2
  | .read => 3
  | .write => 4
  | .open_ => 5
  | .close => 6
  | .exec => 7
  | .time => 8
  | .getpid => 9
  | .sleep => 10
  | .malloc => 11
  | .free => 12

abbrev SyscallTable := Vector (Option SystemCall) 32

-- the order in which init_syscalls fills the table
def systemCalls : List SystemCall :=
  [.exit,.fork,.read,.write,.open_,.close,.exec,.time,.getpid,.sleep,.malloc,.free]

def setEntry (table : SyscallTable) (call : SystemCall) : SyscallTable :=
  table.set call.number (some call) call.number.isLt

def initSyscalls (table : SyscallTable) (s : ProcessTable) : SyscallTable × ProcessTable :=
  let s := s.print "System calls are being initialized...\n".toList
  let table := systemCalls.foldl setEntry table
  (table,s.print "System calls are initialized.\n".toList)

-- what the pointers of a call lead to: the text at arg1 and the bytes at arg2
structure Caller where
  text : CString
  bytes : ℕ → Uint8

-- stored is what calls of read have left at their buffers
structure System where
  table : ProcessTable
  stored : List (Uint32 × List Uint8)

def System.withKernel (s : System) (kernel : KernelState) : System :=
  { s with table := { s.table with kernel } }

variable (hooks : Hooks) (alloc : Allocator)

def callFunction (s : System) (arg1 arg2 arg3 : Uint32) (caller : Caller) :
    SystemCall → Option System
  | .exit => (syscallExit s.table).map fun table => { s with table }
  | .fork => some { s with table := (syscallFork s.table).1 }
  | .read => (syscallRead hooks s.table.kernel arg1.toInt arg3).map fun r =>
      { s.withKernel r.1 with stored := s.stored ++ [(arg2,r.2.2)] }
  | .write => (syscallWrite hooks alloc s.table.kernel arg1.toInt caller.bytes arg3).map fun r =>
      s.withKernel r.1
  | .open_ => (syscallOpen hooks alloc s.table.kernel
      (if arg1 = 0#32 then none else some caller.text) arg2).map fun r => s.withKernel r.1
  | .close => (syscallClose hooks s.table.kernel arg1.toInt).map fun r => s.withKernel r.1
  | .exec => some { s with table := (syscallExec s.table).1 }
  | .time => some { s with table := (syscallTime s.table).1 }
  | .getpid => some { s with table := (syscallGetpid s.table).1 }
  | .sleep => some { s with table := syscallSleep s.table }
  | .malloc => some { s with table := (syscallMalloc s.table).1 }
  | .free => some { s with table := syscallFree s.table }

-- a number from 32 on has no entry
def tableEntry (table : SyscallTable) (syscall_num : Uint32) : Option SystemCall :=
  (CArray.get? table syscall_num.toNat).join

def invalidText : CString := "ERROR: Invalid system call!\n".toList

def syscallHandler (table : SyscallTable) (s : System) (syscall_num arg1 arg2 arg3 : Uint32)
    (caller : Caller) : Option System :=
  match tableEntry table syscall_num with
  | none => some { s with table := s.table.print invalidText }
  | some call => callFunction hooks alloc s arg1 arg2 arg3 caller call

inductive Trap where
  | call (syscall_num arg1 arg2 arg3 : Uint32) (caller : Caller)
  | tick

-- interrupts that reach the kernel: system calls and ticks of the scheduler
def trapStep (table : SyscallTable) (s : System) : Trap → Option System
  | .call syscall_num arg1 arg2 arg3 caller =>
    syscallHandler hooks alloc table s syscall_num arg1 arg2 arg3 caller
  | .tick => (schedulerTick s.table).map fun table => { s with table }

end Handler

end KluxOS.Syscall
