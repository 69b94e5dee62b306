import KluxOS.Drivers.PrintNumbers
import KluxOS.Interrupt.Pic

namespace KluxOS.Interrupt

open CArray

structure Registers where
  eax : Uint32
  ecx : Uint32
  edx : Uint32
  ebx : Uint32
  ebp : Uint32
  esi : Uint32
  edi : Uint32
  ds : Uint16
  es : Uint16
  fs : Uint16
  gs : Uint16

-- stack holds one word at each address the stack pointer reaches
structure Machine where
  regs : Registers
  esp : Uint32
  stack : Uint32 → Uint32
  interrupts_enabled : Bool

inductive Segment where
  | ds
  | es
  | fs
  | gs
deriving DecidableEq

inductive CFunction where
  | isrHandler
  | irqHandler
deriving DecidableEq

-- the instructions of interrupt.s; call is the call of a C function
inductive Instr where
  | cli
  | push (value : Uint32)
  | pusha
  | pushSegment (segment : Segment)
  | movAx (value : Uint16)
  | movSegmentAx (segment : Segment)
  | movEaxStack (offset : Uint32)
  | subEax (value : Uint32)
  | pushEax
  | pushEsp
  | call (f : CFunction)
  | addEsp (value : Uint32)
  | popSegment (segment : Segment)
  | popa
deriving DecidableEq

section Handlers

abbrev HandlerTable := Vector Uint32 256

inductive HandlerEvent where
  | handler (address error_code : Uint32)
  | print (text : CString)
  | eoi (irq : Uint8)

def unhandledText (int_no err_code : Uint32) : CString :=
  "Islenmeyen kesme: ".toList ++ intText int_no ++ " (Hata kodu: ".toList ++ intText err_code ++
    ")\n".toList

-- none is a read past the 256 entries of interrupt_handlers
def isrHandler (interrupt_handlers : HandlerTable) (int_no err_code : Uint32) :
    Option (List HandlerEvent) := do
  let handler ← get? interrupt_handlers int_no.toNat
  if handler ≠ 0#32 then some [.handler handler err_code]
  else some [.print (unhandledText int_no err_code)]

def irqHandler (interrupt_handlers : HandlerTable) (irq_no : Uint32) :
    Option (List HandlerEvent) := do
  let handler ← get? interrupt_handlers (irq_no + 32#32).toNat
  let called := if handler ≠ 0#32 then [.handler handler 0#32] else []
  some (called ++ [.eoi (irq_no.setWidth 8)])

end Handlers

section Exec

-- a compiled C function returns to its caller and keeps the 20 words above the return address:
-- its arguments, the saved registers and the frame the CPU pushed
structure Callee where
  run : Machine → Machine
  returns : ∀ m, (run m).esp = m.esp + 4#32
  keeps : ∀ m i, i < 20 → (run m).stack (m.esp + 4#32 + BitVec.ofNat 32 (4 * i)) =
    m.stack (m.esp + 4#32 + BitVec.ofNat 32 (4 * i))

structure Kernel where
  interrupt_handlers : HandlerTable
  callee : CFunction → Callee
  return_address : Uint32

structure Exec where
  machine : Machine
  events : List HandlerEvent

namespace Registers

def segment (r : Registers) : Segment → Uint16
  | .ds => r.ds
  | .es => r.es
  | .fs => r.fs
  | .gs => r.gs

def setSegment (r : Registers) (value : Uint16) : Segment → Registers
  | .ds => { r with ds := value }
  | .es => { r with es := value }
  | .fs => { r with fs := value }
  | .gs => { r with gs := value }

end Registers

namespace Machine

def word (m : Machine) (i : ℕ) : Uint32 := m.stack (m.esp + BitVec.ofNat 32 (4 * i))

def push (m : Machine) (value : Uint32) : Machine :=
  { m with esp := m.esp - 4#32, stack := Function.update m.stack (m.esp - 4#32) value }

def addEsp (m : Machine) (value : Uint32) : Machine := { m with esp := m.esp + value }

def pusha (m : Machine) : Machine :=
  let r := m.regs
  (((((((m.push r.eax).push r.ecx).push r.edx).push r.ebx).push m.esp).push r.ebp).push
    r.esi).push r.edi

-- the saved stack pointer is skipped
def popa (m : Machine) : Machine :=
  { m with
    regs := { m.regs with edi := m.word 0, esi := m.word 1, ebp := m.word 2, ebx := m.word 4
                          edx := m.word 5, ecx := m.word 6, eax := m.word 7 }
    esp := m.esp + 32#32 }

def pushSegment (m : Machine) (segment : Segment) : Machine :=
  m.push ((m.regs.segment segment).setWidth 32)

def popSegment (m : Machine) (segment : Segment) : Machine :=
  { m with regs := m.regs.setSegment ((m.word 0).setWidth 16) segment, esp := m.esp + 4#32 }

def setEax (m : Machine) (value : Uint32) : Machine :=
  { m with regs := { m.regs with eax := value } }

def movAx (m : Machine) (value : Uint16) : Machine :=
  m.setEax (m.regs.eax &&& ~~~0xFFFF#32 ||| value.setWidth 32)

def movSegmentAx (m : Machine) (segment : Segment) : Machine :=
  { m with regs := m.regs.setSegment (m.regs.eax.setWidth 16) segment }

end Machine

variable (kernel : Kernel)

-- the arguments lie at the stack pointer when the call is made
def callEvents (m : Machine) : CFunction → Option (List HandlerEvent)
  | .isrHandler => isrHandler kernel.interrupt_handlers (m.word 0) (m.word 1)
  | .irqHandler => irqHandler kernel.interrupt_handlers (m.word 0)

def exec (e : Exec) : Instr → Option Exec
  | .cli => some { e with machine := { e.machine with interrupts_enabled := false } }
  | .push value => some { e with machine := e.machine.push value }
  | .pusha => some { e with machine := e.machine.pusha }
  | .pushSegment segment => some { e with machine := e.machine.pushSegment segment }
  | .movAx value => some { e with machine := e.machine.movAx value }
  | .movSegmentAx segment => some { e with machine := e.machine.movSegmentAx segment }
  | .movEaxStack offset =>
    some { e with machine := e.machine.setEax (e.machine.stack (e.machine.esp + offset)) }
  | .subEax value => some { e with machine := e.machine.setEax (e.machine.regs.eax - value) }
  | .pushEax => some { e with machine := e.machine.push e.machine.regs.eax }
  | .pushEsp => some { e with machine := e.machine.push e.machine.esp }
  | .call f => do
    let events ← callEvents kernel e.machine f
    some ⟨(kernel.callee f).run (e.machine.push kernel.return_address),e.events ++ events⟩
  | .addEsp value => some { e with machine := e.machine.addEsp value }
  | .popSegment segment => some { e with machine := e.machine.popSegment segment }
  | .popa => some { e with machine := e.machine.popa }

end Exec

section Stubs

def saveRegisters : List Instr :=
  [.pusha,.pushSegment .ds,.pushSegment .es,.pushSegment .fs,.pushSegment .gs,
    .movAx 0x10#16,.movSegmentAx .ds,.movSegmentAx .es,.movSegmentAx .fs,.movSegmentAx .gs]

def restoreRegisters : List Instr :=
  [.addEsp 4#32,.popSegment .gs,.popSegment .fs,.popSegment .es,.popSegment .ds,.popa,.addEsp 8#32]

-- up to iret
def isrCommon : List Instr :=
  saveRegisters ++ [.pushEsp,.call .isrHandler] ++ restoreRegisters

def irqCommon : List Instr :=
  saveRegisters ++ [.movEaxStack 48#32,.subEax 32#32,.pushEax,.call .irqHandler] ++ restoreRegisters

def isrErrcode (num : Uint32) : List Instr := [.cli,.push num] ++ isrCommon

def isrNoerrcode (num : Uint32) : List Instr := [.cli,.push 0#32,.push num] ++ isrCommon

def irq (irqnum : Uint32) : List Instr := [.cli,.push 0#32,.push irqnum] ++ irqCommon

-- isr0 to isr31, then irq0 to irq15
def stubs : Vector (List Instr) 48 :=
  #v[isrNoerrcode 0#32,isrNoerrcode 1#32,isrNoerrcode 2#32,isrNoerrcode 3#32,isrNoerrcode 4#32,
    isrNoerrcode 5#32,isrNoerrcode 6#32,isrNoerrcode 7#32,isrErrcode 8#32,isrNoerrcode 9#32,
    isrErrcode 10#32,isrErrcode 11#32,isrErrcode 12#32,isrErrcode 13#32,isrErrcode 14#32,
    isrNoerrcode 15#32,isrNoerrcode 16#32,isrErrcode 17#32,isrNoerrcode 18#32,isrNoerrcode 19#32,
    isrNoerrcode 20#32,isrNoerrcode 21#32,isrNoerrcode 22#32,isrNoerrcode 23#32,isrNoerrcode 24#32,
    isrNoerrcode 25#32,isrNoerrcode 26#32,isrNoerrcode 27#32,isrNoerrcode 28#32,isrNoerrcode 29#32,
    isrErrcode 30#32,isrNoerrcode 31#32,irq 32#32,irq 33#32,irq 34#32,irq 35#32,irq 36#32,irq 37#32,
    irq 38#32,irq 39#32,irq 40#32,irq 41#32,irq 42#32,irq 43#32,irq 44#32,irq 45#32,irq 46#32,
    irq 47#32]

end Stubs

end KluxOS.Interrupt
