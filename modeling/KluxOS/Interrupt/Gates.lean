import KluxOS.Interrupt.Idt
import KluxOS.Lib.ByteOrder
import KluxOS.Lib.StackWords

namespace KluxOS.Interrupt

open ByteOrder CArray StackWords

structure IdtEntry where
  base_low : Uint16
  selector : Uint16
  reserved : Uint8
  flags : Uint8
  base_high : Uint16

structure IdtPtr where
  limit : Uint16
  base : Uint32

-- stub n is the address of one of isr0 to isr31 and irq0 to irq15
structure Linked where
  idt_entries : Uint32
  stub : Fin 48 → Uint32

-- idtr is what lidt loaded
structure IdtState where
  idt_entries : Vector IdtEntry 256
  idt_ptr : IdtPtr
  interrupt_handlers : HandlerTable
  pic : PicState
  idtr : IdtPtr
  interrupts_enabled : Bool
  terminal : CString

section Driver

def idtFlagPresent : Uint8 := 0x80#8

def idtFlagRing0 : Uint8 := 0x00#8

def idtFlagRing3 : Uint8 := 0x60#8

def idtFlag32bit : Uint8 := 0x0E#8

def idtFlagTrap : Uint8 := 0x0F#8

def idtSetGate (num : Uint8) (base : Uint32) (selector : Uint16) (flags : Uint8) (s : IdtState) :
    IdtState :=
  let entry : IdtEntry :=
    { base_low := (base &&& 0xFFFF#32).setWidth 16
      base_high := (base >>> 16 &&& 0xFFFF#32).setWidth 16
      selector := selector
      reserved := 0#8
      flags := flags }
  { s with idt_entries := s.idt_entries.set num.toFin entry num.toFin.isLt }

def setHandler (handlers : HandlerTable) (num : Uint8) (handler : Uint32) : HandlerTable :=
  handlers.set num.toFin handler num.toFin.isLt

def registerInterruptHandler (num : Uint8) (handler : Uint32) (s : IdtState) : IdtState :=
  { s with interrupt_handlers := setHandler s.interrupt_handlers num handler }

def IdtState.print (s : IdtState) (text : CString) : IdtState :=
  { s with terminal := s.terminal ++ text }

variable (linked : Linked)

-- idt_set_gate(n, stub n, 0x08, IDT_FLAG_PRESENT | IDT_FLAG_RING0 | IDT_FLAG_32BIT)
def setStub (s : IdtState) (n : Fin 48) : IdtState :=
  idtSetGate (BitVec.ofNat 8 n.val) (linked.stub n) 0x08#16
    (idtFlagPresent ||| idtFlagRing0 ||| idtFlag32bit) s

def idtInit (s : IdtState) : IdtState :=
  let s := s.print "Kesme sistemi baslatiliyor...\n".toList
  let s := { s with idt_ptr := ⟨8#16 * 256#16 - 1#16,linked.idt_entries⟩ }
  let s := { s with idt_entries := Vector.replicate 256 ⟨0#16,0#16,0#8,0#8,0#16⟩ }
  let s := ((List.finRange 48).take 32).foldl (setStub linked) s
  let s := { s with pic := picInit 0x20#8 0x28#8 s.pic }
  let s := ((List.finRange 48).drop 32).foldl (setStub linked) s
  let s := { s with idtr := s.idt_ptr }
  let s := { s with interrupts_enabled := true }
  s.print "Kesme sistemi baslatildi.\n".toList

inductive IdtCall where
  | init
  | setGate (num : Uint8) (base : Uint32) (selector : Uint16) (flags : Uint8)
  | registerHandler (num : Uint8) (handler : Uint32)

def idtStep (s : IdtState) : IdtCall → IdtState
  | .init => idtInit linked s
  | .setGate num base selector flags => idtSetGate num base selector flags s
  | .registerHandler num handler => registerInterruptHandler num handler s

end Driver

section Processor

inductive GateType where
  | task
  | interrupt16
  | trap16
  | interrupt32
  | trap32
deriving DecidableEq

structure Gate where
  type : GateType
  selector : Uint16
  offset : Uint32
  ring : BitVec 2
deriving DecidableEq

-- a system descriptor of another type raises a fault
def gateType (flags : Uint8) : Option GateType :=
  let type := flags &&& 0x1F#8
  if type = 0x05#8 then some .task
  else if type = 0x06#8 then some .interrupt16
  else if type = 0x07#8 then some .trap16
  else if type = 0x0E#8 then some .interrupt32
  else if type = 0x0F#8 then some .trap32
  else none

-- a task gate has no offset, and a 16-bit gate the low half of one
def GateType.reached (type : GateType) (offset : Uint32) : Uint32 :=
  match type with
  | .task => 0#32
  | .interrupt16 => offset &&& 0xFFFF#32
  | .trap16 => offset &&& 0xFFFF#32
  | .interrupt32 => offset
  | .trap32 => offset

-- what the processor makes of an entry that is present
def gateOf (selector : Uint16) (offset : Uint32) (flags : Uint8) : Option Gate :=
  if flags.getLsbD 7 then
    (gateType flags).map fun type =>
      ⟨type,selector,type.reached offset,(flags >>> 5).setWidth 2⟩
  else none

-- the entry of a vector is eight bytes long and must lie below the limit
def cpuGate (memory : Uint32 → Uint8) (idtr : IdtPtr) (vector : Uint8) : Option Gate :=
  let byte (i : ℕ) := memory (idtr.base + BitVec.ofNat 32 (8 * vector.toNat) + BitVec.ofNat 32 i)
  if 8 * vector.toNat + 7 ≤ idtr.limit.toNat then
    gateOf (byte 3 ++ byte 2) ((byte 7 ++ byte 6) ++ (byte 1 ++ byte 0)) (byte 5)
  else none

def wordBytes (word : Uint16) : List Uint8 := [word.setWidth 8,(word >>> 8).setWidth 8]

-- the packed layout of idt_entry_t
def IdtEntry.bytes (e : IdtEntry) : List Uint8 :=
  wordBytes e.base_low ++ wordBytes e.selector ++ [e.reserved,e.flags] ++ wordBytes e.base_high

def TableAt (memory : Uint32 → Uint8) (base : Uint32) (entries : Vector IdtEntry 256) : Prop :=
  Holds 1 memory base (entries.toList.flatMap IdtEntry.bytes)

end Processor

section Gates

-- the gates a kernel means to have, by vector
abbrev Gates := Uint8 → Option Gate

variable (linked : Linked)

def bootGates : Gates := fun vector =>
  if h : vector.toNat < 48 then some ⟨.interrupt32,0x08#16,linked.stub ⟨vector.toNat,h⟩,0#2⟩
  else none

def gatesStep (g : Gates) : IdtCall → Gates
  | .init => bootGates linked
  | .setGate num base selector flags => Function.update g num (gateOf selector base flags)
  | .registerHandler _ _ => g

def IdtEntry.gate (e : IdtEntry) : Option Gate :=
  gateOf e.selector (e.base_high ++ e.base_low) e.flags

structure Loaded (s : IdtState) (g : Gates) : Prop where
  idtr : s.idtr = ⟨2047#16,linked.idt_entries⟩
  gates : ∀ vector : Uint8, (s.idt_entries.get vector.toFin).gate = g vector

variable {linked} {s : IdtState} {g : Gates} {memory : Uint32 → Uint8} {base : Uint32}
  {entries : Vector IdtEntry 256}

theorem bytes_length (e : IdtEntry) : e.bytes.length = 8 := rfl

theorem wordBytes_append (word : Uint16) :
    (word >>> 8).setWidth 8 ++ word.setWidth 8 = word := append_halves (m := 8) (n := 8) word

theorem mask_low (base : Uint32) : (base &&& 0xFFFF#32).setWidth 16 = base.setWidth 16 := by
  rw [BitVec.setWidth_and]
  exact BitVec.and_allOnes

theorem base_append (base : Uint32) :
    (base >>> 16 &&& 0xFFFF#32).setWidth 16 ++ (base &&& 0xFFFF#32).setWidth 16 = base := by
  rw [mask_low,mask_low]
  exact append_halves (m := 16) (n := 16) base

-- the processor puts an entry together from its eight bytes
theorem cpuGate_entry (h : TableAt memory base entries) (vector : Uint8) :
    cpuGate memory ⟨2047#16,base⟩ vector = (entries.get vector.toFin).gate := by
  have hentry : entries.toList[vector.toNat]? = some (entries.get vector.toFin) := by
    rw [toList_get?]
    exact get?_eq entries vector.toFin.isLt rfl
  have hbytes := Holds.record h bytes_length hentry
  rw [Nat.one_mul] at hbytes
  have hbyte : ∀ i b, (entries.get vector.toFin).bytes[i]? = some b →
      memory (base + BitVec.ofNat 32 (8 * vector.toNat) + BitVec.ofNat 32 i) = b := by
    intro i b hb
    have hi := hbytes i b hb
    rwa [Nat.one_mul] at hi
  have hlimit : 8 * vector.toNat + 7 ≤ (2047#16).toNat := by
    have hlt := vector.isLt
    have h2047 : (2047#16).toNat = 2047 := rfl
    omega
  simp only [cpuGate]
  rw [if_pos hlimit,hbyte 0 _ rfl,hbyte 1 _ rfl,hbyte 2 _ rfl,hbyte 3 _ rfl,hbyte 5 _ rfl,
    hbyte 6 _ rfl,hbyte 7 _ rfl,wordBytes_append,wordBytes_append,wordBytes_append]
  rfl

theorem idtSetGate_gate (num : Uint8) (base : Uint32) (selector : Uint16) (flags : Uint8)
    (s : IdtState) (vector : Uint8) :
    ((idtSetGate num base selector flags s).idt_entries.get vector.toFin).gate =
      if vector = num then gateOf selector base flags
      else (s.idt_entries.get vector.toFin).gate := by
  have hsame : vector.toFin = num.toFin ↔ vector = num := BitVec.toFin_inj
  rw [idtSetGate,get_set]
  simp only [hsame]
  split
  · rw [IdtEntry.gate]
    simp only [base_append]
  · rfl

theorem bootGates_stub (n : Fin 48) {vector : Uint8} (h : vector.toNat = n.val) :
    bootGates linked vector = some ⟨.interrupt32,0x08#16,linked.stub n,0#2⟩ := by
  rw [bootGates,dif_pos (h.trans_lt n.isLt)]
  have hn : (⟨vector.toNat,h.trans_lt n.isLt⟩ : Fin 48) = n := Fin.ext h
  rw [hn]

theorem setStub_gate (s : IdtState) (n : Fin 48) (vector : Uint8) :
    ((setStub linked s n).idt_entries.get vector.toFin).gate =
      if vector.toNat = n.val then bootGates linked vector
      else (s.idt_entries.get vector.toFin).gate := by
  have hvector : vector = BitVec.ofNat 8 n.val ↔ vector.toNat = n.val := by
    rw [← BitVec.toNat_inj,BitVec.toNat_ofNat,Nat.mod_eq_of_lt (by omega)]
  rw [setStub,idtSetGate_gate]
  refine if_ctx_congr hvector (fun h => ?_) fun _ => rfl
  rw [bootGates_stub n h]
  rfl

theorem setStubs_gate (l : List (Fin 48)) (s : IdtState) (vector : Uint8) :
    ((l.foldl (setStub linked) s).idt_entries.get vector.toFin).gate =
      if vector.toNat ∈ l.map Fin.val then bootGates linked vector
      else (s.idt_entries.get vector.toFin).gate := by
  induction l generalizing s with
  | nil => rw [List.map_nil,if_neg List.not_mem_nil,List.foldl_nil]
  | cons n l ih =>
    rw [List.foldl_cons,ih,setStub_gate,List.map_cons]
    by_cases hl : vector.toNat ∈ l.map Fin.val
    · rw [if_pos hl,if_pos (List.mem_cons_of_mem _ hl)]
    · rw [if_neg hl]
      exact if_congr (by simp [hl]) rfl rfl

theorem setStubs_keep (l : List (Fin 48)) (s : IdtState) :
    (l.foldl (setStub linked) s).idt_ptr = s.idt_ptr ∧
      (l.foldl (setStub linked) s).interrupt_handlers = s.interrupt_handlers := by
  induction l generalizing s with
  | nil => exact ⟨rfl,rfl⟩
  | cons n l ih => exact ih (setStub linked s n)

theorem exceptions_below : ((List.finRange 48).take 32).map Fin.val = List.range 32 := by decide

theorem lines_above : ((List.finRange 48).drop 32).map Fin.val = List.range' 32 16 := by decide

variable (linked) in
theorem idtInit_loaded (s : IdtState) : Loaded linked (idtInit linked s) (bootGates linked) := by
  constructor
  · simp only [idtInit,IdtState.print,setStubs_keep]
    rfl
  · intro vector
    simp only [idtInit,IdtState.print]
    rw [setStubs_gate,lines_above]
    dsimp only
    rw [setStubs_gate,exceptions_below]
    split_ifs with hline hexception
    · rfl
    · rfl
    · rw [List.mem_range'_1] at hline
      rw [List.mem_range] at hexception
      rw [bootGates,dif_neg (by omega),get_eq_getElem,Vector.getElem_replicate]
      rfl

theorem idtStep_loaded (h : Loaded linked s g) (c : IdtCall) :
    Loaded linked (idtStep linked s c) (gatesStep linked g c) := by
  cases c with
  | init => exact idtInit_loaded linked s
  | setGate num base selector flags =>
    refine ⟨h.idtr,fun vector => ?_⟩
    rw [idtStep,idtSetGate_gate,gatesStep,Function.update_apply,h.gates]
  | registerHandler num handler => exact ⟨h.idtr,h.gates⟩

theorem idtRun_loaded (h : Loaded linked s g) (calls : List IdtCall) :
    Loaded linked (calls.foldl (idtStep linked) s) (calls.foldl (gatesStep linked) g) := by
  induction calls generalizing s g with
  | nil => exact h
  | cons c calls ih => exact ih (idtStep_loaded h c)

theorem idt_gates_decoded (linked : Linked) (s : IdtState) (calls : List IdtCall)
    (memory : Uint32 → Uint8)
    (h : TableAt memory linked.idt_entries
      (calls.foldl (idtStep linked) (idtInit linked s)).idt_entries) (vector : Uint8) :
    cpuGate memory (calls.foldl (idtStep linked) (idtInit linked s)).idtr vector =
      calls.foldl (gatesStep linked) (bootGates linked) vector := by
  have hloaded := idtRun_loaded (idtInit_loaded linked s) calls
  rw [hloaded.idtr,cpuGate_entry h,hloaded.gates]

-- stubs of sixteen bytes each, and the table behind the kernel
def linkedAtBoot : Linked := ⟨0x300000#32,fun n => 0x100000#32 + 16#32 * BitVec.ofNat 32 n.val⟩

def unloadedIdt : IdtState where
  idt_entries := Vector.replicate 256 ⟨0#16,0#16,0#8,0#8,0#16⟩
  idt_ptr := ⟨0#16,0#32⟩
  interrupt_handlers := Vector.replicate 256 0#32
  pic := ⟨0xFF#8,0xFF#8,⟨0xB8#8,.none⟩,⟨0x8E#8,.none⟩⟩
  idtr := ⟨0x3FF#16,0#32⟩
  interrupts_enabled := false
  terminal := []

def tableMemory (base : Uint32) (entries : Vector IdtEntry 256) : Uint32 → Uint8 := fun a =>
  (entries.toList.flatMap IdtEntry.bytes)[(a - base).toNat]?.getD 0#8

theorem tableMemory_at (base : Uint32) (entries : Vector IdtEntry 256) :
    TableAt (tableMemory base entries) base entries := by
  have hlen := length_records bytes_length entries.toList
  rw [Vector.length_toList] at hlen
  exact holds_placed 0#8 (by rw [hlen]; decide)

-- a trap gate for user programs in the place of the stub
theorem idt_gates_decoded_breakpoint :
    let calls : List IdtCall := [.registerHandler 0x80#8 0x101000#32,.setGate 3#8 0x204080#32
      0x08#16 (idtFlagPresent ||| idtFlagRing3 ||| idtFlagTrap)]
    let t := calls.foldl (idtStep linkedAtBoot) (idtInit linkedAtBoot unloadedIdt)
    cpuGate (tableMemory 0x300000#32 t.idt_entries) t.idtr 3#8 =
      some ⟨.trap32,0x08#16,0x204080#32,3#2⟩ :=
  idt_gates_decoded linkedAtBoot unloadedIdt _ _ (tableMemory_at _ _) 3#8

end Gates

end KluxOS.Interrupt
