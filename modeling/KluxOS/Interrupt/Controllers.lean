import KluxOS.Interrupt.Pic

namespace KluxOS.Interrupt

def picReadIrr : Uint8 := 0x0A#8

def picReadIsr : Uint8 := 0x0B#8

-- irr holds the requests a controller has latched, isr the ones in service
structure Controller where
  pic : Pic
  offset : Uint8
  irr : Uint8
  isr : Uint8
  read_isr : Bool

-- the line with the lowest number comes first
def highest (lines : Uint8) : Option ℕ := (List.range 8).find? fun i => lines.getLsbD i

namespace Controller

-- ICW1 starts the initialization, OCW3 selects a register to read and OCW2 ends a service
def command (c : Controller) (value : Uint8) : Controller :=
  if value &&& icw1Init ≠ 0#8 then
    { c with pic := c.pic.command value, irr := 0#8, isr := 0#8, read_isr := false }
  else if value.getLsbD 3 then
    { c with read_isr := if value.getLsbD 1 then value.getLsbD 0 else c.read_isr }
  else if value &&& 0xE0#8 = picEoi then
    { c with isr := ((highest c.isr).map (clearLine c.isr)).getD c.isr }
  else c

def data (c : Controller) (value : Uint8) : Controller :=
  match c.pic.awaited with
  | .icw2 _ _ => { c with pic := c.pic.data value, offset := value &&& 0xF8#8 }
  | _ => { c with pic := c.pic.data value }

-- a request waits while it is masked or a line before it is in service
def pending (c : Controller) : Option ℕ :=
  (highest (c.irr &&& ~~~c.pic.mask)).filter fun i =>
    ((highest c.isr).map fun j => decide (i < j)).getD true

def acknowledge (c : Controller) (line : ℕ) : Controller :=
  { c with irr := clearLine c.irr line, isr := setLine c.isr line }

end Controller

-- pic1_mask and pic2_mask as in the driver, with both controllers in full
structure Controllers where
  pic1_mask : Uint8
  pic2_mask : Uint8
  primary : Controller
  secondary : Controller

namespace Controllers

section Ports

def outb (port : Uint16) (value : Uint8) (s : Controllers) : Controllers :=
  if port = pic1Command then { s with primary := s.primary.command value }
  else if port = pic1Data then { s with primary := s.primary.data value }
  else if port = pic2Command then { s with secondary := s.secondary.command value }
  else if port = pic2Data then { s with secondary := s.secondary.data value }
  else s

def inb (port : Uint16) (s : Controllers) : Uint8 :=
  if port = pic1Command then if s.primary.read_isr then s.primary.isr else s.primary.irr
  else if port = pic1Data then s.primary.pic.mask
  else if port = pic2Command then if s.secondary.read_isr then s.secondary.isr else s.secondary.irr
  else if port = pic2Data then s.secondary.pic.mask
  else 0xFF#8

def write (writes : List (Uint16 × Uint8)) (s : Controllers) : Controllers :=
  writes.foldl (fun s w => s.outb w.1 w.2) s

end Ports

section Driver

def initWrites (offset1 offset2 : Uint8) : List (Uint16 × Uint8) :=
  [(pic1Command,icw1Init ||| icw1Icw4),(0x80#16,0#8),(pic2Command,icw1Init ||| icw1Icw4),
    (0x80#16,0#8),(pic1Data,offset1),(0x80#16,0#8),(pic2Data,offset2),(0x80#16,0#8),(pic1Data,4#8),
    (0x80#16,0#8),(pic2Data,2#8),(0x80#16,0#8),(pic1Data,icw48086),(0x80#16,0#8),
    (pic2Data,icw48086),(0x80#16,0#8),(pic1Data,0xFF#8),(pic2Data,0xFF#8)]

def eoiWrites (irq : Uint8) : List (Uint16 × Uint8) :=
  (if irq ≥ 8#8 then [(pic2Command,picEoi)] else []) ++ [(pic1Command,picEoi)]

def init (offset1 offset2 : Uint8) (s : Controllers) : Controllers :=
  write (initWrites offset1 offset2)
    { s with pic1_mask := s.inb pic1Data, pic2_mask := s.inb pic2Data }

def sendEoi (irq : Uint8) (s : Controllers) : Controllers := s.write (eoiWrites irq)

def changeMask (change : Uint8 → ℕ → Uint8) (irq : Uint8) (s : Controllers) : Controllers :=
  if irq < 8#8 then
    let s := { s with pic1_mask := change s.pic1_mask irq.toNat }
    s.outb pic1Data s.pic1_mask
  else
    let s := { s with pic2_mask := change s.pic2_mask (irq.toNat - 8) }
    s.outb pic2Data s.pic2_mask

def call (s : Controllers) : PicCall → Controllers
  | .init offset1 offset2 => s.init offset1 offset2
  | .setMask irq => s.changeMask setLine irq
  | .clearMask irq => s.changeMask clearLine irq
  | .disable => s.write [(pic1Data,0xFF#8),(pic2Data,0xFF#8)]

def getRegister (command : Uint8) (s : Controllers) : Controllers × Uint16 :=
  let s := s.write [(pic1Command,command),(pic2Command,command)]
  (s,(s.inb pic2Command).setWidth 16 <<< 8 ||| (s.inb pic1Command).setWidth 16)

def picGetIrr : Controllers → Controllers × Uint16 := getRegister picReadIrr

def picGetIsr : Controllers → Controllers × Uint16 := getRegister picReadIsr

end Driver

section Lines

-- the secondary controller asks through line 2 of the primary one
def pendingLine (s : Controllers) : Option ℕ :=
  match s.secondary.pending with
  | none => s.primary.pending
  | some j => ({ s.primary with irr := setLine s.primary.irr 2 }.pending).map fun i =>
      if i = 2 then 8 + j else i

def acknowledge (line : ℕ) (s : Controllers) : Controllers :=
  if line < 8 then { s with primary := s.primary.acknowledge line }
  else { s with primary := { s.primary with isr := setLine s.primary.isr 2 }
                secondary := s.secondary.acknowledge (line - 8) }

def vector (line : ℕ) (s : Controllers) : Uint8 :=
  if line < 8 then s.primary.offset + BitVec.ofNat 8 line
  else s.secondary.offset + BitVec.ofNat 8 (line - 8)

def changeRequest (change : Uint8 → ℕ → Uint8) (line : ℕ) (s : Controllers) : Controllers :=
  if line < 8 then { s with primary := { s.primary with irr := change s.primary.irr line } }
  else { s with secondary := { s.secondary with irr := change s.secondary.irr (line - 8) } }

-- no device is wired to line 2
def raise (line : ℕ) (s : Controllers) : Controllers :=
  if line = 2 then s else s.changeRequest setLine line

def requested (s : Controllers) (line : ℕ) : Bool :=
  if line < 8 then s.primary.irr.getLsbD line else s.secondary.irr.getLsbD (line - 8)

-- the two masks as the driver's model has them
def picState (s : Controllers) : PicState :=
  ⟨s.pic1_mask,s.pic2_mask,s.primary.pic,s.secondary.pic⟩

end Lines

section Projection

variable (s : Controllers)

theorem command_pic (c : Controller) (value : Uint8) :
    (c.command value).pic = c.pic.command value := by
  rw [Controller.command]
  split_ifs with hinit
  · rfl
  all_goals exact (if_neg hinit).symm

theorem data_pic (c : Controller) (value : Uint8) : (c.data value).pic = c.pic.data value := by
  rw [Controller.data]
  split <;> rfl

theorem outb_picState (port : Uint16) (value : Uint8) :
    (s.outb port value).picState = Interrupt.outb port value s.picState := by
  rw [outb,Interrupt.outb]
  split_ifs
  · rw [picState,command_pic]; rfl
  · rw [picState,data_pic]; rfl
  · rw [picState,command_pic]; rfl
  · rw [picState,data_pic]; rfl
  · rfl

theorem write_picState (writes : List (Uint16 × Uint8)) : (s.write writes).picState =
    writes.foldl (fun s w => Interrupt.outb w.1 w.2 s) s.picState := by
  induction writes generalizing s with
  | nil => rfl
  | cons w writes ih =>
    rw [List.foldl_cons,← outb_picState]
    exact ih (s.outb w.1 w.2)

theorem sendEoi_picState (irq : Uint8) : (s.sendEoi irq).picState = picSendEoi irq s.picState := by
  rw [sendEoi,write_picState,eoiWrites,picSendEoi]
  split <;> rfl

theorem changeMask_picState (change : Uint8 → ℕ → Uint8) (irq : Uint8) :
    (s.changeMask change irq).picState = picChangeMask change irq s.picState := by
  rw [changeMask,picChangeMask]
  split <;> exact outb_picState _ _ _

-- each driver call does to the masks what the model of the masks alone does
theorem call_picState (c : PicCall) : picStep s.picState c = some (s.call c).picState := by
  cases c with
  | init offset1 offset2 => rw [call,init,write_picState]; rfl
  | setMask irq => rw [call,changeMask_picState]; rfl
  | clearMask irq => rw [call,changeMask_picState]; rfl
  | disable => rw [call,write_picState]; rfl

end Projection

end Controllers

end KluxOS.Interrupt
