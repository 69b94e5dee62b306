import KluxOS.Kernel.Types
import KluxOS.Lib.Bitmap
import KluxOS.Lib.Run

namespace KluxOS.Interrupt

open Run

def pic1Command : Uint16 := 0x20#16

def pic1Data : Uint16 := 0x21#16

def pic2Command : Uint16 := 0xA0#16

def pic2Data : Uint16 := 0xA1#16

def picEoi : Uint8 := 0x20#8

def icw1Icw4 : Uint8 := 0x01#8

def icw1Single : Uint8 := 0x02#8

def icw1Init : Uint8 := 0x10#8

def icw48086 : Uint8 := 0x01#8

-- the initialization words a controller still waits for on its data port
inductive Awaited where
  | none
  | icw2 (single icw4 : Bool)
  | icw3 (icw4 : Bool)
  | icw4
deriving DecidableEq

structure Pic where
  mask : Uint8
  awaited : Awaited
deriving DecidableEq

namespace Pic

-- ICW1 starts the initialization and clears the mask; the other commands leave both alone
def command (p : Pic) (value : Uint8) : Pic :=
  if value &&& icw1Init ≠ 0#8 then
    { mask := 0#8
      awaited := .icw2 (decide (value &&& icw1Single ≠ 0#8)) (decide (value &&& icw1Icw4 ≠ 0#8)) }
  else p

def data (p : Pic) (value : Uint8) : Pic :=
  match p.awaited with
  | .none => { p with mask := value }
  | .icw2 single icw4 =>
    { p with awaited := if single then (if icw4 then .icw4 else .none) else .icw3 icw4 }
  | .icw3 icw4 => { p with awaited := if icw4 then .icw4 else .none }
  | .icw4 => { p with awaited := .none }

end Pic

-- pic1_mask and pic2_mask are the driver's copies of the two hardware masks
structure PicState where
  pic1_mask : Uint8
  pic2_mask : Uint8
  primary : Pic
  secondary : Pic
deriving DecidableEq

section Driver

def outb (port : Uint16) (value : Uint8) (s : PicState) : PicState :=
  if port = pic1Command then { s with primary := s.primary.command value }
  else if port = pic1Data then { s with primary := s.primary.data value }
  else if port = pic2Command then { s with secondary := s.secondary.command value }
  else if port = pic2Data then { s with secondary := s.secondary.data value }
  else s

def ioWait (s : PicState) : PicState := outb 0x80#16 0#8 s

def picInit (offset1 offset2 : Uint8) (s : PicState) : PicState :=
  let s := { s with pic1_mask := s.primary.mask }
  let s := { s with pic2_mask := s.secondary.mask }
  let s := ioWait (outb pic1Command (icw1Init ||| icw1Icw4) s)
  let s := ioWait (outb pic2Command (icw1Init ||| icw1Icw4) s)
  let s := ioWait (outb pic1Data offset1 s)
  let s := ioWait (outb pic2Data offset2 s)
  let s := ioWait (outb pic1Data 4#8 s)
  let s := ioWait (outb pic2Data 2#8 s)
  let s := ioWait (outb pic1Data icw48086 s)
  let s := ioWait (outb pic2Data icw48086 s)
  let s := outb pic1Data 0xFF#8 s
  outb pic2Data 0xFF#8 s

def picSendEoi (irq : Uint8) (s : PicState) : PicState :=
  let s := if irq ≥ 8#8 then outb pic2Command picEoi s else s
  outb pic1Command picEoi s

-- the port of the line's controller gets the changed copy of its mask
def picChangeMask (change : Uint8 → ℕ → Uint8) (irq : Uint8) (s : PicState) : PicState :=
  if irq < 8#8 then
    let s := { s with pic1_mask := change s.pic1_mask irq.toNat }
    outb pic1Data s.pic1_mask s
  else
    let s := { s with pic2_mask := change s.pic2_mask (irq.toNat - 8) }
    outb pic2Data s.pic2_mask s

def setLine (mask : Uint8) (line : ℕ) : Uint8 := mask ||| 1#8 <<< line

def clearLine (mask : Uint8) (line : ℕ) : Uint8 := mask &&& ~~~(1#8 <<< line)

def picSetMask : Uint8 → PicState → PicState := picChangeMask setLine

def picClearMask : Uint8 → PicState → PicState := picChangeMask clearLine

def picDisable (s : PicState) : PicState := outb pic2Data 0xFF#8 (outb pic1Data 0xFF#8 s)

end Driver

inductive PicCall where
  | init (offset1 offset2 : Uint8)
  | setMask (irq : Uint8)
  | clearMask (irq : Uint8)
  | disable

def picStep (s : PicState) : PicCall → Option PicState
  | .init offset1 offset2 => some (picInit offset1 offset2 s)
  | .setMask irq => some (picSetMask irq s)
  | .clearMask irq => some (picClearMask irq s)
  | .disable => some (picDisable s)

section Lines

def masked (s : PicState) (line : ℕ) : Bool :=
  if line < 8 then s.primary.mask.getLsbD line else s.secondary.mask.getLsbD (line - 8)

structure Synced (s : PicState) : Prop where
  primary : s.pic1_mask = s.primary.mask
  secondary : s.pic2_mask = s.secondary.mask

-- a call on one line changes that line as it says and no other
def OneLine (s t : PicState) : PicCall → Prop
  | .setMask irq => irq.toNat < 16 →
      ∀ line < 16, masked t line = (masked s line || decide (line = irq.toNat))
  | .clearMask irq => irq.toNat < 16 →
      ∀ line < 16, masked t line = (masked s line && !decide (line = irq.toNat))
  | _ => True

def Faithful (s : PicState) (c : PicCall) (result : Option PicState) : Prop :=
  ∀ t, result = some t → Synced t ∧ OneLine s t c

-- every line is masked when the controllers are initialized or disabled
def AllMasked (s : PicState) : PicCall → Prop
  | .init _ _ => s.primary.mask = 0xFF#8 ∧ s.secondary.mask = 0xFF#8
  | .disable => s.pic1_mask = 0xFF#8 ∧ s.pic2_mask = 0xFF#8
  | _ => True

structure Ready (s : PicState) : Prop where
  primary : s.primary.awaited = .none
  secondary : s.secondary.awaited = .none

variable {s : PicState}

theorem data_ready {p : Pic} (h : p.awaited = .none) (value : Uint8) :
    p.data value = ⟨value,.none⟩ := by
  rw [Pic.data,h]

-- whatever the controllers waited for, the four words are taken and the mask write comes after
theorem picInit_eq (offset1 offset2 : Uint8) (s : PicState) : picInit offset1 offset2 s =
    ⟨s.primary.mask,s.secondary.mask,⟨0xFF#8,.none⟩,⟨0xFF#8,.none⟩⟩ := rfl

theorem picInit_ready (offset1 offset2 : Uint8) (s : PicState) :
    Ready (picInit offset1 offset2 s) := by
  rw [picInit_eq]
  exact ⟨rfl,rfl⟩

-- OCW2 is no initialization word: an end of interrupt leaves both masks alone
theorem picSendEoi_eq (irq : Uint8) (s : PicState) : picSendEoi irq s = s := by
  rw [picSendEoi]
  split <;> rfl

theorem picChangeMask_eq (h : Ready s) (change : Uint8 → ℕ → Uint8) (irq : Uint8) :
    picChangeMask change irq s =
      if irq < 8#8 then
        { s with pic1_mask := change s.pic1_mask irq.toNat
                 primary := ⟨change s.pic1_mask irq.toNat,.none⟩ }
      else
        { s with pic2_mask := change s.pic2_mask (irq.toNat - 8)
                 secondary := ⟨change s.pic2_mask (irq.toNat - 8),.none⟩ } := by
  rw [picChangeMask,← data_ready h.primary,← data_ready h.secondary]
  rfl

theorem picDisable_eq (h : Ready s) : picDisable s =
    { s with primary := ⟨0xFF#8,.none⟩, secondary := ⟨0xFF#8,.none⟩ } := by
  change { s with primary := s.primary.data 0xFF#8, secondary := s.secondary.data 0xFF#8 } = _
  rw [data_ready h.primary,data_ready h.secondary]

theorem setLine_get {m : Uint8} {i j : ℕ} (hj : j < 8) :
    (setLine m i).getLsbD j = (m.getLsbD j || decide (j = i)) := by
  rw [setLine,BitVec.getLsbD_or,Bitmap.mask_getLsbD hj]

theorem clearLine_get {m : Uint8} {i j : ℕ} (hj : j < 8) :
    (clearLine m i).getLsbD j = (m.getLsbD j && !decide (j = i)) := by
  rw [clearLine,BitVec.getLsbD_and,BitVec.getLsbD_not,Bitmap.mask_getLsbD hj,decide_eq_true hj,
    Bool.true_and]

theorem picChangeMask_ready (h : Ready s) (change : Uint8 → ℕ → Uint8) (irq : Uint8) :
    Ready (picChangeMask change irq s) := by
  rw [picChangeMask_eq h]
  split
  · exact ⟨rfl,h.secondary⟩
  · exact ⟨h.primary,rfl⟩

-- a change of one bit of the copy is that change of one line of the hardware, the copies agreeing
theorem picChangeMask_spec (h : Synced s) (hready : Ready s) {change : Uint8 → ℕ → Uint8}
    {f : Bool → Bool → Bool} (hf : ∀ {m i j}, j < 8 →
      (change m i).getLsbD j = f (m.getLsbD j) (decide (j = i))) (hkeep : ∀ b, f b false = b)
    (irq : Uint8) : Synced (picChangeMask change irq s) ∧
      (irq.toNat < 16 → ∀ line < 16,
        masked (picChangeMask change irq s) line = f (masked s line) (decide (line = irq.toNat))) := by
  have hlt : irq < 8#8 ↔ irq.toNat < 8 := BitVec.lt_def
  rw [picChangeMask_eq hready]
  by_cases hirq : irq < 8#8
  · rw [if_pos hirq]
    rw [hlt] at hirq
    refine ⟨⟨rfl,h.secondary⟩,fun _ line hline => ?_⟩
    by_cases hlow : line < 8
    · rw [masked,if_pos hlow,masked,if_pos hlow,← h.primary]
      exact hf hlow
    · rw [masked,if_neg hlow,masked,if_neg hlow,decide_eq_false (by omega),hkeep]
  · rw [if_neg hirq]
    rw [hlt] at hirq
    refine ⟨⟨h.primary,rfl⟩,fun _ line hline => ?_⟩
    by_cases hlow : line < 8
    · rw [masked,if_pos hlow,masked,if_pos hlow,decide_eq_false (by omega),hkeep]
    · have hsame : decide (line - 8 = irq.toNat - 8) = decide (line = irq.toNat) :=
        decide_eq_decide.mpr (by omega)
      rw [masked,if_neg hlow,masked,if_neg hlow,← h.secondary,← hsame]
      exact hf (by omega)

theorem picSetMask_spec (h : Synced s) (hready : Ready s) (irq : Uint8) :
    Synced (picSetMask irq s) ∧ OneLine s (picSetMask irq s) (.setMask irq) :=
  picChangeMask_spec h hready (fun hj => setLine_get hj) Bool.or_false irq

theorem picClearMask_spec (h : Synced s) (hready : Ready s) (irq : Uint8) :
    Synced (picClearMask irq s) ∧ OneLine s (picClearMask irq s) (.clearMask irq) :=
  picChangeMask_spec h hready (f := fun b c => b && !c) (fun hj => clearLine_get hj)
    (fun b => Bool.and_true b) irq

end Lines

section Runs

variable {s : PicState}

theorem init_faithful_iff (offset1 offset2 : Uint8) (s : PicState) :
    Faithful s (.init offset1 offset2) (picStep s (.init offset1 offset2)) ↔
      AllMasked s (.init offset1 offset2) := by
  constructor
  · intro h
    obtain ⟨⟨hprimary,hsecondary⟩,-⟩ := h _ rfl
    rw [picInit_eq] at hprimary hsecondary
    exact ⟨hprimary,hsecondary⟩
  · rintro ⟨hprimary,hsecondary⟩ t ht
    cases ht
    rw [picInit_eq]
    exact ⟨⟨hprimary,hsecondary⟩,trivial⟩

theorem faithful_iff (h : Synced s ∧ Ready s) (c : PicCall) :
    Faithful s c (picStep s c) ↔ AllMasked s c := by
  cases c with
  | init offset1 offset2 => exact init_faithful_iff offset1 offset2 s
  | setMask irq =>
    obtain ⟨hsynced,hline⟩ := picSetMask_spec h.1 h.2 irq
    refine iff_of_true (fun t ht => ?_) trivial
    cases ht
    exact ⟨hsynced,hline⟩
  | clearMask irq =>
    obtain ⟨hsynced,hline⟩ := picClearMask_spec h.1 h.2 irq
    refine iff_of_true (fun t ht => ?_) trivial
    cases ht
    exact ⟨hsynced,hline⟩
  | disable =>
    rw [Faithful,picStep,picDisable_eq h.2]
    constructor
    · intro hfaithful
      obtain ⟨⟨hprimary,hsecondary⟩,-⟩ := hfaithful _ rfl
      exact ⟨hprimary,hsecondary⟩
    · rintro ⟨hprimary,hsecondary⟩ t ht
      cases ht
      exact ⟨⟨hprimary,hsecondary⟩,trivial⟩

theorem picStep_ready {t : PicState} {c : PicCall} (h : Ready s) (hstep : picStep s c = some t) :
    Ready t := by
  cases c with
  | init offset1 offset2 =>
    cases hstep
    exact picInit_ready offset1 offset2 s
  | setMask irq =>
    cases hstep
    exact picChangeMask_ready h setLine irq
  | clearMask irq =>
    cases hstep
    exact picChangeMask_ready h clearLine irq
  | disable =>
    cases hstep
    rw [picDisable_eq h]
    exact ⟨rfl,rfl⟩

theorem picStep_synced {t : PicState} {c : PicCall} (h : Synced s ∧ Ready s)
    (hmasked : AllMasked s c) (hstep : picStep s c = some t) : Synced t ∧ Ready t :=
  ⟨((faithful_iff h c).mpr hmasked t hstep).1,picStep_ready h.2 hstep⟩

theorem mask_lines_independent (s : PicState) (offset1 offset2 : Uint8) (calls : List PicCall) :
    Every picStep Faithful s (.init offset1 offset2 :: calls) ↔
      Every picStep (fun s c _ => AllMasked s c) s (.init offset1 offset2 :: calls) := by
  rw [Every,Every,init_faithful_iff]
  refine and_congr_right fun hmasked => forall_congr' fun t => imp_congr_right fun ht => ?_
  have hsynced : Synced t := ((init_faithful_iff offset1 offset2 s).mpr hmasked t ht).1
  have hready : Ready t := by
    cases ht
    exact picInit_ready offset1 offset2 s
  exact every_iff_of ⟨hsynced,hready⟩ (every_of_forall t fun c _ => trivial)
    (fun s c hs _ => faithful_iff hs c) fun s c u hs _ hmasked hu => picStep_synced hs hmasked hu

-- the firmware left IRQ 0 and 1 open: clearing line 2 opens them again
theorem clear_mask_opens_others : ¬ Every picStep Faithful
    ⟨0xFF#8,0xFF#8,⟨0xFC#8,.none⟩,⟨0xFF#8,.none⟩⟩ [.init 0x20#8 0x28#8,.clearMask 2#8] := by
  rintro ⟨-,hclear⟩
  obtain ⟨-,hline⟩ := (hclear _ rfl).1 _ rfl
  exact absurd (hline (by decide) 0 (by decide)) (by decide)

end Runs

end KluxOS.Interrupt
