import KluxOS.Interrupt.Controllers
import KluxOS.Lib.Priority

namespace KluxOS.Interrupt

open Priority

section Arbitration

inductive MaskCall where
  | setMask (irq : Uint8)
  | clearMask (irq : Uint8)
  | disable

def MaskCall.toPicCall : MaskCall → PicCall
  | .setMask irq => .setMask irq
  | .clearMask irq => .clearMask irq
  | .disable => .disable

-- ack_irq of keyboard.c
def ackIrq (irq : Uint8) (c : Controllers) : Controllers :=
  c.write ([(pic1Command,picEoi)] ++ if irq > 7#8 then [(pic2Command,picEoi)] else [])

def priority : List ℕ := [0,1] ++ (List.range 8).map (8 + ·) ++ [3,4,5,6,7]

-- a line of the secondary controller needs line 2 as well
def blocked (pic : PicState) (line : ℕ) : Bool :=
  masked pic line || (decide (8 ≤ line) && masked pic 2)

end Arbitration

section Service

def endService (isr : Uint8) : Uint8 := ((highest isr).map (clearLine isr)).getD isr

def OneInService (isr : Uint8) : Prop := isr = 0#8 ∨ ∃ i < 8, isr = setLine 0#8 i

def Controllers.withService (isr1 isr2 : Uint8) (s : Controllers) : Controllers :=
  { s with primary := { s.primary with isr := isr1 }, secondary := { s.secondary with isr := isr2 } }

theorem endService_zero : endService 0#8 = 0#8 := by decide

theorem endService_one : ∀ i < 8, endService (setLine 0#8 i) = 0#8 := by decide

theorem OneInService.ended {isr : Uint8} (h : OneInService isr) : endService isr = 0#8 := by
  obtain rfl | ⟨i,hi,rfl⟩ := h
  · exact endService_zero
  · exact endService_one i hi

variable {isr1 isr2 : Uint8} (s : Controllers)

theorem primary_ended : (s.withService isr1 isr2).outb pic1Command picEoi =
    s.withService (endService isr1) isr2 := rfl

theorem secondary_ended : (s.withService isr1 isr2).outb pic2Command picEoi =
    s.withService isr1 (endService isr2) := rfl

theorem sendEoi_service (irq : Uint8) : (s.withService isr1 isr2).sendEoi irq =
    s.withService (endService isr1) (if irq ≥ 8#8 then endService isr2 else isr2) := by
  rw [Controllers.sendEoi,Controllers.eoiWrites]
  split <;> rfl

theorem ackIrq_service (irq : Uint8) : ackIrq irq (s.withService isr1 isr2) =
    s.withService (endService isr1) (if irq > 7#8 then endService isr2 else isr2) := by
  rw [ackIrq]
  split <;> rfl

theorem OneInService.zero : OneInService 0#8 := .inl rfl

theorem OneInService.one {i : ℕ} (hi : i < 8) : OneInService (setLine 0#8 i) := .inr ⟨i,hi,rfl⟩

theorem OneInService.after {isr : Uint8} (h : OneInService isr) (ended : Prop) [Decidable ended] :
    OneInService (if ended then endService isr else isr) := by
  split
  · rw [h.ended]
    exact .zero
  · exact h

-- however often a handler acknowledges lines of its own, nothing new comes into service
theorem acks_service (irqs : List Uint8) (h1 : OneInService isr1) (h2 : OneInService isr2) :
    ∃ isr1' isr2', irqs.foldl (fun c irq => ackIrq irq c) (s.withService isr1 isr2) =
      s.withService isr1' isr2' ∧ OneInService isr1' ∧ OneInService isr2' ∧
      (isr2 = 0#8 → isr2' = 0#8) := by
  induction irqs generalizing isr1 isr2 with
  | nil => exact ⟨isr1,isr2,rfl,h1,h2,id⟩
  | cons irq irqs ih =>
    have hended : OneInService (endService isr1) := by
      rw [h1.ended]
      exact .zero
    obtain ⟨isr1',isr2',hrun,h1',h2',hzero⟩ := ih hended (h2.after (irq > 7#8))
    refine ⟨isr1',isr2',?_,h1',h2',fun h => hzero ?_⟩
    · rw [List.foldl_cons,ackIrq_service]
      exact hrun
    · rw [h,endService_zero,ite_self]

end Service

section Pending

variable {s : Controllers}

theorem find_lines (p : ℕ → Bool) : (List.range 8).find? p =
    ([0,1].find? p).or (([2].find? p).or ([3,4,5,6,7].find? p)) := by
  have hsplit : List.range 8 = [0,1] ++ ([2] ++ [3,4,5,6,7]) := rfl
  rw [hsplit,List.find?_append,List.find?_append]

theorem find_priority (p : ℕ → Bool) : priority.find? p =
    ([0,1].find? p).or ((((List.range 8).map (8 + ·)).find? p).or ([3,4,5,6,7].find? p)) := by
  rw [priority,List.append_assoc,List.find?_append,List.find?_append]

theorem highest_free (irr mask : Uint8) : highest (irr &&& ~~~mask) =
    (List.range 8).find? fun i => irr.getLsbD i && !mask.getLsbD i := by
  rw [highest]
  refine find?_congr fun i hi => ?_
  have hlt := List.mem_range.mp hi
  rw [BitVec.getLsbD_and,BitVec.getLsbD_not,decide_eq_true hlt,Bool.true_and]

theorem pending_idle {c : Controller} (h : c.isr = 0#8) : c.pending =
    (List.range 8).find? fun i => c.irr.getLsbD i && !c.pic.mask.getLsbD i := by
  have hnone : highest 0#8 = none := by decide
  rw [Controller.pending,h,hnone,← highest_free]
  cases highest (c.irr &&& ~~~c.pic.mask) <;> rfl

-- what the representation of a schedule by the controllers says of their lines
structure Idle (s : Controllers) : Prop where
  primary : s.primary.isr = 0#8
  secondary : s.secondary.isr = 0#8
  cascade : s.primary.irr.getLsbD 2 = false

theorem requested_low {i : ℕ} (hi : i < 8) :
    (s.requested i && !blocked s.picState i) =
      (s.primary.irr.getLsbD i && !s.primary.pic.mask.getLsbD i) := by
  have hhigh : ¬ 8 ≤ i := by omega
  rw [Controllers.requested,blocked,masked,if_pos hi,if_pos hi,decide_eq_false hhigh,Bool.false_and,
    Bool.or_false]
  rfl

theorem requested_high (j : ℕ) :
    (s.requested (8 + j) && !blocked s.picState (8 + j)) =
      ((s.secondary.irr.getLsbD j && !s.secondary.pic.mask.getLsbD j) &&
        !s.primary.pic.mask.getLsbD 2) := by
  have hhigh : ¬ 8 + j < 8 := by omega
  rw [Controllers.requested,blocked,masked,if_neg hhigh,if_neg hhigh,Nat.add_sub_cancel_left,
    decide_eq_true (Nat.le_add_right 8 j),Bool.true_and,Bool.not_or,← Bool.and_assoc]
  rfl

theorem find_cascade (p : ℕ → Bool) : [2].find? p = if p 2 then some 2 else none := by
  rw [List.find?_cons]
  cases p 2 <;> rfl

theorem find_other {l : List ℕ} (h : 2 ∉ l) (line : ℕ) (p : ℕ → Bool) :
    (l.find? p).map (fun i => if i = 2 then line else i) = l.find? p := by
  cases hfind : l.find? p with
  | none => rfl
  | some i =>
    rw [Option.map_some,if_neg (ne_of_mem_of_not_mem (List.mem_of_find?_eq_some hfind) h)]

-- the secondary controller stands between line 1 and line 3 of the primary one
theorem pendingLine_idle (h : Idle s) : s.pendingLine = priority.find? fun line =>
    s.requested line && !blocked s.picState line := by
  have hlow : ∀ l : List ℕ, (∀ i ∈ l, i < 8) →
      l.find? (fun line => s.requested line && !blocked s.picState line) =
        l.find? fun i => s.primary.irr.getLsbD i && !s.primary.pic.mask.getLsbD i :=
    fun l hl => find?_congr fun i hi => requested_low (hl i hi)
  have hraised : ∀ l : List ℕ, (∀ i ∈ l, i < 8 ∧ i ≠ 2) →
      (l.find? fun i => (setLine s.primary.irr 2).getLsbD i && !s.primary.pic.mask.getLsbD i) =
        l.find? fun i => s.primary.irr.getLsbD i && !s.primary.pic.mask.getLsbD i :=
    fun l hl => find?_congr fun i hi => by
      rw [setLine_get (hl i hi).1,decide_eq_false (hl i hi).2,Bool.or_false]
  rw [find_priority,hlow [0,1] (by decide),hlow [3,4,5,6,7] (by decide),List.find?_map,
    Controllers.pendingLine,pending_idle h.secondary]
  have hhigh : ((fun line => s.requested line && !blocked s.picState line) ∘ (8 + ·)) = fun j =>
      (s.secondary.irr.getLsbD j && !s.secondary.pic.mask.getLsbD j) &&
        !s.primary.pic.mask.getLsbD 2 := funext requested_high
  rw [hhigh]
  cases hfind : (List.range 8).find? fun j =>
      s.secondary.irr.getLsbD j && !s.secondary.pic.mask.getLsbD j with
  | none =>
    have hnone : ((List.range 8).find? fun j =>
        (s.secondary.irr.getLsbD j && !s.secondary.pic.mask.getLsbD j) &&
          !s.primary.pic.mask.getLsbD 2) = none := by
      rw [List.find?_eq_none] at hfind ⊢
      intro j hj hand
      exact hfind j hj (Bool.and_eq_true_iff.mp hand).1
    have hcascade : [2].find? (fun i => s.primary.irr.getLsbD i && !s.primary.pic.mask.getLsbD i) =
        none := by
      rw [find_cascade,h.cascade,Bool.false_and]
      rfl
    rw [hnone]
    dsimp only
    rw [pending_idle h.primary,find_lines,hcascade]
    rfl
  | some j =>
    have hpending := pending_idle (c := { s.primary with irr := setLine s.primary.irr 2 }) h.primary
    dsimp only at hpending ⊢
    rw [hpending,find_lines,hraised [0,1] (by decide),hraised [3,4,5,6,7] (by decide),
      Option.map_or,Option.map_or,find_other (l := [0,1]) (by decide),
      find_other (l := [3,4,5,6,7]) (by decide)]
    have hcascade : (setLine s.primary.irr 2).getLsbD 2 = true := by
      rw [setLine_get (by decide),decide_eq_true rfl,Bool.or_true]
    have hmiddle : ([2].find? fun i =>
          (setLine s.primary.irr 2).getLsbD i && !s.primary.pic.mask.getLsbD i).map
            (fun i => if i = 2 then 8 + j else i) =
        ((List.range 8).find? fun j =>
          (s.secondary.irr.getLsbD j && !s.secondary.pic.mask.getLsbD j) &&
            !s.primary.pic.mask.getLsbD 2).map (8 + ·) := by
      rw [find_cascade,hcascade,Bool.true_and]
      cases s.primary.pic.mask.getLsbD 2 with
      | true =>
        simp only [Bool.not_true,Bool.and_false]
        rw [List.find?_eq_none.mpr fun _ _ => Bool.false_ne_true]
        rfl
      | false =>
        simp only [Bool.not_false,Bool.and_true]
        rw [hfind]
        rfl
    rw [hmiddle]

end Pending

section Lines

variable {s t : Controllers} {line : ℕ}

theorem acknowledge_idle (h : Idle s) (line : ℕ) : s.acknowledge line =
    (s.changeRequest clearLine line).withService (setLine 0#8 (if line < 8 then line else 2))
      (if line < 8 then 0#8 else setLine 0#8 (line - 8)) := by
  obtain ⟨m1,m2,⟨pic1,offset1,irr1,isr1,read1⟩,⟨pic2,offset2,irr2,isr2,read2⟩⟩ := s
  obtain rfl : isr1 = 0#8 := h.primary
  obtain rfl : isr2 = 0#8 := h.secondary
  rw [Controllers.acknowledge,Controllers.changeRequest]
  split <;> rfl

theorem withService_idle (h1 : s.primary.isr = 0#8) (h2 : s.secondary.isr = 0#8) :
    s.withService 0#8 0#8 = s := by
  have hself : s.withService s.primary.isr s.secondary.isr = s := rfl
  rwa [h1,h2] at hself

theorem changeRequest_isr (change : Uint8 → ℕ → Uint8) (line : ℕ) (s : Controllers) :
    (s.changeRequest change line).primary.isr = s.primary.isr ∧
      (s.changeRequest change line).secondary.isr = s.secondary.isr := by
  rw [Controllers.changeRequest]
  split <;> exact ⟨rfl,rfl⟩

theorem requested_change {change : Uint8 → ℕ → Uint8} {f : Bool → Bool → Bool}
    (hf : ∀ {m i j}, j < 8 → (change m i).getLsbD j = f (m.getLsbD j) (decide (j = i)))
    (hkeep : ∀ b, f b false = b) {other : ℕ} (hother : other < 16) :
    (s.changeRequest change line).requested other =
      f (s.requested other) (decide (other = line)) := by
  rw [Controllers.changeRequest,Controllers.requested,Controllers.requested]
  by_cases hlow : line < 8
  · rw [if_pos hlow]
    by_cases hsame : other < 8
    · rw [if_pos hsame,if_pos hsame]
      exact hf hsame
    · rw [if_neg hsame,if_neg hsame,decide_eq_false (by omega),hkeep]
  · rw [if_neg hlow]
    by_cases hsame : other < 8
    · rw [if_pos hsame,if_pos hsame,decide_eq_false (by omega),hkeep]
    · have hshift : decide (other - 8 = line - 8) = decide (other = line) :=
        decide_eq_decide.mpr (by omega)
      rw [if_neg hsame,if_neg hsame,← hshift]
      exact hf (by omega)

-- what the masks and the registers chosen for reading leave alone
structure SameLines (s t : Controllers) : Prop where
  irr1 : t.primary.irr = s.primary.irr
  irr2 : t.secondary.irr = s.secondary.irr
  isr1 : t.primary.isr = s.primary.isr
  isr2 : t.secondary.isr = s.secondary.isr
  offset1 : t.primary.offset = s.primary.offset
  offset2 : t.secondary.offset = s.secondary.offset

theorem data_ready_lines {c : Controller} (h : c.pic.awaited = .none) (value : Uint8) :
    c.data value = { c with pic := c.pic.data value } := by
  rw [Controller.data,h]

theorem changeMask_lines (h : Ready s.picState) (change : Uint8 → ℕ → Uint8) (irq : Uint8) :
    SameLines s (s.changeMask change irq) := by
  rw [Controllers.changeMask]
  split
  · change SameLines s { s with pic1_mask := _, primary := s.primary.data _ }
    rw [data_ready_lines h.primary]
    exact ⟨rfl,rfl,rfl,rfl,rfl,rfl⟩
  · change SameLines s { s with pic2_mask := _, secondary := s.secondary.data _ }
    rw [data_ready_lines h.secondary]
    exact ⟨rfl,rfl,rfl,rfl,rfl,rfl⟩

theorem call_lines (h : Ready s.picState) (c : MaskCall) : SameLines s (s.call c.toPicCall) := by
  cases c with
  | setMask irq => exact changeMask_lines h setLine irq
  | clearMask irq => exact changeMask_lines h clearLine irq
  | disable =>
    change SameLines s { s with primary := s.primary.data 0xFF#8
                                secondary := s.secondary.data 0xFF#8 }
    rw [data_ready_lines h.primary,data_ready_lines h.secondary]
    exact ⟨rfl,rfl,rfl,rfl,rfl,rfl⟩

end Lines

end KluxOS.Interrupt
