import KluxOS.Interrupt.Arbitration
import KluxOS.Interrupt.Entry
import KluxOS.Interrupt.Gates

namespace KluxOS.Interrupt

open CArray Priority Run

section System

-- the linked stubs, what the C functions keep, and the lines a handler acknowledges on its own
structure Platform where
  linked : Linked
  code : Uint32 → Option (List Instr)
  placed : ∀ n, code (linked.stub n) = some (stubs.get n)
  callee : CFunction → Callee
  return_address : Uint32
  acks : Uint32 → List Uint8

structure System where
  controllers : Controllers
  interrupt_handlers : HandlerTable
  calls : List (Uint32 × Uint32)

inductive Act where
  | raise (line : Fin 16)
  | mask (c : MaskCall)
  | getIrr
  | getIsr
  | register (num : Uint8) (handler : Uint32)
  | interrupt (m : Machine)

variable (platform : Platform)

def perform (c : Controllers) : HandlerEvent → Controllers
  | .handler address _ => (platform.acks address).foldl (fun c irq => ackIrq irq c) c
  | .eoi irq => c.sendEoi irq
  | .print _ => c

def System.kernel (s : System) : Kernel :=
  ⟨s.interrupt_handlers,platform.callee,platform.return_address⟩

-- the processor takes the vector of the line, and the gate that idt_init left for it
def interrupt (s : System) (m : Machine) : Option (System × Machine) :=
  match s.controllers.pendingLine with
  | none => some (s,m)
  | some line => do
    let gate ← bootGates platform.linked (s.controllers.vector line)
    let code ← platform.code gate.offset
    let e ← run (exec (s.kernel platform)) ⟨m,[]⟩ code
    some ({ s with controllers := e.events.foldl (perform platform) (s.controllers.acknowledge line)
                   calls := s.calls ++ handlerCalls e.events },e.machine)

def actStep (s : System) : Act → Option System
  | .raise line => some { s with controllers := s.controllers.raise line }
  | .mask c => some { s with controllers := s.controllers.call c.toPicCall }
  | .getIrr => some { s with controllers := s.controllers.picGetIrr.1 }
  | .getIsr => some { s with controllers := s.controllers.picGetIsr.1 }
  | .register num handler =>
    some { s with interrupt_handlers := setHandler s.interrupt_handlers num handler }
  | .interrupt m => (interrupt platform s m).map Prod.fst

end System

section Schedule

-- what the lines wait for: each request once, in the order of priority
structure Schedule where
  pic : PicState
  requested : ℕ → Bool
  handlers : HandlerTable
  calls : List (Uint32 × Uint32)
  served : List ℕ

namespace Schedule

variable (a : Schedule)

def ready (line : ℕ) : Bool := a.requested line && !blocked a.pic line

def next : Option ℕ := priority.find? a.ready

def handler (line : ℕ) : Uint32 := (get? a.handlers (line + 32 : ℕ)).getD 0#32

def serve (line : ℕ) : Schedule :=
  { a with requested := Function.update a.requested line false
           calls := a.calls ++ if a.handler line ≠ 0#32 then [(a.handler line,0#32)] else []
           served := a.served ++ [line] }

def step : Act → Schedule
  | .raise line =>
    if line.val = 2 then a else { a with requested := Function.update a.requested line true }
  | .mask c => { a with pic := (picStep a.pic c.toPicCall).getD a.pic }
  | .getIrr => a
  | .getIsr => a
  | .register num handler =>
    { a with handlers := setHandler a.handlers num handler }
  | .interrupt _ => (a.next.map a.serve).getD a

end Schedule

end Schedule

section Entry

-- entering through the stub of a line runs its handler, acknowledges the line and returns
theorem enter_line (kernel : Kernel) (m : Machine) (line : Fin 16) (n : Fin 48)
    (hn : n.val = line.val + 32) : ∃ t, enter m n kernel = some t ∧
      t.events = (if vectorHandler n kernel ≠ 0#32 then [.handler (vectorHandler n kernel) 0#32]
        else []) ++ [.eoi (BitVec.ofNat 8 line.val)] ∧
      t.machine.regs = m.regs ∧ t.machine.esp = m.esp ∧
      StackWords.Holds 4 t.machine.stack t.machine.esp (frameWords m n) := by
  obtain ⟨p,henter,hregs,hesp,hstacked⟩ := enter_common kernel m n
  have hindex : (BitVec.ofNat 32 n.val - 32#32 + 32#32).toNat = n.val := by
    rw [BitVec.sub_add_cancel,BitVec.toNat_ofNat]
    omega
  have hget : get? kernel.interrupt_handlers (n.val : ℤ) = some (vectorHandler n kernel) :=
    get?_eq _ (by omega) rfl
  have heoi : (BitVec.ofNat 32 n.val - 32#32).setWidth 8 = BitVec.ofNat 8 line.val := by
    rw [hn]
    bv_omega
  have hevents : irqHandler kernel.interrupt_handlers (BitVec.ofNat 32 n.val - 32#32) =
      some ((if vectorHandler n kernel ≠ 0#32 then [.handler (vectorHandler n kernel) 0#32]
        else []) ++ [.eoi (BitVec.ofNat 8 line.val)]) := by
    rw [irqHandler,hindex,hget,Option.bind_eq_bind,Option.bind_some,heoi]
  obtain ⟨t,ht,htregs,htesp,htframe⟩ :=
    run_irqCommon hstacked (frameWords_length m n) hevents
  rw [henter,if_neg (by omega)]
  refine ⟨_,ht,rfl,htregs.trans hregs,?_,htframe⟩
  rw [htesp,hesp,cpuFrame,irq_no_code n (by omega)]
  exact BitVec.sub_add_cancel ..

variable {isr1 isr2 : Uint8} (s : Controllers)

-- the end of interrupt of the line takes it out of service
theorem events_service (platform : Platform) {handler : Uint32} {irq : Uint8}
    (h1 : OneInService isr1) (h2 : OneInService isr2) (hirq : irq ≥ 8#8 ∨ isr2 = 0#8) :
    ((if handler ≠ 0#32 then [HandlerEvent.handler handler 0#32] else []) ++
      [HandlerEvent.eoi irq]).foldl (perform platform) (s.withService isr1 isr2) =
      s.withService 0#8 0#8 := by
  have hlast : ∀ {isr1 isr2 : Uint8}, OneInService isr1 → OneInService isr2 →
      (irq ≥ 8#8 ∨ isr2 = 0#8) → (s.withService isr1 isr2).sendEoi irq = s.withService 0#8 0#8 := by
    intro isr1 isr2 h1 h2 hirq
    rw [sendEoi_service,h1.ended,h2.ended]
    rcases hirq with hirq | hzero
    · rw [if_pos hirq]
    · rw [hzero,ite_self]
  split
  · obtain ⟨isr1',isr2',hacks,h1',h2',hzero⟩ := acks_service s (platform.acks handler) h1 h2
    rw [List.cons_append,List.foldl_cons,perform,hacks]
    exact hlast h1' h2' (hirq.imp_right hzero)
  · exact hlast h1 h2 hirq

end Entry

section Refinement

structure Represents (s : System) (a : Schedule) : Prop where
  idle : Idle s.controllers
  pic : s.controllers.picState = a.pic
  ready : Ready a.pic
  offset1 : s.controllers.primary.offset = 0x20#8
  offset2 : s.controllers.secondary.offset = 0x28#8
  requested : ∀ line < 16, s.controllers.requested line = a.requested line
  handlers : s.interrupt_handlers = a.handlers
  calls : s.calls = a.calls

variable {s : System} {a : Schedule} (platform : Platform)

theorem priority_lines : ∀ line ∈ priority, line < 16 ∧ line ≠ 2 := by decide

theorem Represents.pendingLine (h : Represents s a) : s.controllers.pendingLine = a.next := by
  rw [pendingLine_idle h.idle,Schedule.next]
  refine find?_congr fun line hline => ?_
  rw [Schedule.ready,h.pic,h.requested line (priority_lines line hline).1]

theorem Represents.vector (h : Represents s a) {line : ℕ} (hline : line < 16) :
    (s.controllers.vector line).toNat = line + 32 := by
  rw [Controllers.vector,h.offset1,h.offset2]
  split <;> rw [BitVec.toNat_add,BitVec.toNat_ofNat,BitVec.toNat_ofNat] <;> omega

theorem Represents.lines (h : Represents s a) {c : Controllers}
    (hsame : SameLines s.controllers c) :
    Idle c ∧ c.primary.offset = 0x20#8 ∧ c.secondary.offset = 0x28#8 ∧
      ∀ line < 16, c.requested line = a.requested line := by
  refine ⟨⟨hsame.isr1.trans h.idle.primary,hsame.isr2.trans h.idle.secondary,?_⟩,
    hsame.offset1.trans h.offset1,hsame.offset2.trans h.offset2,fun line hline => ?_⟩
  · rw [hsame.irr1]
    exact h.idle.cascade
  · rw [← h.requested line hline,Controllers.requested,Controllers.requested,hsame.irr1,hsame.irr2]

theorem Represents.mask (h : Represents s a) (c : MaskCall) :
    Represents { s with controllers := s.controllers.call c.toPicCall }
      { a with pic := (picStep a.pic c.toPicCall).getD a.pic } := by
  have hready := h.ready
  rw [← h.pic] at hready
  obtain ⟨hidle,hoffset1,hoffset2,hrequested⟩ := h.lines (call_lines hready c)
  have hstep := Controllers.call_picState s.controllers c.toPicCall
  rw [h.pic] at hstep
  rw [hstep]
  exact ⟨hidle,rfl,picStep_ready h.ready hstep,hoffset1,hoffset2,hrequested,h.handlers,h.calls⟩

theorem Represents.getRegister (h : Represents s a) {command : Uint8}
    (hcommand : command = picReadIrr ∨ command = picReadIsr) :
    Represents { s with controllers := (s.controllers.getRegister command).1 } a := by
  have hsame : SameLines s.controllers (s.controllers.getRegister command).1 ∧
      (s.controllers.getRegister command).1.picState = s.controllers.picState := by
    rcases hcommand with rfl | rfl <;> exact ⟨⟨rfl,rfl,rfl,rfl,rfl,rfl⟩,rfl⟩
  obtain ⟨hidle,hoffset1,hoffset2,hrequested⟩ := h.lines hsame.1
  exact ⟨hidle,hsame.2.trans h.pic,h.ready,hoffset1,hoffset2,hrequested,h.handlers,h.calls⟩

theorem changeRequest_keeps (change : Uint8 → ℕ → Uint8) (line : ℕ) (c : Controllers) :
    (c.changeRequest change line).picState = c.picState ∧
      (c.changeRequest change line).primary.offset = c.primary.offset ∧
      (c.changeRequest change line).secondary.offset = c.secondary.offset := by
  rw [Controllers.changeRequest]
  split <;> exact ⟨rfl,rfl,rfl⟩

-- a change of one request is that change of one line, as long as line 2 stays without one
theorem Represents.request (h : Represents s a) {change : Uint8 → ℕ → Uint8}
    {f : Bool → Bool → Bool}
    (hf : ∀ {m i j}, j < 8 → (change m i).getLsbD j = f (m.getLsbD j) (decide (j = i)))
    (hkeep : ∀ b, f b false = b) {line : ℕ} (hcascade : line ≠ 2)
    {requested : ℕ → Bool}
    (hrequested : ∀ other, requested other = f (a.requested other) (decide (other = line)))
    (calls : List (Uint32 × Uint32)) (served : List ℕ) :
    Represents { s with controllers := s.controllers.changeRequest change line, calls := calls }
      { a with requested := requested, calls := calls, served := served } := by
  obtain ⟨hpic,hoffset1,hoffset2⟩ := changeRequest_keeps change line s.controllers
  obtain ⟨hisr1,hisr2⟩ := changeRequest_isr change line s.controllers
  have hchange : ∀ other < 16, (s.controllers.changeRequest change line).requested other =
      requested other := fun other hother => by
    rw [requested_change hf hkeep hother,hrequested,h.requested other hother]
  refine ⟨⟨hisr1.trans h.idle.primary,hisr2.trans h.idle.secondary,?_⟩,hpic.trans h.pic,h.ready,
    hoffset1.trans h.offset1,hoffset2.trans h.offset2,hchange,h.handlers,rfl⟩
  have htwo : (s.controllers.changeRequest change line).requested 2 = false := by
    rw [requested_change hf hkeep (by decide),decide_eq_false hcascade.symm,hkeep]
    exact h.idle.cascade
  exact htwo

theorem update_or {requested : ℕ → Bool} {line : ℕ} (other : ℕ) :
    Function.update requested line true other = (requested other || decide (other = line)) := by
  rw [Function.update_apply]
  by_cases hsame : other = line
  · rw [if_pos hsame,decide_eq_true hsame,Bool.or_true]
  · rw [if_neg hsame,decide_eq_false hsame,Bool.or_false]

theorem update_and_not {requested : ℕ → Bool} {line : ℕ} (other : ℕ) :
    Function.update requested line false other = (requested other && !decide (other = line)) := by
  rw [Function.update_apply]
  by_cases hsame : other = line
  · rw [if_pos hsame,decide_eq_true hsame,Bool.not_true,Bool.and_false]
  · rw [if_neg hsame,decide_eq_false hsame,Bool.not_false,Bool.and_true]

theorem Represents.raise (h : Represents s a) (line : Fin 16) :
    Represents { s with controllers := s.controllers.raise line } (a.step (.raise line)) := by
  rw [Controllers.raise,Schedule.step]
  split
  · exact h
  · next hcascade =>
    have hraised := h.request setLine_get Bool.or_false hcascade update_or a.calls a.served
    rw [h.calls]
    exact hraised

-- the interrupted program finds its registers, its stack pointer and the frame for iret
def Resumed (m t : Machine) : Prop := t.regs = m.regs ∧ t.esp = m.esp ∧
  StackWords.Holds 4 t.stack t.esp ((List.range 5).map fun i =>
    m.stack (m.esp + BitVec.ofNat 32 (4 * i)))

theorem Represents.interrupt (h : Represents s a) (m : Machine) : ∃ t u,
    interrupt platform s m = some (t,u) ∧ Resumed m u ∧ Represents t (a.step (.interrupt m)) := by
  rw [Interrupt.interrupt,Schedule.step,h.pendingLine]
  cases hnext : a.next with
  | none =>
    refine ⟨s,m,rfl,⟨rfl,rfl,StackWords.holds_self 4 m.stack m.esp 5⟩,h⟩
  | some line =>
    obtain ⟨hline,hcascade⟩ := priority_lines line (List.mem_of_find?_eq_some hnext)
    let n : Fin 48 := ⟨line + 32,by omega⟩
    obtain ⟨e,he,hevents,hregs,hesp,hframe⟩ :=
      enter_line (s.kernel platform) m ⟨line,hline⟩ n rfl
    have hhandler : vectorHandler n (s.kernel platform) = a.handler line := by
      rw [Schedule.handler,get?_eq a.handlers (k := line + 32) (by omega) rfl,Option.getD_some,
        ← h.handlers]
      rfl
    dsimp only at hevents
    rw [hhandler] at hevents
    have hgate : bootGates platform.linked (s.controllers.vector line) =
        some ⟨.interrupt32,0x08#16,platform.linked.stub n,0#2⟩ := bootGates_stub n (h.vector hline)
    have hrun : run (exec (s.kernel platform)) ⟨m,[]⟩ (stubs.get n) = some e := he
    have hcontrollers : e.events.foldl (perform platform) (s.controllers.acknowledge line) =
        s.controllers.changeRequest clearLine line := by
      obtain ⟨hisr1,hisr2⟩ := changeRequest_isr clearLine line s.controllers
      rw [hevents,acknowledge_idle h.idle]
      refine Eq.trans (events_service _ platform ?_ ?_ ?_)
        (withService_idle (hisr1.trans h.idle.primary) (hisr2.trans h.idle.secondary))
      · refine .one ?_
        split <;> omega
      · split
        · exact .zero
        · exact .one (by omega)
      · rw [ge_iff_le,BitVec.le_def,BitVec.toNat_ofNat,BitVec.toNat_ofNat]
        split
        · exact .inr rfl
        · exact .inl (by omega)
    have hcalls : handlerCalls e.events =
        if a.handler line ≠ 0#32 then [(a.handler line,0#32)] else [] := by
      rw [hevents]
      split <;> rfl
    refine ⟨_,_,?_,⟨hregs,hesp,?_⟩,
      h.request (f := fun b c => b && !c) clearLine_get Bool.and_true hcascade
        update_and_not _ (a.served ++ [line])⟩
    · dsimp only
      rw [hgate,Option.bind_eq_bind,Option.bind_some,platform.placed,Option.bind_eq_bind,
        Option.bind_some,hrun,Option.bind_eq_bind,Option.bind_some,hcontrollers,hcalls,h.calls]
    · rw [frameWords,cpuFrame,irq_no_code n (Nat.le_add_left 32 line)] at hframe
      exact hframe

theorem Represents.step (h : Represents s a) (act : Act) :
    ∃ t, actStep platform s act = some t ∧ Represents t (a.step act) := by
  cases act with
  | raise line => exact ⟨_,rfl,h.raise line⟩
  | mask c => exact ⟨_,rfl,h.mask c⟩
  | getIrr => exact ⟨_,rfl,h.getRegister (.inl rfl)⟩
  | getIsr => exact ⟨_,rfl,h.getRegister (.inr rfl)⟩
  | register num handler =>
    refine ⟨_,rfl,⟨h.idle,h.pic,h.ready,h.offset1,h.offset2,h.requested,?_,h.calls⟩⟩
    rw [h.handlers]
    rfl
  | interrupt m =>
    obtain ⟨t,u,hstep,-,ht⟩ := h.interrupt platform m
    exact ⟨t,by rw [actStep,hstep,Option.map_some],ht⟩

theorem Represents.run (h : Represents s a) (acts : List Act) :
    ∃ t, Run.run (actStep platform) s acts = some t ∧ Represents t (acts.foldl Schedule.step a) := by
  induction acts generalizing s a with
  | nil => exact ⟨s,rfl,h⟩
  | cons act acts ih =>
    obtain ⟨t,hstep,ht⟩ := h.step platform act
    obtain ⟨u,hrun,hu⟩ := ih ht
    exact ⟨u,Option.bind_eq_some_iff.mpr ⟨t,hstep,hrun⟩,hu⟩

def ReturnsFrom (s : System) : Act → Option System → Prop
  | .interrupt m,_ => ∃ t u, Interrupt.interrupt platform s m = some (t,u) ∧ Resumed m u
  | _,_ => True

theorem Represents.every (h : Represents s a) (acts : List Act) :
    Every (actStep platform) (ReturnsFrom platform) s acts := by
  induction acts generalizing s a with
  | nil => trivial
  | cons act acts ih =>
    obtain ⟨t,hstep,ht⟩ := h.step platform act
    refine ⟨?_,fun u hu => ?_⟩
    · cases act with
      | interrupt m =>
        obtain ⟨t,u,hcall,hresumed,-⟩ := h.interrupt platform m
        exact ⟨t,u,hcall,hresumed⟩
      | _ => trivial
    · obtain rfl := Option.some.inj (hstep.symm.trans hu)
      exact ih ht

end Refinement

section Drain

namespace Schedule

variable (a : Schedule)

def callsOf (line : ℕ) : List (Uint32 × Uint32) :=
  if a.handler line ≠ 0#32 then [(a.handler line,0#32)] else []

theorem ready_serve (line : ℕ) : (a.serve line).ready = Function.update a.ready line false := by
  funext other
  rw [update_and_not,ready,ready,serve]
  dsimp only
  rw [update_and_not,Bool.and_right_comm]

theorem interrupts (ms : List Machine) :
    (ms.map Act.interrupt).foldl step a =
      { a with
        requested := fun line =>
          a.requested line && !decide (line ∈ drained priority ms.length a.ready)
        calls := a.calls ++ (drained priority ms.length a.ready).flatMap a.callsOf
        served := a.served ++ drained priority ms.length a.ready } := by
  induction ms generalizing a with
  | nil => simp [drained]
  | cons m ms ih =>
    rw [List.map_cons,List.foldl_cons,ih,step,next,List.length_cons,drained]
    cases hfind : priority.find? a.ready with
    | none =>
      have hnone : drained priority ms.length a.ready = [] := by
        cases ms <;> simp [drained,hfind]
      simp [hnone]
    | some line =>
      have hrest : ∀ other, ((a.serve line).requested other && !decide
            (other ∈ drained priority ms.length (Function.update a.ready line false))) =
          (a.requested other && !decide (other ∈
            line :: drained priority ms.length (Function.update a.ready line false))) := by
        intro other
        have hserve : (a.serve line).requested other =
            (a.requested other && !decide (other = line)) := update_and_not other
        rw [hserve,Bool.and_assoc,← Bool.not_or,← Bool.decide_or]
        exact congrArg (fun b => a.requested other && !b) (decide_eq_decide.mpr List.mem_cons.symm)
      have hcalls : (a.serve line).callsOf = a.callsOf := rfl
      simp only [Option.map_some,Option.getD_some,ready_serve,hrest,hcalls,List.flatMap_cons]
      rw [serve,callsOf,List.append_assoc,List.append_assoc]
      rfl

end Schedule

end Drain

section Boot

variable (platform : Platform) (c : Controllers) (handlers : HandlerTable)

-- the controllers as idt_init leaves them, whatever they held before
def bootSystem : System := ⟨c.init 0x20#8 0x28#8,handlers,[]⟩

def bootSchedule : Schedule :=
  ⟨(c.init 0x20#8 0x28#8).picState,fun _ => false,handlers,[],[]⟩

theorem init_eq (c : Controllers) : c.init 0x20#8 0x28#8 =
    ⟨c.primary.pic.mask,c.secondary.pic.mask,⟨⟨0xFF#8,.none⟩,0x20#8,0#8,0#8,false⟩,
      ⟨⟨0xFF#8,.none⟩,0x28#8,0#8,0#8,false⟩⟩ := rfl

theorem boot_represents : Represents (bootSystem c handlers) (bootSchedule c handlers) := by
  rw [bootSystem,bootSchedule,init_eq]
  refine ⟨⟨rfl,rfl,BitVec.getLsbD_zero⟩,rfl,⟨rfl,rfl⟩,rfl,rfl,fun line hline => ?_,rfl,rfl⟩
  rw [Controllers.requested]
  split <;> exact BitVec.getLsbD_zero

theorem interrupts_follow_priority (acts : List Act) :
    Every (actStep platform) (ReturnsFrom platform) (bootSystem c handlers) acts ∧
      ∃ t, run (actStep platform) (bootSystem c handlers) acts = some t ∧
        Represents t (acts.foldl Schedule.step (bootSchedule c handlers)) :=
  ⟨(boot_represents c handlers).every platform acts,(boot_represents c handlers).run platform acts⟩

-- the lines the controllers would let through, in the order they are served in
def waiting (s : System) : List ℕ :=
  priority.filter fun line => s.controllers.requested line && !blocked s.controllers.picState line

def handlerCall (s : System) (line : ℕ) : List (Uint32 × Uint32) :=
  let handler := (get? s.interrupt_handlers (line + 32 : ℕ)).getD 0#32
  if handler ≠ 0#32 then [(handler,0#32)] else []

theorem Represents.waiting {s : System} {a : Schedule} (h : Represents s a) :
    waiting s = priority.filter a.ready := by
  refine List.filter_congr fun line hline => ?_
  rw [Schedule.ready,h.pic,h.requested line (priority_lines line hline).1]

theorem waiting_lines_served (acts : List Act) (ms : List Machine) :
    ∃ t u, run (actStep platform) (bootSystem c handlers) acts = some t ∧
      run (actStep platform) t (ms.map .interrupt) = some u ∧
      u.calls = t.calls ++ ((waiting t).take ms.length).flatMap (handlerCall t) ∧
      ∀ line < 16, u.controllers.requested line =
        (t.controllers.requested line && !decide (line ∈ (waiting t).take ms.length)) := by
  obtain ⟨t,hrun,ht⟩ := (boot_represents c handlers).run platform acts
  obtain ⟨u,hdrain,hu⟩ := ht.run platform (ms.map .interrupt)
  rw [Schedule.interrupts] at hu
  have hdrained : drained priority ms.length
      (acts.foldl Schedule.step (bootSchedule c handlers)).ready =
        (Interrupt.waiting t).take ms.length := by
    rw [drained_eq (by decide),ht.waiting]
  refine ⟨t,u,hrun,hdrain,?_,fun line hline => ?_⟩
  · rw [hu.calls,hdrained,ht.calls]
    refine congrArg _ (List.flatMap_congr fun line _ => ?_)
    rw [handlerCall,ht.handlers]
    rfl
  · rw [hu.requested line hline,hdrained,ht.requested line hline]

end Boot

section Masked

variable {a : Schedule}

structure Shut (a : Schedule) : Prop where
  primary : a.pic.primary.mask = 0xFF#8
  calls : a.calls = []

theorem all_set : ∀ i < 8, (0xFF#8).getLsbD i = true := by decide

-- the mask of the primary controller holds back the secondary one too
theorem Shut.next (h : Shut a) : a.next = none := by
  rw [Schedule.next,List.find?_eq_none]
  intro line hline
  have hblocked : blocked a.pic line = true := by
    rw [blocked,masked,masked,h.primary,if_pos (by decide : 2 < 8)]
    by_cases hlow : line < 8
    · rw [if_pos hlow,all_set line hlow,Bool.true_or]
    · rw [all_set 2 (by decide),decide_eq_true (by omega),Bool.and_true,Bool.or_true]
  rw [Schedule.ready,hblocked,Bool.not_true,Bool.and_false]
  exact Bool.false_ne_true

theorem Shut.step (h : Shut a) {act : Act} (hact : ∀ c, act ≠ .mask c) :
    Shut (a.step act) ∧ ∀ line : Fin 16, (a.step act).requested line = true ↔
      a.requested line = true ∨ line.val ≠ 2 ∧ act = .raise line := by
  cases act with
  | raise raised =>
    rw [Schedule.step]
    split
    · next hcascade =>
      refine ⟨h,fun line => (or_iff_left ?_).symm⟩
      rintro ⟨hline,heq⟩
      cases heq
      exact hline hcascade
    · next hcascade =>
      refine ⟨⟨h.primary,h.calls⟩,fun line => ?_⟩
      dsimp only
      rw [update_or,Bool.or_eq_true,decide_eq_true_eq]
      refine or_congr_right ⟨fun heq => ?_,fun hraise => ?_⟩
      · obtain rfl := Fin.ext heq
        exact ⟨hcascade,rfl⟩
      · cases hraise.2
        rfl
  | mask c => exact absurd rfl (hact c)
  | interrupt m =>
    rw [Schedule.step,h.next]
    exact ⟨h,fun line => (or_iff_left (by simp)).symm⟩
  | getIrr => exact ⟨h,fun line => (or_iff_left (by simp)).symm⟩
  | getIsr => exact ⟨h,fun line => (or_iff_left (by simp)).symm⟩
  | register num handler => exact ⟨⟨h.primary,h.calls⟩,fun line => (or_iff_left (by simp)).symm⟩

theorem Shut.run (h : Shut a) {acts : List Act} (hacts : ∀ act ∈ acts, ∀ c, act ≠ .mask c) :
    Shut (acts.foldl Schedule.step a) ∧
      ∀ line : Fin 16, (acts.foldl Schedule.step a).requested line = true ↔
        a.requested line = true ∨ line.val ≠ 2 ∧ .raise line ∈ acts := by
  induction acts generalizing a with
  | nil => exact ⟨h,fun line => (or_iff_left (by simp)).symm⟩
  | cons act acts ih =>
    obtain ⟨hact,hacts⟩ := List.forall_mem_cons.mp hacts
    obtain ⟨hshut,hstep⟩ := h.step hact
    obtain ⟨hend,hlines⟩ := ih hshut hacts
    refine ⟨hend,fun line => ?_⟩
    rw [List.foldl_cons,hlines,hstep,List.mem_cons,or_assoc,← and_or_left,
      eq_comm (a := act)]

-- idt_init leaves every line masked, and nothing in the kernel opens one
theorem no_interrupt_before_unmasking (platform : Platform) (c : Controllers)
    (handlers : HandlerTable) (acts : List Act) (hacts : ∀ act ∈ acts, ∀ c, act ≠ .mask c) :
    ∃ t, run (actStep platform) (bootSystem c handlers) acts = some t ∧ t.calls = [] ∧
      ∀ line : Fin 16, t.controllers.requested line = true ↔ line.val ≠ 2 ∧ .raise line ∈ acts := by
  obtain ⟨t,hrun,ht⟩ := (boot_represents c handlers).run platform acts
  have hshut : Shut (bootSchedule c handlers) := by
    rw [bootSchedule,init_eq]
    exact ⟨rfl,rfl⟩
  obtain ⟨hend,hlines⟩ := hshut.run hacts
  refine ⟨t,hrun,ht.calls.trans hend.calls,fun line => ?_⟩
  rw [ht.requested line line.isLt,hlines line]
  exact or_iff_right Bool.false_ne_true

end Masked

section Example

-- stub n at the address 0x100000 + 16 n
def stubCode (address : Uint32) : Option (List Instr) :=
  let n := (address.toNat - 0x100000) / 16
  if h : n < 48 then some (stubs.get ⟨n,h⟩) else none

def plainPlatform : Platform where
  linked := linkedAtBoot
  code := stubCode
  placed := by decide
  callee := fun _ => returnAtOnce
  return_address := 0x100000#32
  acks := fun _ => []

def firmwareControllers : Controllers :=
  ⟨0xFF#8,0xFF#8,⟨⟨0xB8#8,.none⟩,8#8,0#8,0#8,false⟩,⟨⟨0x8E#8,.none⟩,0x70#8,0#8,0#8,false⟩⟩

def tickAndKey : List Act := [.raise 0,.raise 1,.interrupt interrupted]

-- a timer tick and a key wait although the processor would take an interrupt
theorem tick_and_key_wait : ∃ t, run (actStep plainPlatform)
      (bootSystem firmwareControllers numberedHandlers.interrupt_handlers) tickAndKey = some t ∧
    t.calls = [] ∧
    ∀ line : Fin 16, t.controllers.requested line = true ↔ line.val ≠ 2 ∧ .raise line ∈ tickAndKey :=
  no_interrupt_before_unmasking plainPlatform firmwareControllers
    numberedHandlers.interrupt_handlers tickAndKey (by simp [tickAndKey])

end Example

end KluxOS.Interrupt
