import KluxOS.Interrupt.Idt
import KluxOS.Lib.StackWords

namespace KluxOS.Interrupt

open CArray Run StackWords

section Frame

variable (m : Machine) (n : Fin 48)

def pushesErrorCode : Bool := n.val ∈ [8,10,11,12,13,14,17,30]

-- the CPU left its frame on the stack, under the error code for the vectors that have one
def errorCode : Uint32 := if pushesErrorCode n then m.word 0 else 0#32

def cpuFrame : Uint32 := if pushesErrorCode n then m.esp + 4#32 else m.esp

-- eip, cs and eflags, and the esp and ss of a change of privilege
def frameWords : List Uint32 :=
  (List.range 5).map fun i => m.stack (cpuFrame m n + BitVec.ofNat 32 (4 * i))

-- where the saved registers start: 48 bytes of them under the vector and the error code
def savedFrame : Uint32 := cpuFrame m n - 56#32

def handlerCalls (events : List HandlerEvent) : List (Uint32 × Uint32) :=
  events.filterMap fun event => match event with
    | .handler address error_code => some (address,error_code)
    | _ => none

def enter (kernel : Kernel) : Option Exec := run (exec kernel) ⟨m,[]⟩ (stubs.get n)

def vectorHandler (kernel : Kernel) : Uint32 :=
  kernel.interrupt_handlers.get (n.castLE (by decide))

-- one call of the vector's handler, every register back and the stack at the frame for iret
def Serviced (kernel : Kernel) (result : Option Exec) : Prop :=
  ∃ t, result = some t ∧ handlerCalls t.events = [(vectorHandler n kernel,errorCode m n)] ∧
    t.machine.regs = m.regs ∧ t.machine.esp = cpuFrame m n ∧
    Holds 4 t.machine.stack t.machine.esp (frameWords m n)

end Frame

section Steps

def Stacked (m : Machine) (words : List Uint32) : Prop := Holds 4 m.stack m.esp words

def savedWords (r : Registers) (esp : Uint32) : List Uint32 :=
  [r.gs.setWidth 32,r.fs.setWidth 32,r.es.setWidth 32,r.ds.setWidth 32,r.edi,r.esi,r.ebp,esp,r.ebx,
    r.edx,r.ecx,r.eax]

namespace Machine

def save (m : Machine) : Machine :=
  let m := (((m.pusha.pushSegment .ds).pushSegment .es).pushSegment .fs).pushSegment .gs
  let m := m.movAx 0x10#16
  (((m.movSegmentAx .ds).movSegmentAx .es).movSegmentAx .fs).movSegmentAx .gs

def restore (m : Machine) : Machine :=
  let m := ((((m.addEsp 4#32).popSegment .gs).popSegment .fs).popSegment .es).popSegment .ds
  m.popa.addEsp 8#32

end Machine

variable {m : Machine} {words : List Uint32} {value : Uint32} {kernel : Kernel}

theorem Stacked.pushAll (h : Stacked m words) (values : List Uint32)
    (hroom : words.length + values.length < 64) :
    Stacked (values.foldl Machine.push m) (values.reverse ++ words) := by
  induction values generalizing m words with
  | nil => exact h
  | cons value values ih =>
    rw [List.length_cons] at hroom
    rw [List.foldl_cons,List.reverse_cons,List.append_assoc]
    have hpushed : Stacked (m.push value) ([value] ++ words) :=
      Holds.push h (by decide) (by omega) value
    refine ih hpushed ?_
    rw [List.length_append,List.length_singleton]
    omega

theorem Stacked.word (h : Stacked m words) {i : ℕ} {value : Uint32}
    (hi : words[i]? = some value) : m.word i = value := h i value hi

@[simp] theorem setEax_eax (m : Machine) (value : Uint32) : (m.setEax value).regs.eax = value := rfl

theorem save_esp (m : Machine) : m.save.esp = m.esp - 48#32 := by
  change m.esp - 4#32 - 4#32 - 4#32 - 4#32 - 4#32 - 4#32 - 4#32 - 4#32 - 4#32 - 4#32 - 4#32 - 4#32 = _
  bv_omega

theorem Stacked.save (h : Stacked m words) (hroom : words.length < 32) :
    Stacked m.save (savedWords m.regs m.esp ++ words) := by
  have hpushed := h.pushAll [m.regs.eax,m.regs.ecx,m.regs.edx,m.regs.ebx,m.esp,m.regs.ebp,m.regs.esi,
    m.regs.edi,m.regs.ds.setWidth 32,m.regs.es.setWidth 32,m.regs.fs.setWidth 32,
    m.regs.gs.setWidth 32] (by simp only [List.length_cons,List.length_nil]; omega)
  exact hpushed

theorem run_save (m : Machine) (events : List HandlerEvent) (code : List Instr) :
    run (exec kernel) ⟨m,events⟩ (saveRegisters ++ code) =
      run (exec kernel) ⟨m.save,events⟩ code := rfl

theorem run_restore (m : Machine) (events : List HandlerEvent) :
    run (exec kernel) ⟨m,events⟩ restoreRegisters = some ⟨m.restore,events⟩ := rfl

theorem Stacked.addEsp (h : Stacked m (value :: words)) : Stacked (m.addEsp 4#32) words :=
  Holds.pop h

theorem Stacked.popSegment (h : Stacked m (value :: words)) (segment : Segment) :
    (m.popSegment segment).regs = m.regs.setSegment (value.setWidth 16) segment ∧
      Stacked (m.popSegment segment) words := by
  refine ⟨?_,Holds.pop h⟩
  rw [Machine.popSegment,h.word (i := 0) rfl]

theorem Stacked.popa {edi esi ebp esp ebx edx ecx eax : Uint32}
    (h : Stacked m (edi :: esi :: ebp :: esp :: ebx :: edx :: ecx :: eax :: words)) :
    m.popa.regs = { m.regs with edi, esi, ebp, ebx, edx, ecx, eax } ∧ Stacked m.popa words := by
  refine ⟨?_,Holds.drop [edi,esi,ebp,esp,ebx,edx,ecx,eax] h⟩
  rw [Machine.popa,h.word (i := 0) rfl,h.word (i := 1) rfl,h.word (i := 2) rfl,h.word (i := 4) rfl,
    h.word (i := 5) rfl,h.word (i := 6) rfl,h.word (i := 7) rfl]

theorem segment_saved (x : Uint16) : (x.setWidth 32).setWidth 16 = x := by
  simp

theorem Stacked.restore {r : Registers} {argument esp vector error_code : Uint32}
    (h : Stacked m (argument :: savedWords r esp ++ vector :: error_code :: words)) :
    m.restore.regs = r ∧ m.restore.esp = m.esp + 60#32 ∧ Stacked m.restore words := by
  obtain ⟨hgs,h1⟩ := h.addEsp.popSegment .gs
  obtain ⟨hfs,h2⟩ := h1.popSegment .fs
  obtain ⟨hes,h3⟩ := h2.popSegment .es
  obtain ⟨hds,h4⟩ := h3.popSegment .ds
  obtain ⟨hregs,h5⟩ := h4.popa
  refine ⟨?_,?_,Holds.drop [vector,error_code] h5⟩
  · refine hregs.trans ?_
    rw [hds,hes,hfs,hgs]
    simp only [Registers.setSegment,segment_saved]
  · change m.esp + 4#32 + 4#32 + 4#32 + 4#32 + 4#32 + 32#32 + 8#32 = _
    bv_omega

-- the function finds its arguments in place, and so are the words when it has returned
theorem Stacked.called (h : Stacked m words) (hlength : words.length ≤ 20) (callee : Callee)
    (return_address : Uint32) :
    (callee.run (m.push return_address)).esp = m.esp ∧
      Stacked (callee.run (m.push return_address)) words := by
  have hesp : (m.push return_address).esp + 4#32 = m.esp := BitVec.sub_add_cancel ..
  have hpushed : Stacked (m.push return_address) (return_address :: words) :=
    h.pushAll [return_address] (by simp only [List.length_singleton]; omega)
  have hwords : Holds 4 (m.push return_address).stack m.esp words := by
    have hpop := Holds.pop hpushed
    rwa [hesp] at hpop
  have hreturn := callee.returns (m.push return_address)
  rw [hesp] at hreturn
  refine ⟨hreturn,?_⟩
  rw [Stacked,hreturn]
  refine hwords.congr fun i hi => ?_
  have hkeep := callee.keeps (m.push return_address) i (by omega)
  rwa [hesp] at hkeep

end Steps

section Entry

variable (kernel : Kernel) (m : Machine) (n : Fin 48)

theorem stubs_get : ∀ n : Fin 48, stubs.get n =
    .cli :: (if pushesErrorCode n then [] else [.push 0#32]) ++
      .push (BitVec.ofNat 32 n.val) :: if n.val < 32 then isrCommon else irqCommon := by
  decide

theorem frameWords_length (m : Machine) (n : Fin 48) : (frameWords m n).length = 5 := by
  rw [frameWords,List.length_map,List.length_range]

theorem stacked_code (hcode : pushesErrorCode n = true) :
    Stacked m (errorCode m n :: frameWords m n) := by
  have hframe : Holds 4 m.stack (cpuFrame m n) (frameWords m n) := holds_self 4 m.stack _ 5
  rw [cpuFrame,if_pos hcode] at hframe
  rw [errorCode,if_pos hcode]
  refine Holds.cons ?_ hframe
  rw [Machine.word,BitVec.add_zero]

theorem stacked_frame (hcode : pushesErrorCode n = false) : Stacked m (frameWords m n) := by
  have hframe : Holds 4 m.stack (cpuFrame m n) (frameWords m n) := holds_self 4 m.stack _ 5
  rwa [cpuFrame,hcode] at hframe

-- the vector lies on the error code, and the error code on the frame of the CPU
theorem enter_common : ∃ p, enter m n kernel =
      run (exec kernel) ⟨p,[]⟩ (if n.val < 32 then isrCommon else irqCommon) ∧
    p.regs = m.regs ∧ p.esp = cpuFrame m n - 8#32 ∧
    Stacked p (BitVec.ofNat 32 n.val :: errorCode m n :: frameWords m n) := by
  have hlength := frameWords_length m n
  rw [enter,stubs_get]
  cases hcode : pushesErrorCode n with
  | true =>
    have hstacked : Stacked { m with interrupts_enabled := false }
        (errorCode m n :: frameWords m n) := stacked_code m n hcode
    have hvector := hstacked.pushAll [BitVec.ofNat 32 n.val] (by
      simp only [List.length_cons,List.length_nil,hlength]
      decide)
    refine ⟨_,rfl,rfl,?_,hvector⟩
    rw [cpuFrame,if_pos hcode]
    change m.esp - 4#32 = _
    bv_omega
  | false =>
    have hstacked : Stacked { m with interrupts_enabled := false } (frameWords m n) :=
      stacked_frame m n hcode
    have hvector := hstacked.pushAll [0#32,BitVec.ofNat 32 n.val] (by
      simp only [List.length_cons,List.length_nil,hlength]
      decide)
    have hnot : ¬ pushesErrorCode n = true := Bool.eq_false_iff.mp hcode
    rw [errorCode,if_neg hnot]
    refine ⟨_,rfl,rfl,?_,hvector⟩
    rw [cpuFrame,if_neg hnot]
    change m.esp - 4#32 - 4#32 = _
    bv_omega

variable {kernel m n}

theorem save_push_esp (p : Machine) (value : Uint32) :
    (p.save.push value).esp + 56#32 + 4#32 = p.esp + 8#32 := by
  change p.save.esp - 4#32 + 56#32 + 4#32 = _
  rw [save_esp]
  bv_omega

theorem Stacked.argument {q : Machine} {r : Registers} {esp vector error_code : Uint32}
    {words : List Uint32} (h : Stacked q (savedWords r esp ++ vector :: error_code :: words))
    (hlength : words.length = 5) (argument : Uint32) :
    Stacked (q.push argument) (argument :: savedWords r esp ++ vector :: error_code :: words) :=
  h.pushAll [argument] (by
    simp only [savedWords,List.length_append,List.length_cons,List.length_nil,hlength]
    decide)

theorem run_call {q : Machine} {r : Registers} {argument esp vector error_code : Uint32}
    {words : List Uint32} (h : Stacked q (argument :: savedWords r esp ++ vector :: error_code :: words))
    (hlength : words.length = 5) {f : CFunction} {events : List HandlerEvent}
    (hcall : callEvents kernel q f = some events) :
    ∃ t, run (exec kernel) ⟨q,[]⟩ (.call f :: restoreRegisters) = some ⟨t,events⟩ ∧ t.regs = r ∧
      t.esp = q.esp + 56#32 + 4#32 ∧ Stacked t words := by
  obtain ⟨hesp,hstacked⟩ := h.called (by
    simp only [savedWords,List.length_append,List.length_cons,List.length_nil,hlength]
    decide) (kernel.callee f) kernel.return_address
  obtain ⟨hregs,hend,hframe⟩ := hstacked.restore
  refine ⟨_,?_,hregs,?_,hframe⟩
  · rw [run,exec,hcall,Option.bind_eq_bind,Option.bind_some,Option.bind_some,List.nil_append,
      run_restore]
  · rw [hend,hesp]
    bv_omega

variable (kernel) in
theorem run_isrCommon {p : Machine} {vector error_code : Uint32} {words : List Uint32}
    (h : Stacked p (vector :: error_code :: words)) (hlength : words.length = 5) :
    (∀ events, isrHandler kernel.interrupt_handlers (p.esp - 48#32) (p.regs.gs.setWidth 32) =
      some events → ∃ t, run (exec kernel) ⟨p,[]⟩ isrCommon = some ⟨t,events⟩ ∧ t.regs = p.regs ∧
        t.esp = p.esp + 8#32 ∧ Stacked t words) ∧
    (isrHandler kernel.interrupt_handlers (p.esp - 48#32) (p.regs.gs.setWidth 32) = none →
      run (exec kernel) ⟨p,[]⟩ isrCommon = none) := by
  have hsaved := h.save (by
    simp only [List.length_cons,hlength]
    decide)
  -- the only argument pushed is the stack pointer: the second one read is the saved gs
  have hpushed := hsaved.argument hlength p.save.esp
  have hevents : callEvents kernel (p.save.push p.save.esp) .isrHandler =
      isrHandler kernel.interrupt_handlers (p.esp - 48#32) (p.regs.gs.setWidth 32) := by
    rw [callEvents,hpushed.word (i := 0) rfl,hpushed.word (i := 1) rfl,save_esp]
  have hrun : run (exec kernel) ⟨p,[]⟩ isrCommon =
      run (exec kernel) ⟨p.save.push p.save.esp,[]⟩ (.call .isrHandler :: restoreRegisters) := by
    rw [isrCommon,List.append_assoc,run_save,List.cons_append,List.cons_append,List.nil_append,run,
      exec,Option.bind_some]
  rw [hrun,← hevents]
  refine ⟨fun events hcall => ?_,fun hnone => ?_⟩
  · obtain ⟨t,ht,hregs,hesp,hframe⟩ := run_call hpushed hlength hcall
    exact ⟨t,ht,hregs,hesp.trans (save_push_esp p _),hframe⟩
  · rw [run,exec,hnone]
    rfl

theorem run_irqCommon {p : Machine} {vector error_code : Uint32} {words : List Uint32}
    (h : Stacked p (vector :: error_code :: words)) (hlength : words.length = 5)
    {events : List HandlerEvent}
    (hevents : irqHandler kernel.interrupt_handlers (vector - 32#32) = some events) :
    ∃ t, run (exec kernel) ⟨p,[]⟩ irqCommon = some ⟨t,events⟩ ∧ t.regs = p.regs ∧
      t.esp = p.esp + 8#32 ∧ Stacked t words := by
  have hsaved := h.save (by
    simp only [List.length_cons,hlength]
    decide)
  have hvector : p.save.stack (p.save.esp + 48#32) = vector := hsaved.word (i := 12) rfl
  let q := (p.save.setEax vector).setEax (vector - 32#32)
  have hq : Stacked q (savedWords p.regs p.esp ++ vector :: error_code :: words) := hsaved
  have hpushed := hq.argument hlength (vector - 32#32)
  have hcall : callEvents kernel (q.push (vector - 32#32)) .irqHandler = some events := by
    rw [callEvents,hpushed.word (i := 0) rfl]
    exact hevents
  obtain ⟨t,ht,hregs,hesp,hframe⟩ := run_call hpushed hlength hcall
  refine ⟨t,?_,hregs,hesp.trans (save_push_esp p (vector - 32#32)),hframe⟩
  have hrun : run (exec kernel) ⟨p,[]⟩ irqCommon =
      run (exec kernel) ⟨(((p.save.setEax (p.save.stack (p.save.esp + 48#32))).setEax
        (p.save.stack (p.save.esp + 48#32) - 32#32)).push
          (p.save.stack (p.save.esp + 48#32) - 32#32)),[]⟩
        (.call .irqHandler :: restoreRegisters) := by
    rw [irqCommon,List.append_assoc,run_save,List.cons_append,List.cons_append,List.cons_append,
      List.cons_append,List.nil_append,run,exec,Option.bind_some,run,exec,Option.bind_some,run,exec,
      Option.bind_some]
    dsimp only
    rw [setEax_eax,setEax_eax]
  rw [hrun,hvector]
  exact ht

theorem handler_nonnull (htable : ∀ i, kernel.interrupt_handlers.get i ≠ 0#32) {i : ℤ}
    {handler : Uint32} (h : get? kernel.interrupt_handlers i = some handler) : handler ≠ 0#32 := by
  rw [get?] at h
  split at h
  · cases h
    exact htable _
  · cases h

theorem irq_no_code : ∀ n : Fin 48, 32 ≤ n.val → pushesErrorCode n = false := by decide

theorem exception_serviced_iff (htable : ∀ i, kernel.interrupt_handlers.get i ≠ 0#32)
    (hn : n.val < 32) : Serviced m n kernel (enter m n kernel) ↔
      get? kernel.interrupt_handlers (savedFrame m n).toNat = some (vectorHandler n kernel) ∧
        m.regs.gs.setWidth 32 = errorCode m n := by
  obtain ⟨p,henter,hregs,hesp,hstacked⟩ := enter_common kernel m n
  have hframe : p.esp - 48#32 = savedFrame m n := by
    rw [hesp,savedFrame]
    bv_omega
  have hend : p.esp + 8#32 = cpuFrame m n := by
    rw [hesp]
    bv_omega
  obtain ⟨hreturns,hfails⟩ := run_isrCommon kernel hstacked (frameWords_length m n)
  rw [hframe,hregs,isrHandler] at hreturns hfails
  rw [henter,if_pos hn]
  cases hget : get? kernel.interrupt_handlers (savedFrame m n).toNat with
  | none =>
    rw [hget] at hfails
    refine iff_of_false ?_ (fun h => nomatch h.1)
    rintro ⟨t,ht,-⟩
    cases (hfails rfl).symm.trans ht
  | some handler =>
    rw [hget,Option.bind_eq_bind,Option.bind_some,if_pos (handler_nonnull htable hget)] at hreturns
    obtain ⟨t,ht,htregs,htesp,htframe⟩ := hreturns _ rfl
    rw [Option.some.injEq]
    constructor
    · rintro ⟨u,hu,hcalls,-⟩
      cases ht.symm.trans hu
      simpa [handlerCalls] using hcalls
    · rintro ⟨rfl,hcode⟩
      refine ⟨_,ht,?_,htregs,htesp.trans hend,htframe⟩
      rw [hcode]
      rfl

theorem irq_serviced (htable : ∀ i, kernel.interrupt_handlers.get i ≠ 0#32) (hn : 32 ≤ n.val) :
    Serviced m n kernel (enter m n kernel) := by
  obtain ⟨p,henter,hregs,hesp,hstacked⟩ := enter_common kernel m n
  have hindex : (BitVec.ofNat 32 n.val - 32#32 + 32#32).toNat = n.val := by
    rw [BitVec.sub_add_cancel,BitVec.toNat_ofNat]
    omega
  have hget : get? kernel.interrupt_handlers (n.val : ℤ) = some (vectorHandler n kernel) :=
    get?_eq _ (by omega) rfl
  have hevents : irqHandler kernel.interrupt_handlers (BitVec.ofNat 32 n.val - 32#32) =
      some [.handler (vectorHandler n kernel) 0#32,
        .eoi ((BitVec.ofNat 32 n.val - 32#32).setWidth 8)] := by
    rw [irqHandler,hindex,hget,Option.bind_eq_bind,Option.bind_some,
      if_pos (handler_nonnull htable hget)]
    rfl
  obtain ⟨t,ht,htregs,htesp,htframe⟩ :=
    run_irqCommon hstacked (frameWords_length m n) hevents
  rw [henter,if_neg (by omega)]
  refine ⟨_,ht,?_,htregs.trans hregs,?_,htframe⟩
  · rw [errorCode,irq_no_code n hn]
    rfl
  · rw [htesp,hesp]
    bv_omega

theorem interrupt_entry_reaches_handler (htable : ∀ i, kernel.interrupt_handlers.get i ≠ 0#32) :
    Serviced m n kernel (enter m n kernel) ↔ 32 ≤ n.val ∨
      get? kernel.interrupt_handlers (savedFrame m n).toNat = some (vectorHandler n kernel) ∧
        m.regs.gs.setWidth 32 = errorCode m n := by
  by_cases hn : 32 ≤ n.val
  · exact iff_of_true (irq_serviced htable hn) (.inl hn)
  · rw [exception_serviced_iff htable (by omega),or_iff_right hn]

end Entry

section Example

def returnAtOnce : Callee where
  run := fun m => { m with esp := m.esp + 4#32 }
  returns := fun _ => rfl
  keeps := fun _ _ _ => rfl

-- entry i is the handler at address i + 1
def numberedHandlers : Kernel where
  interrupt_handlers := Vector.ofFn fun i => BitVec.ofNat 32 (i.val + 1)
  callee := fun _ => returnAtOnce
  return_address := 0x100000#32

theorem numberedHandlers_nonnull (i : Fin 256) :
    numberedHandlers.interrupt_handlers.get i ≠ 0#32 := by
  rw [numberedHandlers,get_ofFn]
  intro hzero
  have hnat := congrArg BitVec.toNat hzero
  rw [BitVec.toNat_ofNat,BitVec.toNat_ofNat] at hnat
  omega

def interrupted : Machine :=
  ⟨⟨0#32,0#32,0#32,0#32,0#32,0#32,0#32,0x10#16,0x10#16,0x10#16,0x10#16⟩,0x9000#32,fun _ => 0#32,true⟩

theorem interrupt_entry_reaches_keyboard :
    Serviced interrupted 33 numberedHandlers (enter interrupted 33 numberedHandlers) :=
  (interrupt_entry_reaches_handler numberedHandlers_nonnull).mpr (.inl (by decide))

-- isr_handler gets the address of the saved registers as int_no
theorem breakpoint_reads_past_table : (∀ i, numberedHandlers.interrupt_handlers.get i ≠ 0#32) ∧
    ¬ Serviced interrupted 3 numberedHandlers (enter interrupted 3 numberedHandlers) := by
  refine ⟨numberedHandlers_nonnull,fun h => ?_⟩
  obtain ⟨hget,-⟩ := (exception_serviced_iff numberedHandlers_nonnull (by decide)).mp h
  rw [get?,dif_neg (by decide)] at hget
  cases hget

end Example

end KluxOS.Interrupt
