import KluxOS.Lib.Interleaving
import KluxOS.Process.SchedulerSafety
import KluxOS.Syscall.Handler
import KluxOS.Syscall.TextAndTicks

namespace KluxOS.Syscall

open KernelState Fs Processes Interleaving Run

section Halves

-- what changes processes
inductive ProcessEvent where
  | exit
  | tick
deriving DecidableEq

-- what changes files and descriptors, with the address of the caller's buffer
inductive FileEvent where
  | call (c : FdCall) (buf : Uint32)
  | tick

def processEventStep (s : ProcessTable) : ProcessEvent → Option ProcessTable
  | .exit => syscallExit s
  | .tick => schedulerTick s

def countTick (s : KernelState) : KernelState := { s with tick_count := s.tick_count + 1#32 }

abbrev Files := KernelState × List (Uint32 × List Uint8)

def fileEventStep (hooks : Hooks) (alloc : Allocator) (s : Files) : FileEvent → Option Files
  | .call (.read fd count) buf => (syscallRead hooks s.1 fd count).map fun r =>
      (r.1,s.2 ++ [(buf,r.2.2)])
  | .call (.write fd buf count) _ => (syscallWrite hooks alloc s.1 fd buf count).map fun r =>
      (r.1,s.2)
  | .call (.open_ pathname flags) _ => (syscallOpen hooks alloc s.1 pathname flags).map fun r =>
      (r.1,s.2)
  | .call (.close fd) _ => (syscallClose hooks s.1 fd).map fun r => (r.1,s.2)
  | .tick => some (countTick s.1,s.2)

def fileCall (arg1 arg2 arg3 : Uint32) (caller : Caller) : SystemCall → Option FdCall
  | .read => some (.read arg1.toInt arg3)
  | .write => some (.write arg1.toInt caller.bytes arg3)
  | .open_ => some (.open_ (if arg1 = 0#32 then none else some caller.text) arg2)
  | .close => some (.close arg1.toInt)
  | _ => none

def processCall : SystemCall → Option ProcessEvent
  | .exit => some .exit
  | _ => none

def processEvent (table : SyscallTable) : Trap → Option ProcessEvent
  | .call syscall_num _ _ _ _ => (tableEntry table syscall_num).bind processCall
  | .tick => some .tick

def fileEvent (table : SyscallTable) : Trap → Option FileEvent
  | .call syscall_num arg1 arg2 arg3 caller =>
    ((tableEntry table syscall_num).bind (fileCall arg1 arg2 arg3 caller)).map (.call · arg2)
  | .tick => some .tick

-- only the kernels differ, and they agree on the tick that the scheduler reads
def SameProcesses (s t : ProcessTable) : Prop :=
  t = { s with kernel := t.kernel } ∧ SameTicks s.kernel t.kernel

-- only what has been printed differs
def SameFiles (s t : KernelState) : Prop := { s with terminal := [] } = { t with terminal := [] }

end Halves

section Apart

variable {hooks : Hooks} {alloc : Allocator} {s : ProcessTable} {k : KernelState}

theorem sameFiles_iff {s t : KernelState} :
    SameFiles s t ↔ ∃ base w w', s = afterText w base ∧ t = afterText w' base := by
  constructor
  · intro h
    refine ⟨{ s with terminal := [] },s.terminal,t.terminal,?_,?_⟩
    · exact congrArg (fun terminal => { s with terminal := terminal }) (List.append_nil _).symm
    · rw [h]
      exact congrArg (fun terminal => { t with terminal := terminal }) (List.append_nil _).symm
  · rintro ⟨base,w,w',rfl,rfl⟩
    rfl

-- a call that does not see what has been printed does the same on both kernels
theorem sameFiles_call {α : Type} {f : KernelState → Option (KernelState × α)}
    (hf : ∀ w s, f (afterText w s) = (f s).map (laterBy w)) {s t : KernelState}
    (h : SameFiles s t) : Option.Rel (fun r q => SameFiles r.1 q.1 ∧ r.2 = q.2) (f s) (f t) := by
  obtain ⟨base,w,w',rfl,rfl⟩ := sameFiles_iff.mp h
  rw [hf,hf]
  cases f base with
  | none => exact .none
  | some r => exact .some ⟨rfl,rfl⟩

def withKernel (s : ProcessTable) (k : KernelState) : ProcessTable := { s with kernel := k }

@[simp] theorem withKernel_kernel : (withKernel s k).kernel = k := rfl

@[simp] theorem withKernel_processes : (withKernel s k).processes = s.processes := rfl

@[simp] theorem withKernel_list : (withKernel s k).process_list = s.process_list := rfl

@[simp] theorem withKernel_current : (withKernel s k).current_process = s.current_process := rfl

theorem withKernel_print (text : CString) :
    (withKernel s k).print text = withKernel s (k.print text) := rfl

theorem unlink_withKernel (k : KernelState) (p : ProcessPtr) (next : Option ProcessPtr) :
    unlink (withKernel s k) p next = (unlink s p next).map (withKernel · k) := by
  rw [unlink,unlink,withKernel_list,withKernel_processes]
  by_cases hfirst : s.process_list = some p
  · rw [if_pos hfirst,if_pos hfirst]
    rfl
  · rw [if_neg hfirst,if_neg hfirst]
    cases LinkedList.predecessor Process.next s.processes p s.processes.length s.process_list with
    | none => rfl
    | some found => cases found <;> rfl

theorem kfree_prints (ptr : Uint32) : ∃ text, ∀ s, kfree s ptr = s.print text := by
  by_cases hnull : ptr = 0#32
  · exact ⟨[],fun s => by rw [kfree,if_pos hnull,print_nil]⟩
  · exact ⟨_,fun s => by rw [kfree,if_neg hnull]⟩

theorem release_withKernel (p : ProcessPtr) (process : Process) : ∃ text, ∀ s k,
    release (withKernel s k) p process = withKernel (release s p process) (k.print text) := by
  obtain ⟨a,ha⟩ := kfree_prints process.kernel_stack
  obtain ⟨b,hb⟩ := kfree_prints process.block
  refine ⟨a ++ b,fun s k => ?_⟩
  rw [release,release,withKernel_current,← print_print]
  simp only [ha,hb]
  by_cases hp : s.current_process = some p
  · simp only [if_pos hp]
    rfl
  · simp only [if_neg hp]
    rfl

theorem processTerminate_withKernel (s : ProcessTable) (p : ProcessPtr) : ∃ text, ∀ k,
    processTerminate (withKernel s k) (some p) =
      (processTerminate s (some p)).map (withKernel · (k.print text)) := by
  cases hp : s.processes[p]? with
  | none =>
    refine ⟨[],fun k => ?_⟩
    simp only [processTerminate,withKernel_processes,hp,Option.bind_eq_bind,Option.bind_none,
      Option.map_none]
  | some process =>
    obtain ⟨text,hrelease⟩ := release_withKernel p process
    have hbody : ∀ k, processTerminate (withKernel s k) (some p) =
        (unlink s p process.next).map fun u => withKernel (release u p process)
          ((((k.print "Islem sonlandiriliyor: ".toList).print process.name).print ['\n']).print
            text) := by
      intro k
      simp only [processTerminate,withKernel_processes,hp,withKernel_print,Option.bind_eq_bind,
        Option.bind_some,unlink_withKernel]
      cases unlink s p process.next with
      | none => rfl
      | some u => exact congrArg some (hrelease u _)
    refine ⟨"Islem sonlandiriliyor: ".toList ++ (process.name ++ (['\n'] ++ text)),fun k => ?_⟩
    have hself : processTerminate s (some p) = processTerminate (withKernel s s.kernel) (some p) :=
      rfl
    rw [hbody k,hself,hbody s.kernel,Option.map_map,print_print,print_print,print_print]
    exact congrArg (fun f => (unlink s p process.next).map f) rfl

theorem processSwitch_withKernel (k : KernelState) (next : ProcessPtr) :
    processSwitch (withKernel s k) next = (processSwitch s next).map (withKernel · k) := by
  rw [processSwitch,processSwitch,withKernel_current]
  by_cases hnext : s.current_process = some next
  · rw [if_pos hnext,if_pos hnext]
    rfl
  · rw [if_neg hnext,if_neg hnext]
    cases s.current_process <;> rfl

theorem processSchedule_withKernel (k : KernelState) :
    processSchedule (withKernel s k) = (processSchedule s).map (withKernel · k) := by
  simp only [processSchedule,withKernel_list,withKernel_current,withKernel_processes,
    processSwitch_withKernel,Option.bind_eq_bind]
  cases s.process_list with
  | none => rfl
  | some first =>
    cases s.current_process with
    | none => rfl
    | some current =>
      dsimp only [Option.bind_some]
      cases s.processes[current]? with
      | none => rfl
      | some process =>
        dsimp only [Option.bind_some]
        cases scheduleLoop s.processes first current (s.processes.length + 1)
            (process.next.getD first) with
        | none => rfl
        | some next =>
          dsimp only [Option.bind_some]
          cases s.processes[next]? with
          | none => rfl
          | some process =>
            dsimp only [Option.bind_some]
            split_ifs <;> rfl

theorem schedulerTick_withKernel (h : SameTicks s.kernel k) : schedulerTick (withKernel s k) =
    (schedulerTick s).map (withKernel · (countTick k)) := by
  have hticked : ticked (withKernel s k) = withKernel (ticked s) (countTick k) := rfl
  have hcount : (countTick k).tick_count = (ticked s).kernel.tick_count :=
    congrArg (· + 1#32) h
  simp only [schedulerTick,hticked,withKernel_kernel,hcount,withKernel_list,withKernel_processes,
    processSchedule_withKernel,Option.bind_eq_bind]
  by_cases hdue : (ticked s).kernel.tick_count % timeSlice = 0#32
  · rw [if_pos hdue,if_pos hdue]
    cases (ticked s).process_list with
    | none => rfl
    | some first =>
      dsimp only
      cases (ticked s).processes[first]? with
      | none => rfl
      | some process =>
        dsimp only [Option.bind_some]
        split_ifs <;> rfl
  · rw [if_neg hdue,if_neg hdue]
    rfl

theorem syscallExit_withKernel (s : ProcessTable) : ∃ text, ∀ k,
    syscallExit (withKernel s k) = (syscallExit s).map (withKernel · (k.print text)) := by
  cases hc : s.current_process with
  | none =>
    refine ⟨[],fun k => ?_⟩
    simp only [syscallExit,withKernel_current,hc,Option.map_some,print_nil]
  | some c =>
    obtain ⟨text,hterminate⟩ := processTerminate_withKernel s c
    have hexit : ∀ k, syscallExit (withKernel s k) =
        processTerminate (withKernel s (k.print exitText)) (some c) := by
      intro k
      rw [syscallExit,withKernel_current,hc]
      rfl
    refine ⟨exitText ++ text,fun k => ?_⟩
    have hself : syscallExit s = syscallExit (withKernel s s.kernel) := rfl
    rw [hself,hexit k,hexit s.kernel,hterminate,hterminate,Option.map_map,print_print,print_print]
    exact congrArg (fun f => (processTerminate s (some c)).map f) rfl

end Apart

section Split

variable {hooks : Hooks} {alloc : Allocator} {s : System} {a : ProcessTable} {b : Files}

def InTable (s : System) (a : ProcessTable) : Prop := SameProcesses s.table a

def InFiles (s : System) (b : Files) : Prop :=
  SameFiles s.table.kernel b.1 ∧ s.stored = b.2

def Split (s : System) (p : ProcessTable × Files) : Prop := InTable s p.1 ∧ InFiles s p.2

theorem inTable_kernel {k : KernelState} (h : InTable s a) (hk : SameTicks s.table.kernel k)
    (stored : List (Uint32 × List Uint8)) : InTable ⟨withKernel s.table k,stored⟩ a :=
  ⟨h.1,h.2.trans hk.symm⟩

theorem split_print (ha : InTable s a) (hb : InFiles s b) (text : CString) :
    Option.Rel Split (some { s with table := s.table.print text })
      (Option.map₂ Prod.mk (some a) (some b)) :=
  .some ⟨inTable_kernel (k := s.table.kernel.print text) ha rfl s.stored,hb⟩

theorem split_exit (ha : InTable s a) (hb : InFiles s b) :
    Option.Rel Split ((syscallExit s.table).map fun table => { s with table })
      (Option.map₂ Prod.mk (syscallExit a) (some b)) := by
  obtain ⟨text,hexit⟩ := syscallExit_withKernel s.table
  have htable : a = withKernel s.table a.kernel := ha.1
  have hself : syscallExit s.table = syscallExit (withKernel s.table s.table.kernel) := rfl
  rw [hself,htable,hexit,hexit]
  cases syscallExit s.table with
  | none => exact .none
  | some t => exact .some ⟨⟨rfl,ha.2⟩,hb.1,hb.2⟩

theorem split_tick (ha : InTable s a) (hb : InFiles s b) :
    Option.Rel Split ((schedulerTick s.table).map fun table => { s with table })
      (Option.map₂ Prod.mk (schedulerTick a) (some (countTick b.1,b.2))) := by
  have htable : a = withKernel s.table a.kernel := ha.1
  have hself : schedulerTick s.table = schedulerTick (withKernel s.table s.table.kernel) := rfl
  rw [hself,htable,schedulerTick_withKernel ha.2,schedulerTick_withKernel rfl]
  cases schedulerTick s.table with
  | none => exact .none
  | some t =>
    refine .some ⟨⟨rfl,congrArg (· + 1#32) ha.2⟩,?_,hb.2⟩
    obtain ⟨base,w,w',hs,hb'⟩ := sameFiles_iff.mp hb.1
    exact sameFiles_iff.mpr ⟨countTick base,w,w',congrArg countTick hs,congrArg countTick hb'⟩

-- store is what the call leaves at the caller's buffer
theorem split_call {α : Type} {f : KernelState → Option (KernelState × α)}
    (htext : ∀ w k, f (afterText w k) = (f k).map (laterBy w))
    (hticks : ∀ r, f s.table.kernel = some r → SameTicks s.table.kernel r.1)
    (store : α → List (Uint32 × List Uint8) → List (Uint32 × List Uint8))
    (ha : InTable s a) (hb : InFiles s b) :
    Option.Rel Split
      ((f s.table.kernel).map fun r => ⟨withKernel s.table r.1,store r.2 s.stored⟩)
      (Option.map₂ Prod.mk (some a) ((f b.1).map fun r => (r.1,store r.2 b.2))) := by
  have hrel := sameFiles_call htext hb.1
  generalize f b.1 = y at hrel
  cases hf : f s.table.kernel with
  | none =>
    rw [hf] at hrel
    cases hrel
    exact .none
  | some r =>
    rw [hf] at hrel
    cases hrel with
    | some h =>
      refine .some ⟨inTable_kernel ha (hticks r hf) _,h.1,?_⟩
      dsimp only
      rw [h.2,hb.2]

theorem callFunction_split (hkeep : HooksKeep hooks SameTicks) (htext : IgnoresText hooks)
    (ha : InTable s a) (hb : InFiles s b) (arg1 arg2 arg3 : Uint32) (caller : Caller)
    (call : SystemCall) :
    Option.Rel Split (callFunction hooks alloc s arg1 arg2 arg3 caller call)
      (Option.map₂ Prod.mk
        ((processCall call).elim (some a) (processEventStep a))
        (((fileCall arg1 arg2 arg3 caller call).map (FileEvent.call · arg2)).elim (some b)
          (fileEventStep hooks alloc b))) := by
  cases call with
  | exit => exact split_exit ha hb
  | read =>
    exact split_call (f := fun k => syscallRead hooks k arg1.toInt arg3)
      (fun w k => syscallRead_afterText k w htext arg1.toInt arg3)
      (fun _ h => read_ticks hkeep h) (fun r stored => stored ++ [(arg2,r.2)]) ha hb
  | write =>
    exact split_call (f := fun k => syscallWrite hooks alloc k arg1.toInt caller.bytes arg3)
      (fun w k => syscallWrite_afterText alloc k w htext arg1.toInt caller.bytes arg3)
      (fun _ h => write_ticks hkeep h) (fun _ stored => stored) ha hb
  | open_ =>
    exact split_call (f := fun k => syscallOpen hooks alloc k
      (if arg1 = 0#32 then none else some caller.text) arg2)
      (fun w k => syscallOpen_afterText alloc k w htext _ arg2)
      (fun _ h => open_ticks hkeep h) (fun _ stored => stored) ha hb
  | close =>
    exact split_call (f := fun k => syscallClose hooks k arg1.toInt)
      (fun w k => syscallClose_afterText k w htext arg1.toInt)
      (fun _ h => close_ticks hkeep h) (fun _ stored => stored) ha hb
  | getpid => exact .some ⟨ha,hb⟩
  | fork => exact split_print ha hb _
  | exec => exact split_print ha hb _
  | time => exact split_print ha hb _
  | sleep => exact split_print ha hb _
  | malloc => exact split_print ha hb _
  | free => exact split_print ha hb _

theorem trapStep_invalid {table : SyscallTable} {syscall_num : Uint32}
    (h : tableEntry table syscall_num = none) (arg1 arg2 arg3 : Uint32) (caller : Caller) :
    trapStep hooks alloc table s (.call syscall_num arg1 arg2 arg3 caller) =
      some { s with table := s.table.print invalidText } := by
  unfold trapStep syscallHandler
  dsimp only
  rw [h]

theorem trapStep_entry {table : SyscallTable} {syscall_num : Uint32} {call : SystemCall}
    (h : tableEntry table syscall_num = some call) (arg1 arg2 arg3 : Uint32) (caller : Caller) :
    trapStep hooks alloc table s (.call syscall_num arg1 arg2 arg3 caller) =
      callFunction hooks alloc s arg1 arg2 arg3 caller call := by
  unfold trapStep syscallHandler
  dsimp only
  rw [h]

theorem trapStep_split (hkeep : HooksKeep hooks SameTicks) (htext : IgnoresText hooks)
    (table : SyscallTable) (ha : InTable s a) (hb : InFiles s b) (e : Trap) :
    Option.Rel Split (trapStep hooks alloc table s e)
      (Option.map₂ Prod.mk (half processEventStep (processEvent table) a e)
        (half (fileEventStep hooks alloc) (fileEvent table) b e)) := by
  cases e with
  | tick => exact split_tick ha hb
  | call syscall_num arg1 arg2 arg3 caller =>
    cases hentry : tableEntry table syscall_num with
    | none =>
      have hprocess : processEvent table (.call syscall_num arg1 arg2 arg3 caller) = none := by
        rw [processEvent,hentry,Option.bind_none]
      have hfile : fileEvent table (.call syscall_num arg1 arg2 arg3 caller) = none := by
        rw [fileEvent,hentry,Option.bind_none,Option.map_none]
      rw [trapStep_invalid hentry,half,half,hprocess,hfile]
      exact split_print ha hb invalidText
    | some call =>
      have hprocess : processEvent table (.call syscall_num arg1 arg2 arg3 caller) =
          processCall call := by
        rw [processEvent,hentry,Option.bind_some]
      have hfile : fileEvent table (.call syscall_num arg1 arg2 arg3 caller) =
          (fileCall arg1 arg2 arg3 caller call).map (.call · arg2) := by
        rw [fileEvent,hentry,Option.bind_some]
      rw [trapStep_entry hentry,half,half,hprocess,hfile]
      exact callFunction_split hkeep htext ha hb arg1 arg2 arg3 caller call

end Split

-- the table of init_syscalls, which is all zeros before, and the output of the call
def booted (s : ProcessTable) : SyscallTable × ProcessTable :=
  initSyscalls (Vector.replicate 32 none) s

section Booted

variable {hooks : Hooks}

theorem booted_split (s : ProcessTable) : InTable ⟨(booted s).2,[]⟩ s ∧
    InFiles ⟨(booted s).2,[]⟩ (s.kernel,[]) :=
  ⟨⟨rfl,rfl⟩,rfl,rfl⟩

theorem traps_split (alloc : Allocator) (hkeep : HooksKeep hooks SameTicks)
    (htext : IgnoresText hooks) (s : ProcessTable) (traps : List Trap) :
    Option.Rel Split (run (trapStep hooks alloc (booted s).1) ⟨(booted s).2,[]⟩ traps)
      (Option.map₂ Prod.mk
        (run processEventStep s (traps.filterMap (processEvent (booted s).1)))
        (run (fileEventStep hooks alloc) (s.kernel,[])
          (traps.filterMap (fileEvent (booted s).1)))) :=
  run_apart (R := InTable) (S := InFiles)
    (fun _ _ _ e ha hb => trapStep_split hkeep htext (booted s).1 ha hb e)
    (booted_split s).1 (booted_split s).2 traps

theorem mem_systemCalls (call : SystemCall) : call ∈ systemCalls := by
  cases call <;> decide

theorem booted_get : ∀ i : Fin 32, ∀ call ∈ systemCalls,
    ((systemCalls.foldl setEntry (Vector.replicate 32 none)).get i = some call ↔
      i = call.number) := by
  decide

theorem tableEntry_booted (s : ProcessTable) (syscall_num : Uint32) (call : SystemCall) :
    tableEntry (booted s).1 syscall_num = some call ↔ syscall_num.toNat = call.number := by
  rw [tableEntry]
  by_cases hlt : syscall_num.toNat < 32
  · rw [CArray.get?_eq _ hlt rfl,Option.join_some]
    exact (booted_get ⟨_,hlt⟩ call (mem_systemCalls call)).trans Fin.ext_iff
  · have hnone : CArray.get? (booted s).1 (syscall_num.toNat : ℤ) = none := by
      rw [CArray.get?,dif_neg (by omega)]
    rw [hnone]
    refine iff_of_false (fun h => by cases h) (fun h => hlt ?_)
    rw [h]
    exact call.number.isLt

end Booted

section Exits

variable {a : ProcessTable} {l : List ProcessPtr}

-- a process is current unless none is left
structure Settled (a : ProcessTable) (l : List ProcessPtr) : Prop where
  listed : Listed a l
  current : a.current_process = none → l = []

theorem settled_exit (h : Settled a l) : ∃ b m, syscallExit a = some b ∧ Settled b m ∧
    m.Sublist l ∧ m.length = l.length - 1 := by
  cases hc : a.current_process with
  | none =>
    have hl := h.current hc
    subst hl
    refine ⟨a,[],?_,h,List.Sublist.refl [],rfl⟩
    rw [syscallExit,hc]
  | some c =>
    have hmem := h.listed.current c hc
    have hprinted : Listed (a.print exitText) l :=
      ⟨h.listed.chain,h.listed.current,h.listed.ready⟩
    have hlt : c < (a.print exitText).processes.length := hprinted.chain.lt_of_mem hmem
    obtain ⟨b,hb,hlisted,-,hcurrent,-⟩ := processTerminate_listed hprinted hlt
    refine ⟨b,l.erase c,?_,⟨hlisted,fun hnone => ?_⟩,List.erase_sublist,
      List.length_erase_of_mem hmem⟩
    · rw [syscallExit,hc]
      exact hb
    · have hstart := hlisted.chain.start_eq
      have hprint : (a.print exitText).current_process = some c := hc
      rw [if_pos hprint] at hcurrent
      rw [← hcurrent,hnone] at hstart
      exact List.head?_eq_none_iff.mp hstart.symm

theorem settled_tick (h : Settled a l) : ∃ b, schedulerTick a = some b ∧ Settled b l := by
  have hticked : Listed (Processes.ticked a) l := ticked_listed h.listed
  have hsome : ∃ b, schedulerTick a = some b ∧ (b.current_process = none → l = []) := by
    rw [schedulerTick_eq h.listed]
    by_cases hdue : Due a ∧ 2 ≤ l.length
    · rw [if_pos hdue]
      cases hc : a.current_process with
      | none =>
        rw [h.current hc] at hdue
        exact absurd hdue.2 (by decide)
      | some c =>
        have hcurrent : (Processes.ticked a).current_process = some c := hc
        obtain ⟨b,hb,-⟩ := processSchedule_current hticked hcurrent
        refine ⟨b,hb,fun hnone => ?_⟩
        rcases schedule_current hticked hb with hsame | ⟨-,hne⟩
        · rw [hnone,hcurrent] at hsame
          cases hsame
        · exact absurd hnone hne
    · rw [if_neg hdue]
      exact ⟨_,rfl,h.current⟩
  obtain ⟨b,hb,hcurrent⟩ := hsome
  exact ⟨b,hb,(schedulerTick_listed h.listed hb).1,hcurrent⟩

theorem settled_run (h : Settled a l) (events : List ProcessEvent) : ∃ b m,
    run processEventStep a events = some b ∧ Settled b m ∧ m.Sublist l ∧
      m.length = l.length - events.count .exit := by
  induction events generalizing a l with
  | nil => exact ⟨a,l,rfl,h,List.Sublist.refl l,rfl⟩
  | cons e events ih =>
    cases e with
    | exit =>
      obtain ⟨b,m,hb,hm,hsub,hlength⟩ := settled_exit h
      obtain ⟨d,n,hd,hn,hsub',hlength'⟩ := ih hm
      refine ⟨d,n,Option.bind_eq_some_iff.mpr ⟨b,hb,hd⟩,hn,hsub'.trans hsub,?_⟩
      rw [hlength',hlength,List.count_cons_self,Nat.sub_sub,Nat.add_comm 1]
    | tick =>
      obtain ⟨b,hb,hm⟩ := settled_tick h
      obtain ⟨d,n,hd,hn,hsub,hlength⟩ := ih hm
      refine ⟨d,n,Option.bind_eq_some_iff.mpr ⟨b,hb,hd⟩,hn,hsub,?_⟩
      rw [hlength,List.count_cons_of_ne (by decide)]

theorem Settled.of_table {s : System} (h : Settled a l) (hs : InTable s a) :
    s.table.list = l ∧ (s.table.current_process = none ↔ l = []) := by
  have htable : a = withKernel s.table a.kernel := hs.1
  have hlist : s.table.list = l :=
    (congrArg ProcessTable.list htable).symm.trans h.listed.list_eq
  have hsame : s.table.current_process = a.current_process :=
    (congrArg ProcessTable.current_process htable).symm
  refine ⟨hlist,?_⟩
  rw [hsame]
  refine ⟨h.current,fun hnil => ?_⟩
  subst hnil
  cases hc : a.current_process with
  | none => rfl
  | some c => exact absurd (h.listed.current c hc) List.not_mem_nil

end Exits

theorem system_calls_stay_apart (hooks : Hooks) (alloc : Allocator)
    (hkeep : HooksKeep hooks SameTicks) (htext : IgnoresText hooks) (s : ProcessTable)
    (traps : List Trap) :
    (∀ syscall_num call, tableEntry (booted s).1 syscall_num = some call ↔
      syscall_num.toNat = call.number) ∧
    Option.Rel Split (run (trapStep hooks alloc (booted s).1) ⟨(booted s).2,[]⟩ traps)
      (Option.map₂ Prod.mk
        (run processEventStep s (traps.filterMap (processEvent (booted s).1)))
        (run (fileEventStep hooks alloc) (s.kernel,[])
          (traps.filterMap (fileEvent (booted s).1)))) :=
  ⟨tableEntry_booted s,traps_split alloc hkeep htext s traps⟩

section Example

theorem treeHooks_ignoresText : IgnoresText treeHooks where
  read := fun _ _ _ _ _ _ => rfl
  write := fun _ _ _ _ _ _ _ => rfl
  open_ := fun _ _ _ _ => rfl
  close := fun _ _ _ _ => rfl
  truncate := fun _ _ _ _ => rfl
  finddir := fun _ _ _ _ _ => rfl

-- open("a", O_RDWR), a tick, exit(), a number without an entry
def openThenExit : List Trap :=
  [.call 5#32 0x1000#32 oRdwr 0#32 ⟨['a'],fun _ => 0#8⟩,.tick,
    .call 1#32 0#32 0#32 0#32 ⟨[],fun _ => 0#8⟩,.call 40#32 0#32 0#32 0#32 ⟨[],fun _ => 0#8⟩]

end Example

theorem system_calls_stay_apart_open : Option.Rel Split
    (run (trapStep treeHooks constantAllocator (booted (.boot plainRoot)).1)
      ⟨(booted (.boot plainRoot)).2,[]⟩ openThenExit)
    (Option.map₂ Prod.mk
      (run processEventStep (.boot plainRoot)
        (openThenExit.filterMap (processEvent (booted (.boot plainRoot)).1)))
      (run (fileEventStep treeHooks constantAllocator) (plainRoot,[])
        (openThenExit.filterMap (fileEvent (booted (.boot plainRoot)).1)))) :=
  (system_calls_stay_apart treeHooks constantAllocator (treeHooks_keep fun _ => rfl)
    treeHooks_ignoresText (.boot plainRoot) openThenExit).2

theorem exits_end_processes (hooks : Hooks) (alloc : Allocator)
    (hkeep : HooksKeep hooks SameTicks) (htext : IgnoresText hooks) (kernel : KernelState)
    (cs : List ProcessCall) (s₀ s : ProcessTable)
    (hinit : processInit alloc (.boot kernel) = some s₀)
    (hrun : run (processStep alloc) s₀ cs = some s) (hcurrent : s.current_process ≠ none)
    (traps : List Trap) :
    ((run (trapStep hooks alloc (booted s).1) ⟨(booted s).2,[]⟩ traps).isSome ↔
      (run (fileEventStep hooks alloc) (s.kernel,[])
        (traps.filterMap (fileEvent (booted s).1))).isSome) ∧
    ∀ t, run (trapStep hooks alloc (booted s).1) ⟨(booted s).2,[]⟩ traps = some t →
      t.table.list.Sublist s.list ∧
      t.table.list.length =
        s.list.length - (traps.filterMap (processEvent (booted s).1)).count .exit ∧
      (t.table.current_process = none ↔ t.table.list = []) := by
  have hconsistent : Consistent s := run_invariant (processInit_listed hinit).consistent
    (fun _ _ _ hl => processStep_listed hl) hrun
  have hsettled : Settled s s.list := ⟨hconsistent,fun h => absurd h hcurrent⟩
  obtain ⟨a,m,ha,hm,hsub,hlength⟩ :=
    settled_run hsettled (traps.filterMap (processEvent (booted s).1))
  have hrel := traps_split alloc hkeep htext s traps
  rw [ha] at hrel
  generalize run (trapStep hooks alloc (booted s).1) ⟨(booted s).2,[]⟩ traps = result at hrel ⊢
  generalize run (fileEventStep hooks alloc) (s.kernel,[])
    (traps.filterMap (fileEvent (booted s).1)) = files at hrel ⊢
  cases files with
  | none =>
    rw [Option.map₂_none_right] at hrel
    cases hrel
    exact ⟨Iff.rfl,fun t ht => by cases ht⟩
  | some files =>
    cases hrel with
    | @some t _ hsplit =>
      refine ⟨iff_of_true rfl rfl,fun u hu => ?_⟩
      cases hu
      obtain ⟨hlist,hnone⟩ := hm.of_table hsplit.1
      rw [hlist]
      exact ⟨hsub,hlength,hnone⟩

def twoCreated : List ProcessCall := [.create ['a'] 0#32,.create ['b'] 0#32]

theorem exits_end_processes_two : ∃ s₀ s, processInit constantAllocator (.boot .boot) = some s₀ ∧
    run (processStep constantAllocator) s₀ twoCreated = some s ∧
    ∀ t, run (trapStep treeHooks constantAllocator (booted s).1) ⟨(booted s).2,[]⟩
      openThenExit = some t → t.table.list.length = 2 := by
  have hshape : ((processInit constantAllocator (.boot .boot)).bind fun s₀ =>
      run (processStep constantAllocator) s₀ twoCreated).map
        (fun s => (s.list.length,s.current_process)) = some (3,some 0) := by decide
  obtain ⟨s,hs,hshape⟩ := Option.map_eq_some_iff.mp hshape
  obtain ⟨hlength,hc⟩ := Prod.mk.inj hshape
  obtain ⟨s₀,hinit,hrun⟩ := Option.bind_eq_some_iff.mp hs
  refine ⟨s₀,s,hinit,hrun,fun t ht => ?_⟩
  have hexits := (exits_end_processes treeHooks constantAllocator (treeHooks_keep fun _ => rfl)
    treeHooks_ignoresText .boot twoCreated s₀ s hinit hrun (hc ▸ Option.some_ne_none 0)
    openThenExit).2 t ht
  have hcount : (openThenExit.filterMap (processEvent (booted s).1)).count .exit = 1 := by
    have htable : (booted s).1 = (booted (.boot .boot)).1 := rfl
    rw [htable]
    decide
  rw [hexits.2.1,hlength,hcount]

end KluxOS.Syscall
