import KluxOS.Process.ProcessList

namespace KluxOS.Processes

open LinkedList

-- the table with every process created so far, newest first, and every one terminated
structure History where
  table : ProcessTable
  created : List ProcessPtr
  terminated : List ProcessPtr

def History.live (h : History) : List ProcessPtr :=
  h.created.filter fun p => p ∉ h.terminated

def historyInit (alloc : Allocator) (kernel : KernelState) : Option History :=
  (processInit alloc (.boot kernel)).map fun s => ⟨s,[0],[]⟩

def historyStep (alloc : Allocator) (h : History) : ProcessCall → Option History
  | .create name entry_point =>
    (processCreate alloc h.table name entry_point).map fun r =>
      { h with table := r.1, created := r.2 :: h.created }
  | .terminate process => (processTerminate h.table process).map fun s =>
      { h with table := s, terminated := process.toList ++ h.terminated }
  | .schedule => (processSchedule h.table).map fun s => { h with table := s }
  | .tick => (schedulerTick h.table).map fun s => { h with table := s }

section Sound

structure Sound (h : History) : Prop where
  listed : Listed h.table h.live
  created : ∀ p, p ∈ h.created ↔ p < h.table.processes.length
  terminated : ∀ p ∈ h.terminated, p < h.table.processes.length
  kernel : h.created.getLast? = some 0

variable {alloc : Allocator} {kernel : KernelState} {h k : History}

theorem sound_init (hh : historyInit alloc kernel = some h) : Sound h := by
  obtain ⟨s,hs,rfl⟩ := Option.map_eq_some_iff.mp hh
  obtain ⟨process,hprocesses,-⟩ := processInit_some hs
  refine ⟨processInit_listed hs,fun p => ?_,fun p hp => absurd hp List.not_mem_nil,rfl⟩
  rw [hprocesses,List.mem_singleton,List.length_singleton,Nat.lt_one_iff]

theorem live_create {p : ProcessPtr} (hs : Sound h) (hp : p = h.table.processes.length)
    {t : ProcessTable} : (History.mk t (p :: h.created) h.terminated).live = p :: h.live := by
  have hfresh : p ∉ h.terminated := fun hmem =>
    absurd (hs.terminated p hmem) (hp ▸ Nat.lt_irrefl _)
  rw [History.live,List.filter_cons_of_pos (by simpa using hfresh)]
  rfl

theorem live_terminate {p : ProcessPtr} (hs : Sound h) {t : ProcessTable} :
    (History.mk t h.created (p :: h.terminated)).live = h.live.erase p := by
  rw [hs.listed.chain.nodup.erase_eq_filter,History.live,History.live,List.filter_filter]
  refine List.filter_congr fun q _ => ?_
  rw [bne,beq_eq_decide]
  simp

theorem sound_step {c : ProcessCall} (hs : Sound h) (hk : historyStep alloc h c = some k) :
    Sound k := by
  cases c with
  | create name entry_point =>
    obtain ⟨⟨t,p⟩,ht,rfl⟩ := Option.map_eq_some_iff.mp hk
    obtain ⟨hp,-,-,new,hprocesses,-⟩ := processCreate_some ht
    have hlength : t.processes.length = h.table.processes.length + 1 := by
      rw [hprocesses,List.length_append,List.length_singleton]
    refine ⟨?_,fun q => ?_,fun q hq => ?_,?_⟩
    · rw [live_create hs hp]
      exact (processCreate_listed hs.listed ht).1
    · rw [List.mem_cons,hs.created q,hlength,hp,Nat.lt_succ_iff_lt_or_eq,or_comm]
    · rw [hlength]
      exact Nat.lt_succ_of_lt (hs.terminated q hq)
    · rw [List.getLast?_cons,hs.kernel]
      rfl
  | terminate process =>
    obtain ⟨t,ht,rfl⟩ := Option.map_eq_some_iff.mp hk
    cases process with
    | none =>
      cases ht
      exact hs
    | some p =>
      obtain ⟨hlisted,hlength,-⟩ := terminated_listed hs.listed ht
      refine ⟨live_terminate hs ▸ hlisted,fun q => ?_,fun q hq => ?_,hs.kernel⟩
      · rw [hlength]
        exact hs.created q
      · rw [hlength]
        rcases List.mem_cons.mp hq with rfl | hq
        · exact lt_of_terminate ht
        · exact hs.terminated q hq
  | schedule =>
    obtain ⟨t,ht,rfl⟩ := Option.map_eq_some_iff.mp hk
    obtain ⟨hlisted,hlength⟩ := processSchedule_listed hs.listed ht
    exact ⟨hlisted,hlength ▸ hs.created,hlength ▸ hs.terminated,hs.kernel⟩
  | tick =>
    obtain ⟨t,ht,rfl⟩ := Option.map_eq_some_iff.mp hk
    obtain ⟨hlisted,hlength⟩ := schedulerTick_listed hs.listed ht
    exact ⟨hlisted,hlength ▸ hs.created,hlength ▸ hs.terminated,hs.kernel⟩

end Sound

theorem process_list_integrity (alloc : Allocator) (kernel : KernelState) (cs : List ProcessCall)
    (h₀ h : History) (hinit : historyInit alloc kernel = some h₀)
    (hrun : Run.run (historyStep alloc) h₀ cs = some h) :
    Chain Process.next h.table.processes h.table.process_list h.live ∧ h.live.Nodup ∧
      h.created.getLast? = some 0 ∧
      (∀ c, h.table.current_process = some c → c ∈ h.live) ∧
      ∀ p ∈ h.terminated, h.table.current_process ≠ some p := by
  have hs : Sound h := Run.run_invariant (sound_init hinit) (fun _ _ _ => sound_step) hrun
  refine ⟨hs.listed.chain,hs.listed.chain.nodup,hs.kernel,hs.listed.current,fun p hp hc => ?_⟩
  have hlive := (List.mem_filter.mp (hs.listed.current p hc)).2
  exact absurd hp (of_decide_eq_true hlive)

-- a second process, the kernel process ended, its handle ended again
def stale : List ProcessCall :=
  [.create ['a'] 0#32,.schedule,.terminate (some 0),.create ['b'] 0#32,.terminate (some 0)]

def historyAfter (cs : List ProcessCall) : Option History :=
  (historyInit constantAllocator .boot).bind fun h => Run.run (historyStep constantAllocator) h cs

theorem process_list_integrity_stale : ∃ h, historyAfter stale = some h ∧ h.live = [2,1] ∧
    Chain Process.next h.table.processes h.table.process_list h.live ∧ h.live.Nodup := by
  have hlive : (historyAfter stale).map History.live = some [2,1] := by decide
  obtain ⟨h,hh,hlive⟩ := Option.map_eq_some_iff.mp hlive
  obtain ⟨h₀,hinit,hrun⟩ := Option.bind_eq_some_iff.mp hh
  obtain ⟨hchain,hnodup,-⟩ :=
    process_list_integrity constantAllocator .boot stale h₀ h hinit hrun
  exact ⟨h,hh,hlive,hchain,hnodup⟩

end KluxOS.Processes
