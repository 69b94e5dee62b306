import KluxOS.Process.ProcessList

namespace KluxOS.Processes

open LinkedList

def OneRunning (s : ProcessTable) : Prop :=
  s.process_list ≠ none → ∃ c ∈ s.list, s.current_process = some c ∧
    s.stateOf c = some .running ∧ ∀ p ∈ s.list, p ≠ c → s.stateOf p ≠ some .running

def StaysOneRunning (_ : ProcessTable) (_ : ProcessCall) (result : Option ProcessTable) : Prop :=
  ∀ t, result = some t → OneRunning t

-- nothing is created in an empty list, and only a last process ends while it is current
def CurrentKept (alloc : Allocator) (s : ProcessTable) (c : ProcessCall)
    (_ : Option ProcessTable) : Prop :=
  match c with
  | .create _ _ => s.process_list = none → (allocate alloc s.kernel processSize).2 = 0#32
  | .terminate process => ∀ p, process = some p → s.current_process = some p → s.list = [p]
  | .schedule => True
  | .tick => True

def CurrentRuns (s : ProcessTable) : Prop :=
  ∃ c, s.current_process = some c ∧ s.stateOf c = some .running

section Running

variable {alloc : Allocator} {s t : ProcessTable} {l m : List ProcessPtr}

theorem oneRunning_iff (hl : Listed s l) :
    OneRunning s ↔ (s.process_list ≠ none → CurrentRuns s) := by
  refine imp_congr_right fun _ => ?_
  rw [hl.list_eq]
  constructor
  · rintro ⟨c,-,hc,hrun,-⟩
    exact ⟨c,hc,hrun⟩
  · rintro ⟨c,hc,hrun⟩
    refine ⟨c,hl.current c hc,hc,hrun,fun p hp hpc hstate => ?_⟩
    have hready := hl.ready p hp (hc ▸ fun h => hpc (Option.some.inj h).symm)
    rw [hready] at hstate
    cases hstate

theorem list_of_current (hl : Listed s l) (h : CurrentRuns s) : s.process_list ≠ none := by
  obtain ⟨c,hc,-⟩ := h
  intro hnone
  rw [hl.chain.start_eq,List.head?_eq_none_iff] at hnone
  exact List.not_mem_nil (hnone ▸ hl.current c hc)

theorem currentRuns_congr (hl : Listed s l) (hcurrent : t.current_process = s.current_process)
    (hstate : ∀ q ∈ l, t.stateOf q = s.stateOf q) : CurrentRuns t ↔ CurrentRuns s := by
  refine exists_congr fun c => ?_
  rw [hcurrent]
  exact and_congr_right fun hc => by rw [hstate c (hl.current c hc)]

theorem create_running {name : CString} {entry_point : Uint32} {p : ProcessPtr}
    (hl : Listed s l) (hs : OneRunning s) (h : processCreate alloc s name entry_point = some (t,p)) :
    OneRunning t ↔ s.process_list ≠ none := by
  obtain ⟨-,hlist,hcurrent,-⟩ := processCreate_some h
  obtain ⟨hlisted,hstate⟩ := processCreate_listed hl h
  have hne : t.process_list ≠ none := hlist ▸ Option.some_ne_none p
  rw [oneRunning_iff hlisted,currentRuns_congr hl hcurrent hstate]
  exact ⟨fun h => list_of_current hl (h hne),fun h _ => (oneRunning_iff hl).mp hs h⟩

theorem terminate_current {p : ProcessPtr} (hl : Listed s l)
    (h : processTerminate s (some p) = some t) (hp : s.current_process = some p) :
    OneRunning t ↔ l = [p] := by
  obtain ⟨hlisted,-,hcurrent,hstate⟩ := terminated_listed hl h
  rw [oneRunning_iff hlisted]
  rw [if_pos hp] at hcurrent
  cases herase : l.erase p with
  | nil =>
    rw [herase] at hlisted
    refine iff_of_true (fun hne => absurd hlisted.chain.start_eq hne) ?_
    have hperm := List.perm_cons_erase (hl.current p hp)
    rw [herase] at hperm
    exact List.perm_singleton.mp hperm
  | cons q m =>
    rw [herase] at hlisted
    have hfirst : t.process_list = some q := hlisted.chain.start_eq
    have hq : q ∈ l.erase p := herase ▸ List.mem_cons_self
    obtain ⟨hqp,hql⟩ := hl.chain.nodup.mem_erase_iff.mp hq
    have hready : t.stateOf q = some .ready := by
      rw [hstate q hqp]
      exact hl.ready q hql (hp ▸ fun h => hqp (Option.some.inj h).symm)
    refine iff_of_false (fun hrun => ?_) fun hone => ?_
    · obtain ⟨c,hc,hrunning⟩ := hrun (hfirst ▸ Option.some_ne_none q)
      rw [hcurrent,hfirst] at hc
      cases hc
      rw [hready] at hrunning
      cases hrunning
    · rw [hone,List.erase_cons_head] at herase
      cases herase

theorem terminate_other {p : ProcessPtr} (hl : Listed s l) (hs : OneRunning s)
    (h : processTerminate s (some p) = some t) (hp : s.current_process ≠ some p) :
    OneRunning t := by
  obtain ⟨hlisted,-,hcurrent,hstate⟩ := terminated_listed hl h
  rw [if_neg hp] at hcurrent
  refine (oneRunning_iff hlisted).mpr fun hne => ?_
  have hnonempty : s.process_list ≠ none := by
    intro hnone
    rw [hl.chain.start_eq,List.head?_eq_none_iff] at hnone
    subst hnone
    exact hne hlisted.chain.start_eq
  obtain ⟨c,hc,hrun⟩ := (oneRunning_iff hl).mp hs hnonempty
  have hcp : c ≠ p := by
    rintro rfl
    exact hp hc
  exact ⟨c,hcurrent.trans hc,(hstate c hcp).trans hrun⟩

theorem schedule_running (hl : Listed s l) (hs : OneRunning s) (h : processSchedule s = some t) :
    OneRunning t := by
  have hlisted := (processSchedule_listed hl h).1
  rcases processSchedule_cases hl h with rfl | ⟨c,n,hc,hn,-,rfl⟩
  · exact hs
  · refine (oneRunning_iff hlisted).mpr fun _ => ⟨n,rfl,?_⟩
    obtain ⟨a,ha⟩ := hl.chain.get hn
    rw [switched_stateOf,if_pos rfl,ProcessTable.stateOf,ha]
    rfl

theorem tick_running (hl : Listed s l) (hs : OneRunning s) (h : schedulerTick s = some t) :
    OneRunning t := by
  rw [schedulerTick_eq hl] at h
  split at h
  · exact schedule_running (ticked_listed hl) hs h
  · cases h
    exact hs

theorem stays_create (hl : Consistent s) (hs : OneRunning s) (name : CString)
    (entry_point : Uint32) : StaysOneRunning s (.create name entry_point)
      (processStep alloc s (.create name entry_point)) ↔
    (s.process_list = none → (allocate alloc s.kernel processSize).2 = 0#32) := by
  have hblock : (processCreate alloc s name entry_point).isSome ↔
      (allocate alloc s.kernel processSize).2 ≠ 0#32 := processCreate_isSome
  simp only [StaysOneRunning,processStep]
  cases hcreate : processCreate alloc s name entry_point with
  | none =>
    rw [hcreate,ne_eq,Option.isSome_none] at hblock
    refine iff_of_true (fun t ht => by cases ht) fun _ => ?_
    by_contra hne
    exact Bool.false_ne_true (hblock.mpr hne)
  | some u =>
    rw [hcreate] at hblock
    have hrun := create_running hl hs hcreate
    have hne := hblock.mp rfl
    constructor
    · intro hone hnone
      exact absurd hnone (hrun.mp (hone u.1 rfl))
    · rintro hlist t ⟨⟩
      exact hrun.mpr fun hnone => hne (hlist hnone)

theorem stays_terminate (hl : Consistent s) (hs : OneRunning s) (p : ProcessPtr) :
    StaysOneRunning s (.terminate (some p)) (processStep alloc s (.terminate (some p))) ↔
      (s.current_process = some p → s.list = [p]) := by
  simp only [StaysOneRunning,processStep]
  by_cases hp : s.current_process = some p
  · obtain ⟨t,ht,-⟩ := processTerminate_listed hl (hl.chain.lt_of_mem (hl.current p hp))
    have hrun := terminate_current hl ht hp
    constructor
    · intro hone _
      exact hrun.mp (hone t ht)
    · intro hsole u hu
      rw [ht] at hu
      cases hu
      exact hrun.mpr (hsole hp)
  · exact iff_of_true (fun t ht => terminate_other hl hs ht hp) fun h => absurd h hp

theorem staysOneRunning_iff (hl : Consistent s) (hs : OneRunning s) (c : ProcessCall) :
    StaysOneRunning s c (processStep alloc s c) ↔ CurrentKept alloc s c (processStep alloc s c) := by
  cases c with
  | create name entry_point => exact stays_create hl hs name entry_point
  | terminate process =>
    cases process with
    | none =>
      refine iff_of_true ?_ fun p hp => by cases hp
      rintro t ⟨⟩
      exact hs
    | some p =>
      rw [stays_terminate hl hs p]
      constructor
      · rintro hsole _ ⟨⟩
        exact hsole
      · intro hkept
        exact hkept p rfl
  | schedule => exact iff_of_true (fun t h => schedule_running hl hs h) trivial
  | tick => exact iff_of_true (fun t h => tick_running hl hs h) trivial

end Running

structure RunningInvariant (s : ProcessTable) : Prop where
  consistent : Consistent s
  running : OneRunning s

theorem one_running_process (alloc : Allocator) (kernel : KernelState) (cs : List ProcessCall)
    (s₀ : ProcessTable) (hinit : processInit alloc (.boot kernel) = some s₀) :
    OneRunning s₀ ∧ (Run.Every (processStep alloc) StaysOneRunning s₀ cs ↔
      Run.Every (processStep alloc) (CurrentKept alloc) s₀ cs) := by
  have hlisted := processInit_listed hinit
  have hstart : RunningInvariant s₀ := by
    obtain ⟨process,hprocesses,hstate,-,-,hcurrent⟩ := processInit_some hinit
    refine ⟨hlisted.consistent,(oneRunning_iff hlisted).mpr fun _ => ⟨0,hcurrent,?_⟩⟩
    rw [ProcessTable.stateOf,hprocesses,← hstate]
    rfl
  have hall : ∀ c ∈ cs, True := fun _ _ => trivial
  refine ⟨hstart.running,Run.every_iff hstart hall
    (fun s c hs _ => staysOneRunning_iff hs.consistent hs.running c) ?_⟩
  intro s c t hs _ hkept ht
  exact ⟨processStep_listed hs.consistent ht,
    (staysOneRunning_iff hs.consistent hs.running c).mpr hkept t ht⟩

theorem one_running_process_create : ∃ s₀, processInit constantAllocator (.boot .boot) = some s₀ ∧
    OneRunning s₀ ∧
    Run.Every (processStep constantAllocator) StaysOneRunning s₀ [.create ['a'] 0#32] := by
  have hlist : ((processInit constantAllocator (.boot .boot)).map fun s => s.process_list) =
      some (some 0) := by decide
  obtain ⟨s₀,hinit,hlist⟩ := Option.map_eq_some_iff.mp hlist
  obtain ⟨hone,hiff⟩ := one_running_process constantAllocator .boot [.create ['a'] 0#32] s₀ hinit
  refine ⟨s₀,hinit,hone,hiff.mpr ⟨fun hnone => ?_,fun _ _ => trivial⟩⟩
  rw [hlist] at hnone
  cases hnone

-- the process that takes over from the current one stays ready
theorem successor_not_running : ∃ s₀, processInit constantAllocator (.boot .boot) = some s₀ ∧
    ¬ Run.Every (processStep constantAllocator) StaysOneRunning s₀
      ([.create ['a'] 0#32] ++ [.terminate (some 0)]) := by
  have hlast : ((processInit constantAllocator (.boot .boot)).bind fun s₀ =>
      (processStep constantAllocator s₀ (.create ['a'] 0#32)).bind fun s =>
        (processStep constantAllocator s (.terminate (some 0))).map fun t =>
          (t.process_list,t.list.map t.stateOf)) = some (some 1,[some .ready]) := by decide
  obtain ⟨s₀,hinit,hlast⟩ := Option.bind_eq_some_iff.mp hlast
  obtain ⟨s,hs,hlast⟩ := Option.bind_eq_some_iff.mp hlast
  obtain ⟨t,ht,hshape⟩ := Option.map_eq_some_iff.mp hlast
  obtain ⟨hlist,hstates⟩ := Prod.mk.inj hshape
  refine ⟨s₀,hinit,fun hevery => ?_⟩
  obtain ⟨c,hc,-,hrun,-⟩ := (hevery.2 s hs).1 t ht (hlist ▸ Option.some_ne_none 1)
  have hready : t.stateOf c ∈ t.list.map t.stateOf := List.mem_map_of_mem hc
  rw [hstates,hrun] at hready
  exact absurd hready (by decide)

end KluxOS.Processes
