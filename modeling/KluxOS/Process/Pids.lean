import KluxOS.Kernel.Allocators
import KluxOS.Process.ProcessList

namespace KluxOS.Processes

open ByteMemory LinkedList Syscall

-- what no call after process_create changes in a process
def Process.identity (process : Process) : Process :=
  { process with state := .ready, next := none }

namespace ProcessTable

def identityOf (s : ProcessTable) (p : ProcessPtr) : Option Process :=
  (s.processes[p]?).map Process.identity

def pidOf (s : ProcessTable) (p : ProcessPtr) : Option Uint32 := (s.processes[p]?).map Process.pid

end ProcessTable

def PidsIdentify (s : ProcessTable) : Prop :=
  (s.list.map s.pidOf).Nodup ∧ ∀ p ∈ s.list, s.pidOf p = some 0#32 → p = 0

def StaysIdentified (_ : ProcessTable) (_ : ProcessCall) (result : Option ProcessTable) : Prop :=
  ∀ t, result = some t → PidsIdentify t

-- the n-th creation: n is no multiple of 2^32, nor is the distance to any listed process's creation
def CountFits (alloc : Allocator) (s : ProcessTable) (c : ProcessCall)
    (_ : Option ProcessTable) : Prop :=
  match c with
  | .create _ _ => (allocate alloc s.kernel processSize).2 ≠ 0#32 →
      s.processes.length % 2 ^ 32 ≠ 0 ∧
        ∀ p ∈ s.list, p % 2 ^ 32 ≠ s.processes.length % 2 ^ 32
  | .terminate _ => True
  | .schedule => True
  | .tick => True

section Identity

variable {s t : ProcessTable} {p q : ProcessPtr}

theorem pidOf_eq : s.pidOf q = (s.identityOf q).map Process.pid := by
  rw [ProcessTable.identityOf,Option.map_map]
  rfl

theorem identityOf_update {f : Process → Process} (hf : ∀ a, (f a).identity = a.identity) :
    (s.update p f).identityOf q = s.identityOf q := by
  rw [ProcessTable.identityOf,update_get]
  split
  · rw [Option.map_map]
    exact Option.map_congr fun a _ => hf a
  · rfl

-- no process of s is another one in t, and nothing was created
structure KeepsIdentity (s t : ProcessTable) : Prop where
  next_pid : t.next_pid = s.next_pid
  blocks : t.kernel.blocks = s.kernel.blocks
  identity : ∀ q, t.identityOf q = s.identityOf q

theorem KeepsIdentity.trans {u : ProcessTable} (h : KeepsIdentity s t) (h' : KeepsIdentity t u) :
    KeepsIdentity s u :=
  ⟨h'.next_pid.trans h.next_pid,h'.blocks.trans h.blocks,fun q => (h'.identity q).trans (h.identity q)⟩

theorem KeepsIdentity.pidOf (h : KeepsIdentity s t) : t.pidOf q = s.pidOf q := by
  rw [pidOf_eq,pidOf_eq,h.identity]

theorem keepsIdentity_setState {state : ProcessState} : KeepsIdentity s (s.setState p state) :=
  ⟨rfl,rfl,fun _ => identityOf_update fun _ => rfl⟩

theorem keepsIdentity_unlink {next : Option ProcessPtr} (h : unlink s p next = some t) :
    KeepsIdentity s t := by
  rw [unlink] at h
  split at h
  · cases h
    exact ⟨rfl,rfl,fun _ => rfl⟩
  · obtain ⟨pred,-,h⟩ := Option.bind_eq_some_iff.mp h
    cases pred with
    | none =>
      cases h
      exact ⟨rfl,rfl,fun _ => rfl⟩
    | some temp =>
      cases h
      exact ⟨rfl,rfl,fun _ => identityOf_update fun _ => rfl⟩

theorem keepsIdentity_release {process : Process} : KeepsIdentity s (release s p process) := by
  refine ⟨?_,?_,fun q => ?_⟩
  · simp only [release]
    split <;> rfl
  · simp only [release,kfree_blocks]
    split <;> rfl
  · rw [ProcessTable.identityOf,release_processes]
    exact identityOf_update fun _ => rfl

theorem keepsIdentity_terminate (h : processTerminate s (some p) = some t) :
    KeepsIdentity s t := by
  obtain ⟨process,-,h⟩ := Option.bind_eq_some_iff.mp h
  obtain ⟨u,hu,h⟩ := Option.bind_eq_some_iff.mp h
  cases h
  have hunlink := keepsIdentity_unlink hu
  exact ⟨keepsIdentity_release.next_pid.trans hunlink.next_pid,
    keepsIdentity_release.blocks.trans hunlink.blocks,fun q => (keepsIdentity_release.identity q).trans (hunlink.identity q)⟩

theorem keepsIdentity_schedule {l : List ProcessPtr} (hl : Listed s l)
    (h : processSchedule s = some t) : KeepsIdentity s t := by
  rcases processSchedule_cases hl h with rfl | ⟨c,n,-,-,-,rfl⟩
  · exact ⟨rfl,rfl,fun _ => rfl⟩
  · have hready : KeepsIdentity s { s.setState c .ready with current_process := some n } :=
      ⟨rfl,rfl,fun q => keepsIdentity_setState.identity q⟩
    exact hready.trans keepsIdentity_setState

theorem keepsIdentity_tick {l : List ProcessPtr} (hl : Listed s l)
    (h : schedulerTick s = some t) : KeepsIdentity s t := by
  have hticked : KeepsIdentity s (ticked s) := ⟨rfl,rfl,fun _ => rfl⟩
  rw [schedulerTick_eq hl] at h
  split at h
  · exact hticked.trans (keepsIdentity_schedule (ticked_listed hl) h)
  · cases h
    exact hticked

-- the same processes, of which t lists no others than s
structure KeepsProcesses (s t : ProcessTable) : Prop where
  listed : Listed t t.list
  length : t.processes.length = s.processes.length
  identity : KeepsIdentity s t
  list : t.list.Sublist s.list

theorem terminate_keeps {process : Option ProcessPtr} (hl : Listed s s.list)
    (h : processTerminate s process = some t) : KeepsProcesses s t := by
  cases process with
  | none =>
    cases h
    exact ⟨hl,rfl,⟨rfl,rfl,fun _ => rfl⟩,List.Sublist.refl _⟩
  | some p =>
    obtain ⟨hlisted,hlength,-⟩ := terminated_listed hl h
    exact ⟨hlisted.consistent,hlength,keepsIdentity_terminate h,hlisted.list_eq ▸ List.erase_sublist⟩

theorem processStep_cases {alloc : Allocator} {c : ProcessCall} (hl : Listed s s.list)
    (h : processStep alloc s c = some t) :
    (∃ name entry_point p, c = .create name entry_point ∧
      processCreate alloc s name entry_point = some (t,p)) ∨ KeepsProcesses s t := by
  cases c with
  | create name entry_point =>
    obtain ⟨⟨u,p⟩,hu,rfl⟩ := Option.map_eq_some_iff.mp h
    exact .inl ⟨name,entry_point,p,rfl,hu⟩
  | terminate process => exact .inr (terminate_keeps hl h)
  | schedule =>
    obtain ⟨hlisted,hlength⟩ := processSchedule_listed hl h
    exact .inr ⟨hlisted.consistent,hlength,keepsIdentity_schedule hl h,hlisted.list_eq ▸ .refl _⟩
  | tick =>
    obtain ⟨hlisted,hlength⟩ := schedulerTick_listed hl h
    exact .inr ⟨hlisted.consistent,hlength,keepsIdentity_tick hl h,hlisted.list_eq ▸ .refl _⟩

end Identity

section Create

variable {alloc : Allocator} {s t : ProcessTable} {l : List ProcessPtr} {name : CString}
  {entry_point : Uint32} {p q : ProcessPtr}

theorem processCreate_pid (h : processCreate alloc s name entry_point = some (t,p)) :
    t.next_pid = s.next_pid + 1#32 ∧ t.processes.length = s.processes.length + 1 ∧
      t.pidOf s.processes.length = some s.next_pid ∧
      ∀ q, q < s.processes.length → t.identityOf q = s.identityOf q := by
  rw [processCreate] at h
  simp only at h
  split at h
  · cases h
  · cases h
    refine ⟨rfl,List.length_append,?_,fun q hq => ?_⟩
    · simp [ProcessTable.pidOf,ProcessTable.print]
    · simp [ProcessTable.identityOf,ProcessTable.print,List.getElem?_append_left hq]

end Create

-- the n-th process created has the pid n mod 2^32
structure Numbered (s : ProcessTable) : Prop where
  listed : Listed s s.list
  started : 0 < s.processes.length
  next_pid : s.next_pid = BitVec.ofNat 32 s.processes.length
  pid : ∀ p, p < s.processes.length → s.pidOf p = some (BitVec.ofNat 32 p)

structure Identified (s : ProcessTable) : Prop where
  numbered : Numbered s
  identify : PidsIdentify s

section Numbered

variable {alloc : Allocator} {s t : ProcessTable} {c : ProcessCall}

theorem Numbered.keep (hs : Numbered s) (hkeep : KeepsProcesses s t) : Numbered t := by
  refine ⟨hkeep.listed,hkeep.length ▸ hs.started,?_,fun p hp => ?_⟩
  · rw [hkeep.identity.next_pid,hkeep.length]
    exact hs.next_pid
  · rw [hkeep.identity.pidOf]
    exact hs.pid p (hkeep.length ▸ hp)

theorem identified_init {kernel : KernelState} (h : processInit alloc (.boot kernel) = some s) :
    Identified s := by
  have hlisted := processInit_listed h
  have hlist := hlisted.list_eq
  rw [processInit] at h
  simp only at h
  split at h
  · cases h
  · cases h
    refine ⟨⟨hlisted.consistent,Nat.one_pos,rfl,fun p hp => ?_⟩,?_,fun p hp _ => ?_⟩
    · rw [Nat.lt_one_iff.mp hp]
      rfl
    · rw [hlist]
      exact List.nodup_singleton _
    · rw [hlist] at hp
      exact List.mem_singleton.mp hp

theorem numbered_create {name : CString} {entry_point : Uint32} {p : ProcessPtr} (hs : Numbered s)
    (h : processCreate alloc s name entry_point = some (t,p)) : Numbered t := by
  obtain ⟨hnext,hlength,hnew,hold⟩ := processCreate_pid h
  refine ⟨(processCreate_listed hs.listed h).1.consistent,hlength ▸ Nat.succ_pos _,?_,
    fun q hq => ?_⟩
  · rw [hnext,hs.next_pid,hlength,BitVec.ofNat_add]
  · rw [hlength] at hq
    rcases Nat.lt_succ_iff_lt_or_eq.mp hq with hq | rfl
    · rw [pidOf_eq,hold q hq,← pidOf_eq]
      exact hs.pid q hq
    · rw [hnew,hs.next_pid]

theorem numbered_step (hs : Numbered s) (h : processStep alloc s c = some t) : Numbered t := by
  rcases processStep_cases hs.listed h with ⟨name,entry_point,p,-,hcreate⟩ | hkeep
  · exact numbered_create hs hcreate
  · exact hs.keep hkeep

theorem PidsIdentify.keep (h : PidsIdentify s) (hkeep : KeepsProcesses s t) : PidsIdentify t := by
  have hpid : t.pidOf = s.pidOf := funext fun _ => hkeep.identity.pidOf
  refine ⟨?_,fun p hp hzero => ?_⟩
  · rw [hpid]
    exact h.1.sublist (hkeep.list.map _)
  · exact h.2 p (hkeep.list.subset hp) (hpid ▸ hzero)

theorem identify_create {name : CString} {entry_point : Uint32} {p : ProcessPtr} (hs : Numbered s)
    (hid : PidsIdentify s) (h : processCreate alloc s name entry_point = some (t,p)) :
    PidsIdentify t ↔ s.processes.length % 2 ^ 32 ≠ 0 ∧
      ∀ p ∈ s.list, p % 2 ^ 32 ≠ s.processes.length % 2 ^ 32 := by
  obtain ⟨hnext,hlength,hnew,hold⟩ := processCreate_pid h
  obtain ⟨rfl,-⟩ := processCreate_some h
  have hlist : t.list = s.processes.length :: s.list :=
    (processCreate_listed hs.listed h).1.list_eq
  have hlt : ∀ q ∈ s.list, q < s.processes.length := fun q hq => hs.listed.chain.lt_of_mem hq
  have hpid : ∀ q ∈ s.list, t.pidOf q = s.pidOf q := fun q hq => by
    rw [pidOf_eq,hold q (hlt q hq),← pidOf_eq]
  have hzero : t.pidOf s.processes.length = some 0#32 ↔ s.processes.length % 2 ^ 32 = 0 := by
    rw [hnew,hs.next_pid,Option.some.injEq,← BitVec.toNat_inj,BitVec.toNat_ofNat]
    rfl
  have hsame : ∀ q ∈ s.list, t.pidOf q = t.pidOf s.processes.length ↔
      q % 2 ^ 32 = s.processes.length % 2 ^ 32 := fun q hq => by
    rw [hpid q hq,hs.pid q (hlt q hq),hnew,hs.next_pid,Option.some.injEq,← BitVec.toNat_inj,
      BitVec.toNat_ofNat,BitVec.toNat_ofNat]
  have hrest : (s.list.map t.pidOf).Nodup := List.map_congr_left hpid ▸ hid.1
  rw [PidsIdentify,hlist,List.map_cons,List.nodup_cons,List.mem_map,List.forall_mem_cons,hzero]
  constructor
  · rintro ⟨⟨habsent,-⟩,hkernel,-⟩
    refine ⟨fun hn => hs.started.ne' (hkernel hn),fun q hq hmod => habsent ⟨q,hq,?_⟩⟩
    exact (hsame q hq).mpr hmod
  · rintro ⟨hn,hapart⟩
    refine ⟨⟨?_,hrest⟩,fun h => absurd h hn,fun q hq hq0 => hid.2 q hq ((hpid q hq) ▸ hq0)⟩
    rintro ⟨q,hq,hmod⟩
    exact hapart q hq ((hsame q hq).mp hmod)

theorem identified_other (hs : Numbered s) (hid : PidsIdentify s)
    (hc : ∀ name entry_point, c ≠ .create name entry_point) :
    StaysIdentified s c (processStep alloc s c) := by
  intro t ht
  rcases processStep_cases hs.listed ht with ⟨name,entry_point,p,hcreate,-⟩ | hkeep
  · exact absurd hcreate (hc name entry_point)
  · exact hid.keep hkeep

theorem identified_iff (hs : Numbered s) (hid : PidsIdentify s) :
    StaysIdentified s c (processStep alloc s c) ↔ CountFits alloc s c (processStep alloc s c) := by
  cases c with
  | create name entry_point =>
    cases hcreate : processCreate alloc s name entry_point with
    | none =>
      have hnull := processCreate_isSome.not.mp
        (Option.not_isSome_iff_eq_none.mpr hcreate)
      refine iff_of_true (fun t ht => ?_) fun h => absurd h hnull
      rw [processStep,hcreate] at ht
      cases ht
    | some r =>
      obtain ⟨t,p⟩ := r
      have hblock := processCreate_isSome.mp (Option.isSome_iff_exists.mpr ⟨_,hcreate⟩)
      rw [StaysIdentified,processStep,hcreate]
      refine Iff.trans ?_ ((identify_create hs hid hcreate).trans ⟨fun h _ => h,fun h => h hblock⟩)
      exact ⟨fun h => h t rfl,by rintro h _ ⟨⟩; exact h⟩
  | terminate process =>
    exact iff_of_true (identified_other hs hid fun _ _ => ProcessCall.noConfusion) trivial
  | schedule => exact iff_of_true (identified_other hs hid fun _ _ => ProcessCall.noConfusion) trivial
  | tick => exact iff_of_true (identified_other hs hid fun _ _ => ProcessCall.noConfusion) trivial

theorem processStep_length (hs : Numbered s) (h : processStep alloc s c = some t) :
    t.processes.length ≤ s.processes.length + 1 := by
  rcases processStep_cases hs.listed h with ⟨name,entry_point,p,-,hcreate⟩ | hkeep
  · exact (processCreate_pid hcreate).2.1.le
  · exact hkeep.length.le.trans (Nat.le_succ _)

-- the counter does not wrap within 2^32 calls
theorem fits_below {cs : List ProcessCall} (hs : Numbered s)
    (hlength : s.processes.length + cs.length ≤ 2 ^ 32) :
    Run.Every (processStep alloc) (CountFits alloc) s cs := by
  induction cs generalizing s with
  | nil => trivial
  | cons c cs ih =>
    rw [List.length_cons] at hlength
    have hlt : s.processes.length < 2 ^ 32 := by omega
    refine ⟨?_,fun t ht => ih (numbered_step hs ht) ?_⟩
    · cases c with
      | create name entry_point =>
        intro _
        rw [Nat.mod_eq_of_lt hlt]
        refine ⟨hs.started.ne',fun p hp => ?_⟩
        have hp := hs.listed.chain.lt_of_mem hp
        rw [Nat.mod_eq_of_lt (hp.trans hlt)]
        exact hp.ne
      | terminate process => trivial
      | schedule => trivial
      | tick => trivial
    · have hstep := processStep_length hs ht
      omega

end Numbered

theorem pids_identify_processes (alloc : Allocator) (kernel : KernelState) (cs : List ProcessCall)
    (s₀ : ProcessTable) (hinit : processInit alloc (.boot kernel) = some s₀) :
    PidsIdentify s₀ ∧ (Run.Every (processStep alloc) StaysIdentified s₀ cs ↔
      Run.Every (processStep alloc) (CountFits alloc) s₀ cs) := by
  have hstart : Identified s₀ := identified_init hinit
  have hall : ∀ c ∈ cs, True := fun _ _ => trivial
  refine ⟨hstart.identify,Run.every_iff hstart hall
    (fun s c hs _ => identified_iff hs.numbered hs.identify) ?_⟩
  intro s c t hs _ hfits ht
  exact ⟨numbered_step hs.numbered ht,
    (identified_iff hs.numbered hs.identify).mpr hfits t ht⟩

theorem pids_identify_processes_pair : ∃ s₀, processInit bumpAllocator (.boot .boot) = some s₀ ∧
    PidsIdentify s₀ ∧ Run.Every (processStep bumpAllocator) StaysIdentified s₀
      [.create ['a'] 0#32,.terminate (some 1),.create ['b'] 0#32] := by
  have hlength : ((processInit bumpAllocator (.boot .boot)).map fun s => s.processes.length) =
      some 1 := by decide
  obtain ⟨s₀,hinit,hlength⟩ := Option.map_eq_some_iff.mp hlength
  obtain ⟨hid,hiff⟩ := pids_identify_processes bumpAllocator .boot
    [.create ['a'] 0#32,.terminate (some 1),.create ['b'] 0#32] s₀ hinit
  refine ⟨s₀,hinit,hid,hiff.mpr (fits_below (identified_init hinit).numbered ?_)⟩
  rw [hlength]
  decide

section Wrap

def Process.blocks (process : Process) : List (Uint32 × Uint32) :=
  [(process.block,processSize),(process.kernel_stack,process.kernel_stack_size)]

def ProcessTable.blocksOf (s : ProcessTable) (p : ProcessPtr) : List (Uint32 × Uint32) :=
  ((s.processes[p]?).map Process.blocks).getD []

-- the blocks of a new process are apart from each other and from those of the listed processes
def FreshlyAllocated (s : ProcessTable) (_ : ProcessCall) (result : Option ProcessTable) : Prop :=
  ∀ t, result = some t → s.processes.length < t.processes.length →
    ((s.processes.length :: s.list).flatMap t.blocksOf).Pairwise fun b c =>
      Apart b.1.toNat b.2.toNat c.1.toNat c.2.toNat

-- the blocks of the kernel process, then those one other process gets again and again
def reusingAllocator : Allocator := fun blocks size =>
  if blocks.length = 0 then 0x200000#32
  else if blocks.length = 1 then 0x201000#32
  else if size = processSize then 0x202000#32 else 0x203000#32

-- only the kernel process is left of n + 1 created ones
structure Alone (n : ℕ) (s : ProcessTable) : Prop where
  numbered : Numbered s
  list : s.list = [0]
  count : s.processes.length = n + 1
  blocks : s.blocksOf 0 = [(0x200000#32,processSize),(0x201000#32,kernelStackSize)]
  allocated : 2 ≤ s.kernel.blocks.length

variable {s t : ProcessTable} {n : ℕ} {p q : ProcessPtr}

theorem blocksOf_eq : s.blocksOf q = ((s.identityOf q).map Process.blocks).getD [] := by
  rw [ProcessTable.blocksOf,ProcessTable.identityOf,Option.map_map]
  rfl

theorem processCreate_blocks {alloc : Allocator} {name : CString} {entry_point : Uint32}
    (h : processCreate alloc s name entry_point = some (t,p)) :
    t.blocksOf s.processes.length = [(alloc s.kernel.blocks processSize,processSize),
        (alloc ((alloc s.kernel.blocks processSize,processSize) :: s.kernel.blocks) kernelStackSize,
          kernelStackSize)] ∧
      s.kernel.blocks.length < t.kernel.blocks.length := by
  rw [processCreate] at h
  simp only [allocate_addr] at h
  split at h
  · cases h
  · next hblock =>
    rw [allocate_block _ _ hblock] at h
    cases h
    refine ⟨?_,?_⟩
    · simp [ProcessTable.blocksOf,ProcessTable.print,Process.blocks]
    · simp only [allocate]
      split
      · exact Nat.lt_succ_self _
      · exact Nat.lt_succ_of_lt (Nat.lt_succ_self _)

theorem KeepsIdentity.blocksOf (h : KeepsIdentity s t) : t.blocksOf q = s.blocksOf q := by
  rw [blocksOf_eq,blocksOf_eq,h.identity]

-- one other process is created, then terminated
def rounds : ℕ → List ProcessCall
  | 0 => []
  | n + 1 => rounds n ++ [.create ['a'] 0#32,.terminate (some (n + 1))]

theorem alone_create (hs : Alone n s) :
    ∃ t, processCreate reusingAllocator s ['a'] 0#32 = some (t,n + 1) ∧ Numbered t ∧
      Listed t [n + 1,0] ∧ t.processes.length = n + 2 ∧ 2 ≤ t.kernel.blocks.length ∧
      t.blocksOf 0 = s.blocksOf 0 ∧
      t.blocksOf (n + 1) = [(0x202000#32,processSize),(0x203000#32,kernelStackSize)] := by
  have hlow : ∀ size, reusingAllocator s.kernel.blocks size =
      if size = processSize then 0x202000#32 else 0x203000#32 := by
    intro size
    have hallocated := hs.allocated
    rw [reusingAllocator,if_neg (by omega),if_neg (by omega)]
  have hblock : (allocate reusingAllocator s.kernel processSize).2 ≠ 0#32 := by
    rw [allocate_addr,hlow,if_pos rfl]
    decide
  have hsome : (processCreate reusingAllocator s ['a'] 0#32).isSome :=
    processCreate_isSome.mpr hblock
  obtain ⟨⟨t,p⟩,ht⟩ := Option.isSome_iff_exists.mp hsome
  obtain ⟨hp,-⟩ := processCreate_some ht
  obtain ⟨-,hlength,-,hold⟩ := processCreate_pid ht
  obtain ⟨hnew,hmore⟩ := processCreate_blocks ht
  have hlisted := (processCreate_listed hs.numbered.listed ht).1
  rw [hs.list] at hlisted
  rw [hs.count] at hp hlength hnew
  subst hp
  refine ⟨t,ht,numbered_create hs.numbered ht,hlisted,hlength,hs.allocated.trans hmore.le,?_,?_⟩
  · rw [blocksOf_eq,hold 0 hs.numbered.started,← blocksOf_eq]
  · rw [hnew,hlow,if_pos rfl]
    have hallocated := hs.allocated
    rw [reusingAllocator,List.length_cons,if_neg (by omega),if_neg (by omega),if_neg (by decide)]

theorem alone_round (hs : Alone n s) : ∃ t,
    Run.run (processStep reusingAllocator) s [.create ['a'] 0#32,.terminate (some (n + 1))] = some t ∧
      Alone (n + 1) t ∧ Run.Every (processStep reusingAllocator) FreshlyAllocated s
        [.create ['a'] 0#32,.terminate (some (n + 1))] := by
  obtain ⟨u,hu,hnumbered,hlisted,hcount,hallocated,hkernel,hnew⟩ := alone_create hs
  have hfirst : n + 1 < u.processes.length := hcount ▸ Nat.lt_succ_self (n + 1)
  obtain ⟨t,ht,hend,hlength,-⟩ := processTerminate_listed hlisted hfirst
  have hkeep := terminate_keeps hnumbered.listed ht
  rw [List.erase_cons_head] at hend
  have hcreate : processStep reusingAllocator s (.create ['a'] 0#32) = some u := by
    rw [processStep,hu]
    rfl
  refine ⟨t,?_,⟨hnumbered.keep hkeep,hend.list_eq,hlength.trans hcount,?_,?_⟩,?_,?_⟩
  · rw [Run.run,hcreate,Option.bind_some,Run.run,processStep,ht]
    rfl
  · rw [hkeep.identity.blocksOf,hkernel,hs.blocks]
  · rw [hkeep.identity.blocks]
    exact hallocated
  · intro v hv _
    rw [hcreate] at hv
    cases hv
    rw [hs.list,hs.count,List.flatMap_cons,List.flatMap_singleton,hnew,hkernel,hs.blocks]
    decide
  · intro v hv
    rw [hcreate] at hv
    cases hv
    refine ⟨fun w hw hlt => ?_,fun _ _ => trivial⟩
    rw [processStep,ht] at hw
    cases hw
    exact absurd hlength hlt.ne'

theorem alone_rounds (hs : Alone 0 s) (n : ℕ) : ∃ t,
    Run.run (processStep reusingAllocator) s (rounds n) = some t ∧ Alone n t ∧
      Run.Every (processStep reusingAllocator) FreshlyAllocated s (rounds n) := by
  induction n with
  | zero => exact ⟨s,rfl,hs,trivial⟩
  | succ n ih =>
    obtain ⟨u,hu,halone,hfresh⟩ := ih
    obtain ⟨t,ht,hnext,hlast⟩ := alone_round halone
    refine ⟨t,?_,hnext,hfresh.append fun v hv => ?_⟩
    · rw [rounds,Run.run_append,hu]
      exact ht
    · rw [hu] at hv
      cases hv
      exact hlast

theorem wrapped_create {n : ℕ} (hs : Alone 0 s) (hn : (n + 1) % 2 ^ 32 = 0) :
    Run.Every (processStep reusingAllocator) FreshlyAllocated s
        (rounds n ++ [.create ['a'] 0#32]) ∧
      ¬ Run.Every (processStep reusingAllocator) StaysIdentified s
        (rounds n ++ [.create ['a'] 0#32]) := by
  obtain ⟨u,hu,halone,hfresh⟩ := alone_rounds hs n
  refine ⟨hfresh.append fun v hv => ?_,fun hevery => ?_⟩
  · rw [hu] at hv
    cases hv
    obtain ⟨-,-,-,hcreate,-⟩ := alone_round halone
    exact ⟨hcreate,fun _ _ => trivial⟩
  · obtain ⟨t,ht,-⟩ := alone_create halone
    have hstep : processStep reusingAllocator u (.create ['a'] 0#32) = some t := by
      rw [processStep,ht]
      rfl
    have hid : PidsIdentify u := by
      rw [PidsIdentify,halone.list]
      exact ⟨List.nodup_singleton _,fun p hp _ => List.mem_singleton.mp hp⟩
    obtain ⟨hcount,-⟩ := (identify_create halone.numbered hid ht).mp (hevery.last hu t hstep)
    exact hcount (halone.count ▸ hn)

end Wrap

theorem pid_zero_again : ∃ s₀, processInit reusingAllocator (.boot .boot) = some s₀ ∧
    Run.Every (processStep reusingAllocator) FreshlyAllocated s₀
      (rounds (2 ^ 32 - 1) ++ [.create ['a'] 0#32]) ∧
    ¬ Run.Every (processStep reusingAllocator) StaysIdentified s₀
      (rounds (2 ^ 32 - 1) ++ [.create ['a'] 0#32]) := by
  have hkernel : ((processInit reusingAllocator (.boot .boot)).map fun s =>
      (s.list,s.processes.length,s.blocksOf 0,s.kernel.blocks.length)) =
        some ([0],1,[(0x200000#32,processSize),(0x201000#32,kernelStackSize)],2) := by decide
  obtain ⟨s₀,hinit,hkernel⟩ := Option.map_eq_some_iff.mp hkernel
  simp only [Prod.mk.injEq] at hkernel
  obtain ⟨hlist,hcount,hblocks,hallocated⟩ := hkernel
  have hstart : Alone 0 s₀ :=
    ⟨(identified_init hinit).numbered,hlist,hcount,hblocks,hallocated.ge⟩
  exact ⟨s₀,hinit,wrapped_create hstart rfl⟩

end KluxOS.Processes
