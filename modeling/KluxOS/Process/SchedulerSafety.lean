import KluxOS.Process.ProcessList

namespace KluxOS.Processes

open LinkedList

-- the flag records that the list has been empty
def emptiedStep (alloc : Allocator) (s : ProcessTable × Bool) (c : ProcessCall) :
    Option (ProcessTable × Bool) :=
  (processStep alloc s.1 c).map fun t => (t,s.2 || t.process_list.isNone)

def TickSafe (_ : ProcessTable × Bool) (c : ProcessCall)
    (result : Option (ProcessTable × Bool)) : Prop :=
  c = .tick → result.isSome

def NotEmptied (s : ProcessTable × Bool) (c : ProcessCall) (_ : Option (ProcessTable × Bool)) :
    Prop :=
  c = .tick → Due s.1 → 2 ≤ s.1.list.length → s.2 = false

instance (s : ProcessTable × Bool) (c : ProcessCall) (r : Option (ProcessTable × Bool)) :
    Decidable (NotEmptied s c r) :=
  inferInstanceAs (Decidable (c = .tick → Due s.1 → 2 ≤ s.1.list.length → s.2 = false))

structure Emptied (s : ProcessTable × Bool) : Prop where
  listed : Listed s.1 s.1.list
  flag : s.1.current_process = none ↔ s.2 = true

section Safety

variable {alloc : Allocator} {s : ProcessTable × Bool} {t : ProcessTable} {l m : List ProcessPtr}

theorem Listed.current_none (hl : Listed t l) (h : t.process_list = none) :
    t.current_process = none := by
  rw [hl.chain.start_eq,List.head?_eq_none_iff] at h
  subst h
  cases hc : t.current_process with
  | none => rfl
  | some c => exact absurd (hl.current c hc) List.not_mem_nil

theorem processSchedule_isSome (hl : Listed t l) (hne : t.process_list ≠ none) :
    (processSchedule t).isSome ↔ t.current_process ≠ none := by
  cases hc : t.current_process with
  | none =>
    refine iff_of_false (fun h => ?_) (fun h => h rfl)
    obtain ⟨first,hfirst⟩ := Option.ne_none_iff_exists'.mp hne
    simp only [processSchedule,hfirst,hc] at h
    cases h
  | some c =>
    obtain ⟨u,hu,-⟩ := processSchedule_current hl hc
    refine iff_of_true ?_ (fun h => by cases h)
    rw [hu]
    rfl

theorem tickSafe_iff (hs : Emptied s) (c : ProcessCall) :
    TickSafe s c (emptiedStep alloc s c) ↔ NotEmptied s c (emptiedStep alloc s c) := by
  refine imp_congr_right ?_
  rintro rfl
  rw [emptiedStep,Option.isSome_map,processStep,schedulerTick_eq hs.listed]
  by_cases hdue : Due s.1 ∧ 2 ≤ s.1.list.length
  · have hne : (ticked s.1).process_list ≠ none := by
      intro hnone
      have hnil := (ticked_listed hs.listed).chain.start_eq
      rw [hnone,eq_comm,List.head?_eq_none_iff] at hnil
      rw [hnil] at hdue
      exact absurd hdue.2 (by decide)
    rw [if_pos hdue,processSchedule_isSome (ticked_listed hs.listed) hne]
    have hflag : (ticked s.1).current_process = none ↔ s.2 = true := hs.flag
    rw [Ne,hflag,Bool.not_eq_true]
    exact ⟨fun h _ _ => h,fun h => h hdue.1 hdue.2⟩
  · rw [if_neg hdue]
    exact iff_of_true rfl fun h2 h3 => absurd ⟨h2,h3⟩ hdue

-- the current process goes only when it was the last of the list
theorem emptied_next (hs : Emptied s) (ht : Listed t m)
    (hcurrent : t.current_process = s.1.current_process ∨
      s.1.current_process ≠ none ∧
        (t.current_process = t.process_list ∨ t.current_process ≠ none)) :
    Emptied (t,s.2 || t.process_list.isNone) := by
  refine ⟨ht.consistent,?_⟩
  have hnone := ht.current_none
  rw [Bool.or_eq_true,Option.isNone_iff_eq_none,← hs.flag]
  rcases hcurrent with h | ⟨hsome,h | h⟩
  · rw [h] at hnone ⊢
    exact ⟨.inl,fun hor => hor.elim id hnone⟩
  · rw [h]
    exact ⟨.inr,fun hor => hor.elim (fun hc => absurd hc hsome) id⟩
  · exact ⟨fun hc => absurd hc h,fun hor => hor.elim (fun hc => absurd hc hsome) hnone⟩

theorem schedule_current {u : ProcessTable} (hl : Listed t l) (hu : processSchedule t = some u) :
    u.current_process = t.current_process ∨
      t.current_process ≠ none ∧ u.current_process ≠ none := by
  rcases processSchedule_cases hl hu with rfl | ⟨c,n,hc,-,-,rfl⟩
  · exact .inl rfl
  · refine .inr ⟨fun h => ?_,fun h => by cases h⟩
    rw [h] at hc
    cases hc

theorem emptied_step {c : ProcessCall} {u : ProcessTable × Bool} (hs : Emptied s)
    (hu : emptiedStep alloc s c = some u) : Emptied u := by
  obtain ⟨t,ht,rfl⟩ := Option.map_eq_some_iff.mp hu
  cases c with
  | create name entry_point =>
    obtain ⟨⟨t,p⟩,hcreate,rfl⟩ := Option.map_eq_some_iff.mp ht
    obtain ⟨-,-,hcurrent,-⟩ := processCreate_some hcreate
    exact emptied_next hs (processCreate_listed hs.listed hcreate).1 (.inl hcurrent)
  | terminate process =>
    cases process with
    | none =>
      cases ht
      exact emptied_next hs hs.listed (.inl rfl)
    | some p =>
      obtain ⟨hlisted,-,hcurrent,-⟩ := terminated_listed hs.listed ht
      refine emptied_next hs hlisted ?_
      split at hcurrent
      · next hp => exact .inr ⟨hp ▸ Option.some_ne_none p,.inl hcurrent⟩
      · exact .inl hcurrent
  | schedule =>
    refine emptied_next hs (processSchedule_listed hs.listed ht).1 ?_
    exact (schedule_current hs.listed ht).imp_right fun h => ⟨h.1,.inr h.2⟩
  | tick =>
    refine emptied_next hs (schedulerTick_listed hs.listed ht).1 ?_
    rw [processStep,schedulerTick_eq hs.listed] at ht
    split at ht
    · have hcurrent := schedule_current (ticked_listed hs.listed) ht
      exact hcurrent.imp_right fun h => ⟨h.1,.inr h.2⟩
    · cases ht
      exact .inl rfl

end Safety

theorem scheduler_tick_safe (alloc : Allocator) (kernel : KernelState) (cs : List ProcessCall)
    (s₀ : ProcessTable) (hinit : processInit alloc (.boot kernel) = some s₀) :
    Run.Every (emptiedStep alloc) TickSafe (s₀,false) cs ↔
      Run.Every (emptiedStep alloc) NotEmptied (s₀,false) cs := by
  have hstart : Emptied (s₀,false) := by
    obtain ⟨process,-,-,-,-,hcurrent⟩ := processInit_some hinit
    refine ⟨(processInit_listed hinit).consistent,iff_of_false (fun h => ?_) Bool.false_ne_true⟩
    rw [hcurrent] at h
    cases h
  have hall : ∀ c ∈ cs, True := fun _ _ => trivial
  exact Run.every_iff hstart hall (fun s c hs _ => tickSafe_iff hs c)
    fun s c u hs _ _ hu => emptied_step hs hu

-- the kernel process ends first, then two processes are created and ten ticks pass
def emptiedThenTicks : List ProcessCall :=
  [.terminate (some 0),.create ['a'] 0#32,.create ['b'] 0#32] ++ List.replicate 9 .tick

def secondThenTicks : List ProcessCall := .create ['a'] 0#32 :: List.replicate 10 .tick

-- the tenth tick is due and switches to the second process
theorem scheduler_tick_safe_ten : ∃ s₀, processInit constantAllocator (.boot .boot) = some s₀ ∧
    (Run.run (emptiedStep constantAllocator) (s₀,false) secondThenTicks).map
      (fun t => t.1.current_process) = some (some 1) ∧
    Run.Every (emptiedStep constantAllocator) TickSafe (s₀,false) secondThenTicks := by
  obtain ⟨s₀,hinit⟩ := Option.isSome_iff_exists.mp
    (by decide : (processInit constantAllocator (.boot .boot)).isSome)
  have hrun : ∀ s₀ ∈ processInit constantAllocator (.boot .boot),
      (Run.run (emptiedStep constantAllocator) (s₀,false) secondThenTicks).map
        (fun t => t.1.current_process) = some (some 1) ∧
      Run.Every (emptiedStep constantAllocator) NotEmptied (s₀,false) secondThenTicks := by decide
  obtain ⟨hswitched,hkept⟩ := hrun s₀ hinit
  exact ⟨s₀,hinit,hswitched,
    (scheduler_tick_safe constantAllocator .boot secondThenTicks s₀ hinit).mpr hkept⟩

theorem scheduler_tick_dereferences_null : ∃ s₀,
    processInit constantAllocator (.boot .boot) = some s₀ ∧
    ¬ Run.Every (emptiedStep constantAllocator) TickSafe (s₀,false)
      (emptiedThenTicks ++ [.tick]) := by
  have hlast : ((processInit constantAllocator (.boot .boot)).bind fun s₀ =>
      (Run.run (emptiedStep constantAllocator) (s₀,false) emptiedThenTicks).map fun t =>
        (emptiedStep constantAllocator t .tick).isSome) = some false := by decide
  obtain ⟨s₀,hinit,hrun⟩ := Option.bind_eq_some_iff.mp hlast
  obtain ⟨t,ht,hnone⟩ := Option.map_eq_some_iff.mp hrun
  refine ⟨s₀,hinit,fun hevery => ?_⟩
  have hsafe := hevery.last ht rfl
  rw [hnone] at hsafe
  cases hsafe

end KluxOS.Processes
