import KluxOS.Lib.Run
import KluxOS.Process.Process

namespace KluxOS.Processes

open LinkedList

-- every listed process but the current one is ready
structure Listed (s : ProcessTable) (l : List ProcessPtr) : Prop where
  chain : Chain Process.next s.processes s.process_list l
  current : ∀ c, s.current_process = some c → c ∈ l
  ready : ∀ p ∈ l, s.current_process ≠ some p → s.stateOf p = some .ready

section Init

variable {alloc : Allocator} {kernel : KernelState} {s : ProcessTable}

theorem processInit_some (hs : processInit alloc (.boot kernel) = some s) :
    ∃ process : Process, s.processes = [process] ∧ process.state = .running ∧
      process.next = none ∧ s.process_list = some 0 ∧ s.current_process = some 0 := by
  rw [processInit] at hs
  simp only at hs
  split at hs
  · cases hs
  · cases hs
    exact ⟨_,rfl,rfl,rfl,rfl,rfl⟩

theorem processInit_listed (hs : processInit alloc (.boot kernel) = some s) :
    Listed s [0] := by
  obtain ⟨process,hprocesses,-,hnext,hlist,hcurrent⟩ := processInit_some hs
  refine ⟨?_,?_,?_⟩
  · rw [hprocesses,hlist]
    exact .cons rfl (hnext ▸ .nil)
  · intro c hc
    rw [hcurrent] at hc
    cases hc
    exact List.mem_singleton_self 0
  · intro p hp hne
    rw [List.mem_singleton.mp hp] at hne
    exact absurd hcurrent hne

end Init

section Update

variable {s : ProcessTable} {p q : ProcessPtr} {f : Process → Process}

theorem update_get : (s.update p f).processes[q]? =
    if p = q then (s.processes[q]?).map f else s.processes[q]? := by
  simp only [ProcessTable.update,List.getElem?_modify]
  split <;> simp

theorem update_length : (s.update p f).processes.length = s.processes.length := by
  simp only [ProcessTable.update,List.length_modify]

theorem update_other (h : q ≠ p) : (s.update p f).processes[q]? = s.processes[q]? := by
  rw [update_get,if_neg (Ne.symm h)]

theorem stateOf_update (hf : ∀ a, (f a).state = a.state) :
    (s.update p f).stateOf q = s.stateOf q := by
  rw [ProcessTable.stateOf,update_get]
  split
  · rw [Option.map_map]
    exact Option.map_congr fun a _ => hf a
  · rfl

theorem stateOf_setState {state : ProcessState} : (s.setState p state).stateOf q =
    if p = q then (s.stateOf q).map fun _ => state else s.stateOf q := by
  rw [ProcessTable.stateOf,ProcessTable.setState,update_get]
  split
  · rw [ProcessTable.stateOf,Option.map_map,Option.map_map]
    rfl
  · rfl

theorem chain_setState {state : ProcessState} {start : Option ProcessPtr} {l : List ProcessPtr}
    (h : Chain Process.next s.processes start l) :
    Chain Process.next (s.setState p state).processes start l := by
  refine h.frame fun q a ha => ?_
  rw [ProcessTable.setState,update_get,ha]
  split
  · exact ⟨_,rfl,rfl⟩
  · exact ⟨a,rfl,rfl⟩

end Update

section Create

variable {alloc : Allocator} {s t : ProcessTable} {l : List ProcessPtr}

theorem processCreate_some {name : CString} {entry_point : Uint32} {p : ProcessPtr}
    (h : processCreate alloc s name entry_point = some (t,p)) :
    p = s.processes.length ∧ t.process_list = some p ∧ t.current_process = s.current_process ∧
      ∃ new : Process, t.processes = s.processes ++ [new] ∧ new.state = .ready ∧
        new.next = s.process_list := by
  rw [processCreate] at h
  simp only at h
  split at h
  · cases h
  · cases h
    exact ⟨rfl,rfl,rfl,_,rfl,rfl,rfl⟩

theorem allocate_addr (kernel : KernelState) (size : Uint32) :
    (allocate alloc kernel size).2 = alloc kernel.blocks size := by
  simp only [allocate]
  split
  · next h => exact h.symm
  · rfl

theorem processCreate_isSome {name : CString} {entry_point : Uint32} :
    (processCreate alloc s name entry_point).isSome ↔
      (allocate alloc s.kernel processSize).2 ≠ 0#32 := by
  rw [processCreate]
  simp only [allocate_addr]
  split
  · next h => exact iff_of_false Bool.false_ne_true fun hne => hne h
  · next h => exact iff_of_true rfl h

theorem processCreate_listed {name : CString} {entry_point : Uint32} {p : ProcessPtr}
    (hl : Listed s l) (h : processCreate alloc s name entry_point = some (t,p)) :
    Listed t (p :: l) ∧ ∀ q ∈ l, t.stateOf q = s.stateOf q := by
  obtain ⟨rfl,hlist,hcurrent,new,hprocesses,hstate,hnext⟩ := processCreate_some h
  have hold : ∀ q ∈ l, t.processes[q]? = s.processes[q]? := by
    intro q hq
    rw [hprocesses]
    exact List.getElem?_append_left (hl.chain.lt_of_mem hq)
  have hnew : t.processes[s.processes.length]? = some new := by
    rw [hprocesses]
    exact List.getElem?_concat_length
  have hkeep : ∀ q ∈ l, t.stateOf q = s.stateOf q := by
    intro q hq
    rw [ProcessTable.stateOf,hold q hq]
    rfl
  refine ⟨⟨?_,?_,?_⟩,hkeep⟩
  · rw [hlist]
    refine .cons hnew (hnext ▸ hl.chain.frame_mem fun q hq a ha => ?_)
    exact ⟨a,(hold q hq).trans ha,rfl⟩
  · intro c hc
    exact List.mem_cons_of_mem _ (hl.current c (hcurrent ▸ hc))
  · intro q hq hne
    rcases List.mem_cons.mp hq with rfl | hq
    · rw [ProcessTable.stateOf,hnew,← hstate]
      rfl
    · rw [hkeep q hq]
      exact hl.ready q hq (hcurrent ▸ hne)

end Create

section Terminate

variable {s t : ProcessTable} {l : List ProcessPtr} {p : ProcessPtr}

theorem unlink_listed {process : Process} (hl : Chain Process.next s.processes s.process_list l)
    (hp : s.processes[p]? = some process) : ∃ t, unlink s p process.next = some t ∧
      Chain Process.next t.processes t.process_list (l.erase p) ∧
      t.current_process = s.current_process ∧ t.processes.length = s.processes.length ∧
      ∀ q, t.stateOf q = s.stateOf q := by
  by_cases hfirst : s.process_list = some p
  · rw [hfirst] at hl
    obtain ⟨m,rfl,hm⟩ := hl.tail hp
    rw [List.erase_cons_head]
    exact ⟨_,if_pos hfirst,hm,rfl,rfl,fun _ => rfl⟩
  · rcases hl.predecessor hfirst hl.length_le with ⟨pre,q,post,rfl,hpred⟩ | ⟨hmem,hpred⟩
    · refine ⟨s.setNext q process.next,?_,?_,rfl,update_length,fun r => ?_⟩
      · rw [unlink,if_neg hfirst]
        simp only [hpred,Option.bind_eq_bind,Option.bind_some]
      · refine hl.erase (fun r a hr _ ha => ⟨a,(update_other hr).trans ha,rfl⟩) fun a ha => ?_
        rw [hp] at ha
        cases ha
        have hq : q ∈ pre ++ q :: p :: post := List.mem_append_right pre List.mem_cons_self
        obtain ⟨b,hb⟩ := hl.get hq
        refine ⟨{ b with next := process.next },?_,rfl⟩
        rw [ProcessTable.setNext,update_get,if_pos rfl,hb]
        rfl
      · exact stateOf_update fun _ => rfl
    · rw [List.erase_of_not_mem hmem]
      refine ⟨s,?_,hl,rfl,rfl,fun _ => rfl⟩
      rw [unlink,if_neg hfirst]
      simp only [hpred,Option.bind_eq_bind,Option.bind_some]

theorem redirect_listed {t : ProcessTable} (hl : Listed s l)
    (hchain : Chain Process.next t.processes t.process_list (l.erase p))
    (hcurrent : t.current_process = if s.current_process = some p then t.process_list
      else s.current_process)
    (hstate : ∀ q, q ≠ p → t.stateOf q = s.stateOf q) : Listed t (l.erase p) := by
  refine ⟨hchain,fun c hc => ?_,fun q hq hne => ?_⟩
  · rw [hcurrent] at hc
    split at hc
    · rw [hchain.start_eq] at hc
      exact List.mem_of_mem_head? hc
    · next hother =>
      refine (hl.chain.nodup.mem_erase_iff).mpr ⟨?_,hl.current c hc⟩
      rintro rfl
      exact hother hc
  · obtain ⟨hqp,hmem⟩ := (hl.chain.nodup.mem_erase_iff).mp hq
    rw [hstate q hqp]
    refine hl.ready q hmem fun hc => ?_
    have hother : s.current_process ≠ some p := by
      rw [hc]
      exact fun h => hqp (Option.some.inj h)
    rw [hcurrent,if_neg hother] at hne
    exact hne hc

theorem lt_of_terminate {t : ProcessTable} (h : processTerminate s (some p) = some t) :
    p < s.processes.length := by
  by_contra hge
  rw [processTerminate,List.getElem?_eq_none (Nat.le_of_not_lt hge)] at h
  cases h

theorem release_processes {process : Process} :
    (release s p process).processes = (s.setState p .terminated).processes := by
  simp only [release]
  split <;> rfl

theorem release_process_list {process : Process} :
    (release s p process).process_list = s.process_list := by
  simp only [release]
  split <;> rfl

theorem release_current {process : Process} : (release s p process).current_process =
    if s.current_process = some p then s.process_list else s.current_process := by
  simp only [release]
  split <;> rfl

theorem release_stateOf {process : Process} {q : ProcessPtr} (h : q ≠ p) :
    (release s p process).stateOf q = s.stateOf q := by
  rw [ProcessTable.stateOf,release_processes]
  exact stateOf_setState.trans (if_neg (Ne.symm h))

theorem processTerminate_listed (hl : Listed s l) (hp : p < s.processes.length) :
    ∃ t, processTerminate s (some p) = some t ∧ Listed t (l.erase p) ∧
      t.processes.length = s.processes.length ∧
      t.current_process = (if s.current_process = some p then t.process_list
        else s.current_process) ∧
      ∀ q, q ≠ p → t.stateOf q = s.stateOf q := by
  have hprocess : s.processes[p]? = some s.processes[p] := List.getElem?_eq_getElem hp
  have hprinted : Chain Process.next
      (((s.print "Islem sonlandiriliyor: ".toList).print s.processes[p].name).print ['\n']).processes
      s.process_list l := hl.chain
  obtain ⟨t,ht,hchain,hcurrent,hlength,hstate⟩ := unlink_listed hprinted hprocess
  have hredirect : (release t p s.processes[p]).current_process =
      if s.current_process = some p then (release t p s.processes[p]).process_list
        else s.current_process := by
    rw [release_current,release_process_list,hcurrent]
    rfl
  have hkeep : ∀ q, q ≠ p → (release t p s.processes[p]).stateOf q = s.stateOf q :=
    fun q hq => (release_stateOf hq).trans (hstate q)
  refine ⟨release t p s.processes[p],?_,redirect_listed hl ?_ hredirect hkeep,?_,hredirect,hkeep⟩
  · simp only [processTerminate,hprocess,Option.bind_eq_bind,Option.bind_some,ht]
  · rw [release_processes,release_process_list]
    exact chain_setState hchain
  · rw [release_processes,ProcessTable.setState,update_length,hlength]
    rfl

theorem terminated_listed {t : ProcessTable} (hl : Listed s l)
    (h : processTerminate s (some p) = some t) : Listed t (l.erase p) ∧
      t.processes.length = s.processes.length ∧
      t.current_process = (if s.current_process = some p then t.process_list
        else s.current_process) ∧
      ∀ q, q ≠ p → t.stateOf q = s.stateOf q := by
  obtain ⟨u,hu,hlisted⟩ := processTerminate_listed hl (lt_of_terminate h)
  rw [h] at hu
  cases hu
  exact hlisted

end Terminate

section Schedule

variable {s : ProcessTable} {l pre post rest : List ProcessPtr} {c n : ProcessPtr}

def switched (s : ProcessTable) (c n : ProcessPtr) : ProcessTable :=
  ({ s.setState c .ready with current_process := some n }).setState n .running

theorem switched_stateOf {q : ProcessPtr} : (switched s c n).stateOf q =
    if n = q then (s.stateOf q).map fun _ => .running
    else if c = q then (s.stateOf q).map fun _ => .ready else s.stateOf q := by
  have hready : ({ s.setState c .ready with current_process := some n }).stateOf q =
      if c = q then (s.stateOf q).map fun _ => .ready else s.stateOf q := stateOf_setState
  rw [switched,stateOf_setState,hready]
  split
  · split
    · rw [Option.map_map]
      rfl
    · rfl
  · rfl

theorem switched_listed (hl : Listed s l) (hc : s.current_process = some c) (hn : n ∈ l) :
    Listed (switched s c n) l := by
  refine ⟨chain_setState (chain_setState hl.chain),?_,?_⟩
  · rintro _ ⟨⟩
    exact hn
  · intro p hp hne
    have hpn : n ≠ p := fun h => hne (congrArg some h)
    rw [switched_stateOf,if_neg hpn]
    split
    · obtain ⟨a,ha⟩ := hl.chain.get hp
      rw [ProcessTable.stateOf,ha]
      rfl
    · next hcp =>
      refine hl.ready p hp fun h => hcp ?_
      rw [hc] at h
      exact Option.some.inj h

-- the process behind c, round the end of the list
theorem Listed.candidate (hl : Listed s (pre ++ c :: post)) (hn : post ++ pre ++ [c] = n :: rest) :
    ∃ first a, s.process_list = some first ∧ s.processes[c]? = some a ∧ a.next.getD first = n := by
  obtain ⟨a,ha⟩ := hl.chain.get (List.mem_append_right pre List.mem_cons_self)
  have hstart := hl.chain.start_eq
  have hnext := hl.chain.next_eq ha
  cases post with
  | cons d post =>
    cases pre with
    | nil => exact ⟨c,a,hstart,ha,hnext ▸ (List.cons.inj hn).1⟩
    | cons e pre => exact ⟨e,a,hstart,ha,hnext ▸ (List.cons.inj hn).1⟩
  | nil =>
    cases pre with
    | nil => exact ⟨c,a,hstart,ha,hnext ▸ (List.cons.inj hn).1⟩
    | cons e pre => exact ⟨e,a,hstart,ha,hnext ▸ (List.cons.inj hn).1⟩

theorem scheduleLoop_found {processes : List Process} {first : ProcessPtr} {fuel : ℕ} {b : Process}
    (hb : processes[n]? = some b) (h : n ≠ c → b.state = .ready) :
    scheduleLoop processes first c (fuel + 1) n = some n := by
  rw [scheduleLoop]
  split
  · rfl
  · next hnc => simp only [hb,h hnc,if_true,Option.bind_eq_bind,Option.bind_some]

theorem processSwitch_other (hc : s.current_process = some c) (h : n ≠ c) :
    processSwitch s n = some (switched s c n) := by
  rw [processSwitch,if_neg (hc ▸ fun hs => h (Option.some.inj hs).symm),hc]
  rfl

theorem processSchedule_next (hl : Listed s (pre ++ c :: post)) (hc : s.current_process = some c)
    (hn : post ++ pre ++ [c] = n :: rest) :
    processSchedule s = some (if n = c then s else switched s c n) := by
  obtain ⟨first,a,hfirst,ha,hcandidate⟩ := hl.candidate hn
  have hmem : n ∈ pre ++ c :: post := by
    have hqueue : n ∈ post ++ pre ++ [c] := hn ▸ List.mem_cons_self
    simp only [List.mem_append,List.mem_cons,List.not_mem_nil,or_false] at hqueue ⊢
    tauto
  obtain ⟨b,hb⟩ := hl.chain.get hmem
  have hready : n ≠ c → b.state = .ready := by
    intro hnc
    have hstate := hl.ready n hmem (hc ▸ fun h => hnc (Option.some.inj h).symm)
    rw [ProcessTable.stateOf,hb] at hstate
    exact Option.some.inj hstate
  simp only [processSchedule,hfirst,hc,ha,hcandidate,Option.bind_eq_bind,Option.bind_some,
    scheduleLoop_found hb hready,hb]
  by_cases hnc : n = c
  · rw [if_neg (fun h => h.1 hnc),if_pos hnc]
  · rw [if_pos ⟨hnc,hready hnc⟩,if_neg hnc,processSwitch_other hc hnc]

theorem processSchedule_current (hl : Listed s l) (hc : s.current_process = some c) :
    ∃ t, processSchedule s = some t ∧ (t = s ∨ ∃ n ∈ l, n ≠ c ∧ t = switched s c n) := by
  obtain ⟨pre,post,rfl⟩ := List.append_of_mem (hl.current c hc)
  obtain ⟨n,rest,hn⟩ := List.exists_cons_of_ne_nil
    (List.append_ne_nil_of_right_ne_nil (post ++ pre) (List.cons_ne_nil c []))
  refine ⟨_,processSchedule_next hl hc hn,?_⟩
  by_cases hnc : n = c
  · exact .inl (if_pos hnc)
  · refine .inr ⟨n,?_,hnc,if_neg hnc⟩
    have hqueue : n ∈ post ++ pre ++ [c] := hn ▸ List.mem_cons_self
    simp only [List.mem_append,List.mem_cons,List.not_mem_nil,or_false] at hqueue ⊢
    tauto

theorem processSchedule_cases {t : ProcessTable} (hl : Listed s l)
    (h : processSchedule s = some t) :
    t = s ∨ ∃ c n, s.current_process = some c ∧ n ∈ l ∧ n ≠ c ∧ t = switched s c n := by
  cases hc : s.current_process with
  | none =>
    rw [processSchedule] at h
    split at h
    · cases h
      exact .inl rfl
    · rw [hc] at h
      cases h
  | some c =>
    obtain ⟨u,hu,hcases⟩ := processSchedule_current hl hc
    rw [h] at hu
    cases hu
    exact hcases.imp_right fun ⟨n,hn,hnc,hswitched⟩ => ⟨c,n,rfl,hn,hnc,hswitched⟩

theorem processSchedule_listed {t : ProcessTable} (hl : Listed s l)
    (h : processSchedule s = some t) :
    Listed t l ∧ t.processes.length = s.processes.length := by
  rcases processSchedule_cases hl h with rfl | ⟨c,n,hc,hn,-,rfl⟩
  · exact ⟨hl,rfl⟩
  · exact ⟨switched_listed hl hc hn,update_length.trans update_length⟩

end Schedule

section Tick

variable {s : ProcessTable} {l : List ProcessPtr}

theorem ticked_listed (hl : Listed s l) : Listed (ticked s) l := ⟨hl.chain,hl.current,hl.ready⟩

def Due (s : ProcessTable) : Prop := (ticked s).kernel.tick_count % timeSlice = 0#32

instance (s : ProcessTable) : Decidable (Due s) :=
  inferInstanceAs (Decidable ((ticked s).kernel.tick_count % timeSlice = 0#32))

theorem schedulerTick_eq (hl : Listed s l) : schedulerTick s =
    if Due s ∧ 2 ≤ l.length then processSchedule (ticked s) else some (ticked s) := by
  have hchain := (ticked_listed hl).chain
  simp only [schedulerTick]
  by_cases hdue : (ticked s).kernel.tick_count % timeSlice = 0#32
  · rw [if_pos hdue]
    cases l with
    | nil =>
      rw [hchain.start_eq,if_neg (fun h => absurd h.2 (by decide : ¬ 2 ≤ ([] : List ProcessPtr).length))]
      rfl
    | cons p l =>
      obtain ⟨hp,a,ha,hrest⟩ := hchain.head
      have hnext := hrest.start_eq
      simp only [hp,ha,Option.bind_eq_bind,Option.bind_some]
      cases l with
      | nil =>
        have hend : a.next = none := hnext
        rw [if_pos hend,if_neg]
        exact fun h => absurd h.2 (Nat.lt_irrefl 1)
      | cons q l =>
        rw [if_neg (fun h => by rw [hnext] at h; cases h),if_pos]
        exact ⟨hdue,Nat.le_add_left 2 l.length⟩
  · rw [if_neg hdue,if_neg (fun h => hdue h.1)]

theorem schedulerTick_listed {t : ProcessTable} (hl : Listed s l) (h : schedulerTick s = some t) :
    Listed t l ∧ t.processes.length = s.processes.length := by
  rw [schedulerTick_eq hl] at h
  split at h
  · obtain ⟨hlisted,hlength⟩ := processSchedule_listed (ticked_listed hl) h
    exact ⟨hlisted,hlength⟩
  · cases h
    exact ⟨ticked_listed hl,rfl⟩

end Tick

theorem Listed.list_eq {s : ProcessTable} {l : List ProcessPtr} (hl : Listed s l) : s.list = l :=
  hl.chain.listing_eq hl.chain.length_le

def Consistent (s : ProcessTable) : Prop := Listed s s.list

theorem Listed.consistent {s : ProcessTable} {l : List ProcessPtr} (hl : Listed s l) :
    Consistent s := by
  rw [Consistent,hl.list_eq]
  exact hl

theorem processStep_listed {alloc : Allocator} {s t : ProcessTable} {l : List ProcessPtr}
    {c : ProcessCall} (hl : Listed s l) (h : processStep alloc s c = some t) : Consistent t := by
  cases c with
  | create name entry_point =>
    obtain ⟨⟨u,p⟩,hu,rfl⟩ := Option.map_eq_some_iff.mp h
    exact (processCreate_listed hl hu).1.consistent
  | terminate process =>
    cases process with
    | none =>
      cases h
      exact hl.consistent
    | some p => exact (terminated_listed hl h).1.consistent
  | schedule => exact (processSchedule_listed hl h).1.consistent
  | tick => exact (schedulerTick_listed hl h).1.consistent

end KluxOS.Processes
