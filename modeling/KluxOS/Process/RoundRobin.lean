import KluxOS.Process.ProcessList

namespace KluxOS.Processes

open LinkedList

-- n calls of process_schedule, with the current process after each
def scheduleTimes : ℕ → ProcessTable → Option (ProcessTable × List (Option ProcessPtr))
  | 0,s => some (s,[])
  | n + 1,s => do
    let t ← processSchedule s
    let (u,currents) ← scheduleTimes n t
    some (u,t.current_process :: currents)

-- q is the order in which the processes of l become current
structure Turns (s : ProcessTable) (l q : List ProcessPtr) : Prop where
  listed : Listed s l
  order : ∃ pre c post, l = pre ++ c :: post ∧ s.current_process = some c ∧ q = post ++ pre ++ [c]

section Turns

variable {s : ProcessTable} {l q r rest : List ProcessPtr} {c n : ProcessPtr}

theorem Turns.perm (h : Turns s l q) : q.Perm l := by
  obtain ⟨pre,c,post,rfl,-,rfl⟩ := h.order
  refine List.Perm.trans ?_ List.perm_append_comm
  rw [List.append_assoc]
  exact (List.perm_append_comm.append_left post).trans (List.perm_append_comm_assoc post [c] pre)

theorem Turns.step (h : Turns s l (n :: rest)) : ∃ t, processSchedule s = some t ∧
    t.current_process = some n ∧ Turns t l (rest ++ [n]) := by
  obtain ⟨hl,pre,c,post,rfl,hc,hq⟩ := h
  have hschedule := processSchedule_next hl hc hq.symm
  have hmid := (List.nodup_middle.mp hl.chain.nodup).notMem
  cases post with
  | cons d post =>
    obtain ⟨rfl,rfl⟩ := List.cons.inj hq
    have hnc : n ≠ c := fun h => hmid (h ▸ List.mem_append_right pre List.mem_cons_self)
    rw [if_neg hnc] at hschedule
    have hmem : n ∈ pre ++ c :: n :: post := by simp
    refine ⟨_,hschedule,rfl,switched_listed hl hc hmem,pre ++ [c],n,post,by simp,rfl,by simp⟩
  | nil =>
    cases pre with
    | cons e pre =>
      obtain ⟨rfl,rfl⟩ := List.cons.inj hq
      have hnc : n ≠ c := fun h => hmid (h ▸ List.mem_cons_self)
      rw [if_neg hnc] at hschedule
      refine ⟨_,hschedule,rfl,switched_listed hl hc List.mem_cons_self,[],n,pre ++ [c],rfl,rfl,?_⟩
      simp
    | nil =>
      obtain ⟨rfl,rfl⟩ := List.cons.inj hq
      rw [if_pos rfl] at hschedule
      exact ⟨s,hschedule,hc,hl,[],n,[],rfl,hc,rfl⟩

theorem Turns.round (h : Turns s l (q ++ r)) :
    ∃ t, scheduleTimes q.length s = some (t,q.map some) ∧ Turns t l (r ++ q) := by
  induction q generalizing s r with
  | nil => exact ⟨s,rfl,(List.append_nil r).symm ▸ h⟩
  | cons n q ih =>
    rw [List.cons_append] at h
    obtain ⟨t,ht,hcurrent,hturns⟩ := h.step
    rw [List.append_assoc] at hturns
    obtain ⟨u,hu,hround⟩ := ih hturns
    refine ⟨u,?_,by simpa using hround⟩
    simp only [List.length_cons,scheduleTimes,ht,hu,hcurrent,Option.bind_eq_bind,Option.bind_some,
      List.map_cons]

theorem Turns.current (h : Turns s l (q ++ [c])) : s.current_process = some c := by
  obtain ⟨-,pre,d,post,-,hd,hq⟩ := h
  obtain ⟨-,hcd⟩ := List.append_inj' hq rfl
  cases hcd
  exact hd

end Turns

theorem round_robin_fair (alloc : Allocator) (kernel : KernelState) (cs : List ProcessCall)
    (s₀ s : ProcessTable) (hinit : processInit alloc (.boot kernel) = some s₀)
    (hrun : Run.run (processStep alloc) s₀ cs = some s) (c : ProcessPtr)
    (hc : s.current_process = some c) :
    Chain Process.next s.processes s.process_list s.list ∧
    ∃ t, ∃ order : List ProcessPtr, scheduleTimes s.list.length s = some (t,order.map some) ∧ order.Nodup ∧
      (∀ p, p ∈ order ↔ p ∈ s.list) ∧ t.current_process = some c := by
  have hconsistent : Consistent s := Run.run_invariant (processInit_listed hinit).consistent
    (fun _ _ _ hl => processStep_listed hl) hrun
  have hinv : Listed s s.list := hconsistent
  obtain ⟨pre,post,hlist⟩ := List.append_of_mem (hinv.current c hc)
  rw [hlist] at hinv ⊢
  have hturns : Turns s (pre ++ c :: post) (post ++ pre ++ [c]) := ⟨hinv,pre,c,post,rfl,hc,rfl⟩
  refine ⟨hinv.chain,?_⟩
  have hround := hturns
  rw [← List.append_nil (post ++ pre ++ [c])] at hround
  obtain ⟨t,ht,hround⟩ := hround.round
  rw [List.nil_append] at hround
  rw [hturns.perm.length_eq] at ht
  exact ⟨t,_,ht,hturns.perm.nodup_iff.mpr hinv.chain.nodup,fun p => hturns.perm.mem_iff,
    hround.current⟩

def threeProcesses : List ProcessCall := [.create ['a'] 0#32,.create ['b'] 0#32,.schedule]

def tableAfter (cs : List ProcessCall) : Option ProcessTable :=
  (processInit constantAllocator (.boot .boot)).bind fun s =>
    Run.run (processStep constantAllocator) s cs

theorem round_robin_fair_three : ∃ s, tableAfter threeProcesses = some s ∧ s.list = [2,1,0] ∧
    ∃ t, ∃ order : List ProcessPtr, scheduleTimes 3 s = some (t,order.map some) ∧ order.Nodup ∧
      (∀ p, p ∈ order ↔ p ∈ s.list) ∧ t.current_process = some 2 := by
  have hshape : (tableAfter threeProcesses).map (fun s => (s.list,s.current_process)) =
      some ([2,1,0],some 2) := by decide
  obtain ⟨s,hs,hshape⟩ := Option.map_eq_some_iff.mp hshape
  obtain ⟨hlist,hc⟩ := Prod.mk.inj hshape
  obtain ⟨s₀,hinit,hrun⟩ := Option.bind_eq_some_iff.mp hs
  have hfair := round_robin_fair constantAllocator .boot threeProcesses s₀ s hinit hrun 2 hc
  have hlength : s.list.length = 3 := by rw [hlist]; rfl
  rw [hlength] at hfair
  exact ⟨s,hs,hlist,hfair.2⟩

end KluxOS.Processes
