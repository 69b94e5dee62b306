import KluxOS.Drivers.Printf
import KluxOS.Security.Audit

namespace KluxOS.Audit

open CArray KernelState Newest Run

section View

def noLogText : CString := "Denetim kaydi bulunamadi.\n".toList

def headerText : CString :=
  "ID  | ZAMAN   | TUR  | SEVIYE | KULLANICI | MESAJ\n".toList ++
    "----+---------+------+--------+-----------+------------------------\n".toList

-- terminal_printf reads none of the event's fields
def rowText : CString := terminalPrintf "%3d | %7d | %4s | %6s | %9d | %s\n".toList

def noMatchText : CString := "No audit records found matching the specified criteria.\n".toList

variable (start_id count : Uint32)

-- the loop from entry i on, with n entries left
def viewLoop (entries : Vector AuditEvent maxAuditLogs) :
    ℕ → ℕ → Uint32 → AuditState → Option (AuditState × Uint32)
  | 0, _, displayed, s => some (s,displayed)
  | n + 1, i, displayed, s =>
    if displayed < count then do
      let event ← get? entries i
      if event.event_id < start_id then viewLoop entries n (i + 1) displayed s
      else viewLoop entries n (i + 1) (displayed + 1#32) (s.print rowText)
    else some (s,displayed)

def auditViewLogs (s : AuditState) : Option (AuditState × ℤ) :=
  if s.audit_logs = 0#32 ∨ s.audit_count = 0 then some (s.print noLogText,-1)
  else do
    let (s,displayed) ← viewLoop start_id count s.entries s.audit_count 0 0#32 (s.print headerText)
    if displayed = 0#32 then some (s.print noMatchText,-1) else some (s,displayed.toInt)

end View

section Rows

variable (start_id count : Uint32)

def shown (events : List AuditEvent) : List AuditEvent :=
  (events.filter fun event => start_id ≤ event.event_id).take count.toNat

def rows (n : ℕ) : CString := (List.replicate n rowText).flatten

theorem rows_succ (n : ℕ) : rows (n + 1) = rowText ++ rows n := by
  rw [rows,List.replicate_succ,List.flatten_cons,rows]

theorem print_print (s : AuditState) (text more : CString) :
    (s.print text).print more = s.print (text ++ more) :=
  congrArg (fun kernel => { s with kernel := kernel }) (KernelState.print_print ..)

theorem print_nil (s : AuditState) : s.print [] = s :=
  congrArg (fun kernel => { s with kernel := kernel }) (KernelState.print_nil s.kernel)

variable {start_id count}

theorem viewLoop_spec (entries : Vector AuditEvent maxAuditLogs) (n i : ℕ) (displayed : Uint32)
    (s : AuditState) (hi : i + n ≤ maxAuditLogs) (hdisplayed : displayed.toNat + n < 2 ^ 32) :
    viewLoop start_id count entries n i displayed s =
      let k := min (((entries.toList.drop i).take n).filter fun event =>
        start_id ≤ event.event_id).length (count.toNat - displayed.toNat)
      some (s.print (rows k),displayed + BitVec.ofNat 32 k) := by
  induction n generalizing i displayed s with
  | zero => simp [viewLoop,rows,print_nil]
  | succ n ih =>
    have hlt : i < maxAuditLogs := by omega
    rw [viewLoop,drop_toList entries hlt,List.take_succ_cons,List.filter_cons,get?_eq entries hlt rfl]
    by_cases hmax : displayed < count
    · have hroom : count.toNat - displayed.toNat = count.toNat - (displayed.toNat + 1) + 1 := by
        have := BitVec.lt_def.mp hmax
        omega
      rw [if_pos hmax,Option.bind_eq_bind,Option.bind_some]
      by_cases hskip : (entries.get ⟨i,hlt⟩).event_id < start_id
      · rw [if_pos hskip,if_neg (by simpa using hskip),ih (i + 1) displayed s (by omega) (by omega)]
      · have hnext : (displayed + 1#32).toNat = displayed.toNat + 1 := by
          rw [BitVec.toNat_add,BitVec.toNat_ofNat]
          omega
        rw [if_neg hskip,if_pos (by simpa using hskip),ih (i + 1) (displayed + 1#32) _ (by omega)
          (by omega),hnext,List.length_cons,hroom]
        dsimp only
        rw [Nat.add_min_add_right,print_print,← rows_succ,BitVec.ofNat_add,BitVec.add_assoc,
          BitVec.add_comm 1#32]
    · have hfull : count.toNat - displayed.toNat = 0 := by
        have := BitVec.le_def.mp (BitVec.not_lt.mp hmax)
        omega
      rw [if_neg hmax,hfull]
      simp [rows,print_nil]

end Rows

section Refinement

variable {s t : AuditState} {h : AuditHistory}

theorem Refines.print (hs : Refines s h) (text : CString) : Refines (s.print text) h :=
  ⟨hs.allocated,hs.count,hs.logged,hs.next,hs.level,hs.ticks⟩

theorem makeRoom_kernel (ht : makeRoom s = some t) : t.kernel = s.kernel := by
  rw [makeRoom] at ht
  split at ht
  · obtain ⟨entries,-,ht⟩ := Option.bind_eq_some_iff.mp ht
    cases ht
    rfl
  · cases ht
    rfl

theorem auditLog_kernel {event_type level user_id : Uint32} {message : CString} {status : ℤ}
    (ht : auditLog s event_type level user_id message = some (t,status)) : t.kernel = s.kernel := by
  rw [auditLog] at ht
  split at ht
  · cases ht
    rfl
  · split at ht
    · cases ht
      rfl
    · obtain ⟨u,hu,ht⟩ := Option.bind_eq_some_iff.mp ht
      obtain ⟨entries,-,ht⟩ := Option.bind_eq_some_iff.mp ht
      cases ht
      have hkernel := makeRoom_kernel hu
      exact hkernel

-- what a call of the log prints
def levelSetText (level : Uint32) : CString :=
  "audit level set to: ".toList ++ levelText level ++ ['\n']

def callText : AuditCall → CString
  | .setLevel level => if level ≤ auditLevelVerbose then levelSetText level else []
  | .log _ _ _ _ => []
  | .tick => []

theorem auditStep_text {c : AuditCall} (ht : auditStep s c = some t) :
    t.kernel.terminal = s.kernel.terminal ++ callText c := by
  cases c with
  | setLevel level =>
    rw [auditStep,auditSetLevel] at ht
    by_cases hlevel : level ≤ auditLevelVerbose
    · rw [if_pos ⟨BitVec.le_def.mpr (Nat.zero_le _),hlevel⟩] at ht
      obtain ⟨⟨u,status⟩,hu,ht⟩ := Option.bind_eq_some_iff.mp ht
      cases ht
      rw [auditLog_kernel hu,print_print,print_print,callText,if_pos hlevel]
      rfl
    · rw [if_neg fun hand => hlevel hand.2] at ht
      cases ht
      rw [callText,if_neg hlevel,List.append_nil]
  | log event_type level user_id message =>
    obtain ⟨⟨u,status⟩,hu,ht⟩ := Option.map_eq_some_iff.mp ht
    cases ht
    rw [auditLog_kernel hu,callText,List.append_nil]
  | tick =>
    cases ht
    exact (List.append_nil _).symm

end Refinement

section Session

inductive ConsoleCall where
  | audit (c : AuditCall)
  | view (start_id count : Uint32)

-- none for the calls that return nothing
def consoleStep (s : AuditState) : ConsoleCall → Option (AuditState × Option ℤ)
  | .audit c => (auditStep s c).map fun t => (t,none)
  | .view start_id count => (auditViewLogs start_id count s).map fun r => (r.1,some r.2)

-- the history of the accepted events, and the text on the terminal
structure AuditSession where
  history : AuditHistory
  text : CString

def viewText (kept : List AuditEvent) (start_id count : Uint32) : CString :=
  if kept = [] then noLogText
  else
    let events := shown start_id count kept
    headerText ++ rows events.length ++ if events = [] then noMatchText else []

def viewResult (kept : List AuditEvent) (start_id count : Uint32) : ℤ :=
  let events := shown start_id count kept
  if events = [] then -1 else events.length

def sessionStep (σ : AuditSession) : ConsoleCall → Option (AuditSession × Option ℤ)
  | .audit c => some (⟨historyStep σ.history c,σ.text ++ callText c⟩,none)
  | .view start_id count =>
    let kept := newest maxAuditLogs σ.history.accepted
    some (⟨σ.history,σ.text ++ viewText kept start_id count⟩,some (viewResult kept start_id count))

structure Follows (s : AuditState) (σ : AuditSession) : Prop where
  refines : Refines s σ.history
  text : s.kernel.terminal = σ.text

variable {s : AuditState} {σ : AuditSession}

theorem auditViewLogs_eq {h : AuditHistory} (hs : Refines s h) (start_id count : Uint32) :
    auditViewLogs start_id count s =
      some (s.print (viewText s.logged start_id count),viewResult s.logged start_id count) := by
  have hcount : s.audit_count ≤ maxAuditLogs := hs.count ▸ Nat.min_le_right _ _
  have hlength := logged_length hcount
  have hlimit : maxAuditLogs < 2 ^ 31 := by decide
  rw [auditViewLogs,viewText,viewResult]
  by_cases hzero : s.audit_count = 0
  · have hnil : s.logged = [] := List.length_eq_zero_iff.mp (hlength.trans hzero)
    have hshown : shown start_id count [] = [] := List.take_nil
    rw [if_pos (.inr hzero),if_pos hnil,hnil,hshown,if_pos rfl]
  · have hne : s.logged ≠ [] := fun hnil => hzero (hlength.symm.trans (by rw [hnil]; rfl))
    rw [if_neg (by have := hs.allocated; tauto),if_neg hne,
      viewLoop_spec s.entries s.audit_count 0 0#32 _ (by omega) (by rw [BitVec.toNat_ofNat]; omega)]
    have hk : min (((s.entries.toList.drop 0).take s.audit_count).filter fun event =>
        start_id ≤ event.event_id).length (count.toNat - (0#32).toNat) =
        (shown start_id count s.logged).length := by
      rw [shown,List.length_take,List.drop_zero,AuditState.logged,Nat.min_comm]
      rfl
    have hsmall : (shown start_id count s.logged).length < 2 ^ 31 := by
      have hfilter := s.logged.length_filter_le fun event => start_id ≤ event.event_id
      rw [shown,List.length_take]
      omega
    have hdisplayed : (0#32 + BitVec.ofNat 32 (shown start_id count s.logged).length).toNat =
        (shown start_id count s.logged).length := by
      rw [BitVec.zero_add,BitVec.toNat_ofNat,Nat.mod_eq_of_lt (by omega)]
    have hzero : 0#32 + BitVec.ofNat 32 (shown start_id count s.logged).length = 0#32 ↔
        shown start_id count s.logged = [] := by
      rw [← BitVec.toNat_inj,hdisplayed,BitVec.toNat_ofNat,Nat.zero_mod,List.length_eq_zero_iff]
    dsimp only
    rw [hk,Option.bind_eq_bind,Option.bind_some]
    dsimp only
    by_cases hnone : shown start_id count s.logged = []
    · rw [if_pos (hzero.mpr hnone),if_pos hnone,if_pos hnone,print_print,print_print,
        ← List.append_assoc]
    · rw [if_neg (mt hzero.mp hnone),if_neg hnone,if_neg hnone,List.append_nil,print_print,
        BitVec.toInt_eq_toNat_of_lt (by omega),hdisplayed]

theorem consoleStep_follows (hs : Follows s σ) (c : ConsoleCall) :
    ∃ t τ r, consoleStep s c = some (t,r) ∧ sessionStep σ c = some (τ,r) ∧ Follows t τ := by
  cases c with
  | audit c =>
    obtain ⟨t,ht,hrefines⟩ := auditStep_refines hs.refines c
    refine ⟨t,_,none,?_,rfl,hrefines,?_⟩
    · rw [consoleStep,ht,Option.map_some]
    · rw [auditStep_text ht,hs.text]
  | view start_id count =>
    have hview := auditViewLogs_eq hs.refines start_id count
    rw [hs.refines.logged] at hview
    refine ⟨_,_,_,by rw [consoleStep,hview,Option.map_some],rfl,hs.refines.print _,?_⟩
    rw [← hs.text]
    rfl

end Session

def startText : CString :=
  "security audit init started\n".toList ++ "security audit init completed\n".toList

theorem auditInit_text {alloc : Allocator} {s t : AuditState}
    (hmalloc : alloc s.kernel.blocks auditLogsSize ≠ 0#32) (ht : auditInit alloc s = some t) :
    t.kernel.terminal = s.kernel.terminal ++ startText := by
  have hstarted : alloc (s.print "security audit init started\n".toList).kernel.blocks auditLogsSize ≠
      0#32 := hmalloc
  rw [auditInit] at ht
  dsimp only at ht
  rw [allocate_block alloc _ hstarted] at ht
  dsimp only at ht
  rw [if_neg hstarted] at ht
  obtain ⟨⟨u,status⟩,hu,ht⟩ := Option.bind_eq_some_iff.mp ht
  cases ht
  have hkernel := congrArg KernelState.terminal (auditLog_kernel hu)
  change u.kernel.terminal ++ _ = _
  rw [hkernel]
  exact List.append_assoc s.kernel.terminal _ _

-- a view prints one row for each event it shows, and none of the event
theorem audit_views_show_history (alloc : Allocator) (s : AuditState) (calls : List ConsoleCall)
    (hmalloc : alloc s.kernel.blocks auditLogsSize ≠ 0#32) :
    ∃ s₀ t σ results, auditInit alloc s = some s₀ ∧
      run (logged consoleStep) (s₀,[]) calls = some (t,results) ∧
      run (logged sessionStep) (⟨historyInit s.current_level s.kernel.tick_count,
        s.kernel.terminal ++ startText⟩,[]) calls = some (σ,results) ∧
      t.logged = newest maxAuditLogs σ.history.accepted ∧ t.kernel.terminal = σ.text := by
  obtain ⟨s₀,hinit,hrefines⟩ := auditInit_refines hmalloc
  have hstart : Follows s₀ ⟨historyInit s.current_level s.kernel.tick_count,
      s.kernel.terminal ++ startText⟩ := ⟨hrefines,auditInit_text hmalloc hinit⟩
  have hsim : ∀ s σ c, Follows s σ → True →
      ∃ t τ r, consoleStep s c = some (t,r) ∧ sessionStep σ c = some (τ,r) ∧ Follows t τ :=
    fun s σ c hs _ => consoleStep_follows hs c
  obtain ⟨t,σ,results,ht,hσ,hend⟩ := run_logged_simulates (V := fun _ _ => True) hsim hstart
    (every_of_forall _ fun _ _ => trivial)
  exact ⟨s₀,t,σ,results,hinit,ht,hσ,hend.refines.logged,hend.text⟩

-- a login among the events from id 2 on
def viewedLogin : List ConsoleCall := [.audit (.log 1#32 1#32 5#32 ['i','n']),.view 2#32 10#32]

theorem audit_views_show_history_login : ∃ s₀ t results,
    auditInit constantAllocator bootAudit = some s₀ ∧
      run (logged consoleStep) (s₀,[]) viewedLogin = some (t,results) ∧ results = [none,some 1] := by
  obtain ⟨s₀,t,σ,results,hinit,hrun,hsession,-⟩ :=
    audit_views_show_history constantAllocator bootAudit viewedLogin (by decide)
  have hresults : some results = some [none,some 1] :=
    (congrArg (Option.map Prod.snd) hsession).symm.trans (by decide)
  exact ⟨s₀,t,results,hinit,hrun,Option.some.inj hresults⟩

end KluxOS.Audit
