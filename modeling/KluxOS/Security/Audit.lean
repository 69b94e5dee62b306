import KluxOS.Kernel.State
import KluxOS.Lib.CArray
import KluxOS.Lib.Newest
import KluxOS.Lib.Run

namespace KluxOS.Audit

open CArray KernelState Newest

def maxAuditLogs : ℕ := 1024

def auditSecurityChange : Uint32 := 7#32

def auditSystemBoot : Uint32 := 8#32

def auditLevelNone : Uint32 := 0#32

def auditLevelError : Uint32 := 1#32

def auditLevelWarning : Uint32 := 2#32

def auditLevelInfo : Uint32 := 3#32

def auditLevelVerbose : Uint32 := 4#32

structure AuditEvent where
  event_id : Uint32
  timestamp : Uint32
  type : Uint32
  level : Uint32
  user_id : Uint32
  message : CString
deriving DecidableEq

-- entries is the block at audit_logs, whatever it holds when it is allocated
structure AuditState where
  kernel : KernelState
  audit_logs : Uint32
  entries : Vector AuditEvent maxAuditLogs
  audit_count : ℕ
  next_event_id : Uint32
  current_level : Uint32

namespace AuditState

def boot (kernel : KernelState) (entries : Vector AuditEvent maxAuditLogs) : AuditState :=
  ⟨kernel,0#32,entries,0,1#32,auditLevelInfo⟩

def print (s : AuditState) (text : CString) : AuditState :=
  { s with kernel := s.kernel.print text }

-- audit_logs[0..audit_count)
def logged (s : AuditState) : List AuditEvent := s.entries.toList.take s.audit_count

end AuditState

section Log

variable (s : AuditState)

def makeRoom : Option AuditState :=
  if s.audit_count ≥ maxAuditLogs then do
    let entries ← storeLoop (fun a j => get? a (j + 1)) 0 (maxAuditLogs - 1) s.entries
    some { s with entries, audit_count := maxAuditLogs - 1 }
  else some s

def auditLog (event_type level user_id : Uint32) (message : CString) :
    Option (AuditState × ℤ) :=
  if level > s.current_level ∨ s.current_level = auditLevelNone then some (s,0)
  else if s.audit_logs = 0#32 then some (s,-1)
  else do
    let s ← makeRoom s
    let event : AuditEvent :=
      { event_id := s.next_event_id, timestamp := s.kernel.tick_count, type := event_type, level
        user_id, message := message.take 255 }
    let entries ← set? s.entries s.audit_count event
    some ({ s with
      entries
      next_event_id := s.next_event_id + 1#32
      audit_count := s.audit_count + 1 },0)

end Log

section Init

-- sizeof(audit_event_t) * MAX_AUDIT_LOGS
def auditLogsSize : Uint32 := 276#32 * 1024#32

def auditInit (alloc : Allocator) (s : AuditState) : Option AuditState :=
  let s := s.print "security audit init started\n".toList
  match allocate alloc s.kernel auditLogsSize with
  | (kernel,audit_logs) =>
    let s := { s with kernel, audit_logs }
    if audit_logs = 0#32 then some (s.print "ERROR: audit log buffer not allocated!\n".toList)
    else do
      let s := { s with audit_count := 0, next_event_id := 1#32 }
      let (s,_) ← auditLog s auditSystemBoot auditLevelInfo 0#32 "system started".toList
      some (s.print "security audit init completed\n".toList)

def levelText (level : Uint32) : CString :=
  if level = auditLevelNone then "NONE (Disabled)".toList
  else if level = auditLevelError then "ERROR (Only errors)".toList
  else if level = auditLevelWarning then "WARNING (Errors and warnings)".toList
  else if level = auditLevelInfo then "INFO (Information, errors and warnings)".toList
  else if level = auditLevelVerbose then "VERBOSE (All events)".toList
  else []

def auditSetLevel (s : AuditState) (level : Uint32) : Option AuditState :=
  if level ≥ auditLevelNone ∧ level ≤ auditLevelVerbose then do
    let s := { s with current_level := level }
    let s := s.print "audit level set to: ".toList
    let s := s.print (levelText level)
    let s := s.print ['\n']
    let (s,_) ← auditLog s auditSecurityChange auditLevelInfo 0#32
      "Denetim seviyesi degistirildi".toList
    some s
  else some s

end Init

section Find

variable (type user_id : Uint32)

def eventMatches (event : AuditEvent) : Prop :=
  (type = 0#32 ∨ event.type = type) ∧ (user_id = 0#32 ∨ event.user_id = user_id)

instance (event : AuditEvent) : Decidable (eventMatches type user_id event) :=
  inferInstanceAs (Decidable (_ ∧ _))

-- the loop from entry i on, with n entries left
def findLoop (entries : Vector AuditEvent maxAuditLogs) (max_results : Uint32) :
    ℕ → ℕ → Uint32 → (ℕ → Uint32) → Option ((ℕ → Uint32) × Uint32)
  | 0, _, found, results => some (results,found)
  | n + 1, i, found, results =>
    if found < max_results then do
      let event ← get? entries i
      if eventMatches type user_id event then
        findLoop entries max_results n (i + 1) (found + 1#32)
          (Function.update results found.toNat event.event_id)
      else findLoop entries max_results n (i + 1) found results
    else some (results,found)

def auditFindEvents (s : AuditState) (results : Option (ℕ → Uint32)) (max_results : Uint32) :
    Option (Option (ℕ → Uint32) × ℤ) :=
  match results with
  | none => some (none,-1)
  | some results =>
    if s.audit_logs = 0#32 ∨ s.audit_count = 0 then some (some results,-1)
    else do
      let (results,found) ← findLoop type user_id s.entries max_results s.audit_count 0 0#32 results
      some (some results,found.toInt)

end Find

inductive AuditCall where
  | setLevel (level : Uint32)
  | log (event_type level user_id : Uint32) (message : CString)
  | tick

def auditStep (s : AuditState) : AuditCall → Option AuditState
  | .setLevel level => auditSetLevel s level
  | .log event_type level user_id message =>
    (auditLog s event_type level user_id message).map Prod.fst
  | .tick => some { s with kernel := { s.kernel with tick_count := s.kernel.tick_count + 1#32 } }

section History

structure AuditHistory where
  level : Uint32
  ticks : Uint32
  accepted : List AuditEvent

def AuditHistory.submit (h : AuditHistory) (event_type level user_id : Uint32)
    (message : CString) : AuditHistory :=
  if level ≤ h.level ∧ h.level ≠ auditLevelNone then
    { h with accepted := h.accepted ++
      [⟨BitVec.ofNat 32 (h.accepted.length + 1),h.ticks,event_type,level,user_id,
        message.take 255⟩] }
  else h

def historyStep (h : AuditHistory) : AuditCall → AuditHistory
  | .setLevel level =>
    if level ≤ auditLevelVerbose then
      { h with level }.submit auditSecurityChange auditLevelInfo 0#32
        "Denetim seviyesi degistirildi".toList
    else h
  | .log event_type level user_id message => h.submit event_type level user_id message
  | .tick => { h with ticks := h.ticks + 1#32 }

def historyInit (level ticks : Uint32) : AuditHistory :=
  AuditHistory.submit ⟨level,ticks,[]⟩ auditSystemBoot auditLevelInfo 0#32 "system started".toList

def history (level ticks : Uint32) (cs : List AuditCall) : AuditHistory :=
  cs.foldl historyStep (historyInit level ticks)

end History

section Refinement

structure Refines (s : AuditState) (h : AuditHistory) : Prop where
  allocated : s.audit_logs ≠ 0#32
  count : s.audit_count = min h.accepted.length maxAuditLogs
  logged : s.logged = newest maxAuditLogs h.accepted
  next : s.next_event_id = BitVec.ofNat 32 (h.accepted.length + 1)
  level : s.current_level = h.level
  ticks : s.kernel.tick_count = h.ticks

variable {s t : AuditState} {h : AuditHistory}

theorem logged_length (hcount : s.audit_count ≤ maxAuditLogs) :
    s.logged.length = s.audit_count := by
  rw [AuditState.logged,List.length_take,Vector.length_toList]
  exact Nat.min_eq_left hcount

theorem makeRoom_some (hcount : s.audit_count ≤ maxAuditLogs) : ∃ entries count,
    makeRoom s = some { s with entries, audit_count := count } ∧
      count = min s.audit_count (maxAuditLogs - 1) ∧ entries.toList.take count =
        if s.logged.length < maxAuditLogs then s.logged else s.logged.tail := by
  rw [logged_length hcount,makeRoom]
  by_cases hfull : s.audit_count ≥ maxAuditLogs
  · have heq : s.audit_count = maxAuditLogs := Nat.le_antisymm hcount hfull
    obtain ⟨entries,hloop,hshift⟩ :=
      storeLoop_shift s.entries (k := maxAuditLogs - 1) (by decide)
    refine ⟨entries,maxAuditLogs - 1,?_,by rw [heq]; rfl,?_⟩
    · rw [if_pos hfull,hloop]
      rfl
    · rw [if_neg (Nat.not_lt_of_le hfull),hshift,AuditState.logged,heq]
      rfl
  · have hroom := Nat.lt_of_not_le hfull
    refine ⟨s.entries,s.audit_count,if_neg hfull,?_,?_⟩
    · exact (Nat.min_eq_left (Nat.le_pred_of_lt hroom)).symm
    · rw [if_pos hroom,AuditState.logged]

theorem auditLog_refines (hs : Refines s h) (event_type level user_id : Uint32)
    (message : CString) : ∃ t, auditLog s event_type level user_id message = some (t,0) ∧
      Refines t (h.submit event_type level user_id message) := by
  rw [auditLog,AuditHistory.submit,hs.level]
  by_cases hlevel : level ≤ h.level ∧ h.level ≠ auditLevelNone
  · rw [if_neg (by rw [gt_iff_lt,← BitVec.not_le]; tauto),if_neg hs.allocated,if_pos hlevel]
    obtain ⟨entries,count,hroom,hmin,hkept⟩ := makeRoom_some (hs.count ▸ Nat.min_le_right _ _)
    have hlt : count < maxAuditLogs := by
      rw [hmin]
      exact Nat.lt_of_le_of_lt (Nat.min_le_right _ _) (by decide)
    rw [hroom,Option.bind_eq_bind,Option.bind_some]
    dsimp only
    rw [set?_eq _ _ hlt rfl]
    refine ⟨_,rfl,hs.allocated,?_,?_,?_,hs.level,hs.ticks⟩
    · have hcount := hs.count
      rw [List.length_append,List.length_singleton]
      change count + 1 = _
      simp only [maxAuditLogs] at hmin hcount ⊢
      omega
    · rw [AuditState.logged,take_set,hkept,hs.logged,hs.next,hs.ticks]
      exact (newest_concat h.accepted _).symm
    · rw [List.length_append,List.length_singleton,hs.next]
      exact (BitVec.ofNat_add _ 1).symm
  · rw [if_pos (by rw [gt_iff_lt,← BitVec.not_le]; tauto),if_neg hlevel]
    exact ⟨s,rfl,hs⟩

theorem auditSetLevel_refines (hs : Refines s h) (level : Uint32) :
    ∃ t, auditSetLevel s level = some t ∧ Refines t (historyStep h (.setLevel level)) := by
  rw [auditSetLevel,historyStep]
  by_cases hlevel : level ≤ auditLevelVerbose
  · rw [if_pos ⟨BitVec.le_def.mpr (Nat.zero_le _),hlevel⟩,if_pos hlevel]
    have hset : Refines
        ((({ s with current_level := level }.print "audit level set to: ".toList).print
          (levelText level)).print ['\n']) { h with level } :=
      ⟨hs.allocated,hs.count,hs.logged,hs.next,rfl,hs.ticks⟩
    obtain ⟨t,ht,hrefines⟩ := auditLog_refines hset auditSecurityChange auditLevelInfo 0#32
      "Denetim seviyesi degistirildi".toList
    exact ⟨t,Option.bind_eq_some_iff.mpr ⟨(t,0),ht,rfl⟩,hrefines⟩
  · rw [if_neg fun hand => hlevel hand.2,if_neg hlevel]
    exact ⟨s,rfl,hs⟩

theorem auditStep_refines (hs : Refines s h) (c : AuditCall) :
    ∃ t, auditStep s c = some t ∧ Refines t (historyStep h c) := by
  cases c with
  | setLevel level => exact auditSetLevel_refines hs level
  | log event_type level user_id message =>
    obtain ⟨t,ht,hrefines⟩ := auditLog_refines hs event_type level user_id message
    exact ⟨t,by rw [auditStep,ht]; rfl,hrefines⟩
  | tick =>
    refine ⟨_,rfl,hs.allocated,hs.count,hs.logged,hs.next,hs.level,?_⟩
    rw [hs.ticks]
    rfl

theorem run_refines (hs : Refines s h) (cs : List AuditCall) :
    ∃ t, Run.run auditStep s cs = some t ∧ Refines t (cs.foldl historyStep h) := by
  induction cs generalizing s h with
  | nil => exact ⟨s,rfl,hs⟩
  | cons c cs ih =>
    obtain ⟨u,hu,hrefines⟩ := auditStep_refines hs c
    obtain ⟨t,ht,hrun⟩ := ih hrefines
    exact ⟨t,by rw [Run.run,hu,Option.bind_some,ht],hrun⟩

theorem empty_refines (hlogs : s.audit_logs ≠ 0#32) (hcount : s.audit_count = 0)
    (hnext : s.next_event_id = 1#32) : Refines s ⟨s.current_level,s.kernel.tick_count,[]⟩ := by
  refine ⟨hlogs,?_,?_,hnext,rfl,rfl⟩
  · rw [hcount,List.length_nil,Nat.zero_min]
  · rw [AuditState.logged,hcount,newest_short (Nat.zero_le _),List.take_zero]

theorem auditInit_refines {alloc : Allocator}
    (hmalloc : alloc s.kernel.blocks auditLogsSize ≠ 0#32) : ∃ t, auditInit alloc s = some t ∧
      Refines t (historyInit s.current_level s.kernel.tick_count) := by
  let started := s.print "security audit init started\n".toList
  have hstarted : alloc started.kernel.blocks auditLogsSize ≠ 0#32 := hmalloc
  let empty : AuditState := { started with
    kernel := { started.kernel with
      blocks := (alloc started.kernel.blocks auditLogsSize,auditLogsSize) :: started.kernel.blocks }
    audit_logs := alloc started.kernel.blocks auditLogsSize
    audit_count := 0
    next_event_id := 1#32 }
  have hempty : Refines empty ⟨s.current_level,s.kernel.tick_count,[]⟩ :=
    empty_refines hstarted rfl rfl
  obtain ⟨t,ht,hrefines⟩ := auditLog_refines hempty auditSystemBoot auditLevelInfo 0#32
    "system started".toList
  refine ⟨t.print "security audit init completed\n".toList,?_,
    hrefines.allocated,hrefines.count,hrefines.logged,hrefines.next,hrefines.level,hrefines.ticks⟩
  rw [auditInit]
  dsimp only
  rw [allocate_block alloc started.kernel hstarted]
  dsimp only
  rw [if_neg hstarted]
  exact Option.bind_eq_some_iff.mpr ⟨(t,0),ht,rfl⟩

end Refinement

section Accepted

variable (h : AuditHistory)

def Numbered : Prop :=
  ∀ (i : ℕ) (event : AuditEvent), h.accepted[i]? = some event →
    event.event_id = BitVec.ofNat 32 (i + 1)

variable {h}

theorem submit_numbered (hn : Numbered h) (event_type level user_id : Uint32)
    (message : CString) : Numbered (h.submit event_type level user_id message) := by
  rw [AuditHistory.submit]
  split
  · intro i event hi
    rcases concat_cases hi with hi | ⟨rfl,rfl⟩
    · exact hn i event hi
    · rfl
  · exact hn

theorem historyStep_numbered (hn : Numbered h) (c : AuditCall) : Numbered (historyStep h c) := by
  cases c with
  | setLevel level =>
    rw [historyStep]
    split
    · exact submit_numbered (h := { h with level }) hn _ _ _ _
    · exact hn
  | log event_type level user_id message => exact submit_numbered hn _ _ _ _
  | tick => exact hn

theorem submit_prefix (h : AuditHistory) (event_type level user_id : Uint32)
    (message : CString) : h.accepted <+: (h.submit event_type level user_id message).accepted := by
  rw [AuditHistory.submit]
  split
  · exact List.prefix_append _ _
  · exact List.prefix_rfl

theorem historyStep_prefix (h : AuditHistory) (c : AuditCall) :
    h.accepted <+: (historyStep h c).accepted := by
  cases c with
  | setLevel level =>
    rw [historyStep]
    split
    · exact submit_prefix { h with level } _ _ _ _
    · exact List.prefix_rfl
  | log event_type level user_id message => exact submit_prefix h _ _ _ _
  | tick => exact List.prefix_rfl

theorem history_numbered (level ticks : Uint32) (cs : List AuditCall) :
    Numbered (history level ticks cs) :=
  List.foldlRecOn cs historyStep
    (submit_numbered (fun _ _ hi => by cases hi) _ _ _ _) fun _ hn c _ => historyStep_numbered hn c

theorem history_accepted {level : Uint32} (hlevel : auditLevelInfo ≤ level) (ticks : Uint32)
    (cs : List AuditCall) : (history level ticks cs).accepted ≠ [] := by
  have hnone : level ≠ auditLevelNone := by
    rintro rfl
    exact absurd hlevel (by decide)
  refine List.foldlRecOn (motive := fun h => h.accepted ≠ []) cs historyStep ?_
    fun h hne c _ hnil => ?_
  · rw [historyInit,AuditHistory.submit,if_pos ⟨hlevel,hnone⟩]
    exact List.append_ne_nil_of_right_ne_nil _ (List.cons_ne_nil _ _)
  · have hprefix := historyStep_prefix h c
    rw [hnil,List.prefix_nil] at hprefix
    exact hne hprefix

end Accepted

section Search

variable {s : AuditState} {h : AuditHistory} (type user_id : Uint32)

def matchingIds (events : List AuditEvent) : List Uint32 :=
  (events.filter fun event => eventMatches type user_id event).map AuditEvent.event_id

-- the caller's buffer with ids stored from place k on
def stored (results : ℕ → Uint32) (k : ℕ) (ids : List Uint32) : ℕ → Uint32 :=
  fun j => if k ≤ j then (ids[j - k]?).getD (results j) else results j

theorem stored_nil (results : ℕ → Uint32) (k : ℕ) : stored results k [] = results := by
  funext j
  simp [stored]

theorem stored_cons (results : ℕ → Uint32) (k : ℕ) (id : Uint32) (ids : List Uint32) :
    stored (Function.update results k id) (k + 1) ids = stored results k (id :: ids) := by
  funext j
  rw [stored,stored]
  rcases Nat.lt_trichotomy j k with hj | rfl | hj
  · rw [if_neg (by omega),if_neg (by omega),Function.update_of_ne (by omega)]
  · rw [if_neg (by omega),if_pos (Nat.le_refl j),Nat.sub_self,Function.update_self]
    rfl
  · have hsub : j - k = j - (k + 1) + 1 := by omega
    rw [if_pos (Nat.succ_le_of_lt hj),if_pos (Nat.le_of_lt hj),hsub,List.getElem?_cons_succ,
      Function.update_of_ne (by omega)]

variable {type user_id}

theorem matchingIds_cons (event : AuditEvent) (events : List AuditEvent) :
    matchingIds type user_id (event :: events) =
      if eventMatches type user_id event then event.event_id :: matchingIds type user_id events
      else matchingIds type user_id events := by
  rw [matchingIds,matchingIds,List.filter_cons]
  by_cases hmatch : eventMatches type user_id event <;> simp [hmatch]

theorem findLoop_spec (entries : Vector AuditEvent maxAuditLogs) (max_results : Uint32) (n : ℕ)
    (i : ℕ) (found : Uint32) (results : ℕ → Uint32) (hi : i + n ≤ maxAuditLogs)
    (hfound : found.toNat + n < 2 ^ 32) :
    findLoop type user_id entries max_results n i found results =
      let ids := (matchingIds type user_id ((entries.toList.drop i).take n)).take
        (max_results.toNat - found.toNat)
      some (stored results found.toNat ids,found + BitVec.ofNat 32 ids.length) := by
  induction n generalizing i found results with
  | zero =>
    simp [findLoop,matchingIds,stored_nil]
  | succ n ih =>
    have hlt : i < maxAuditLogs := by omega
    rw [findLoop,drop_toList entries hlt,List.take_succ_cons,matchingIds_cons,
      get?_eq entries hlt rfl]
    by_cases hmax : found < max_results
    · have hroom : max_results.toNat - found.toNat = max_results.toNat - (found.toNat + 1) + 1 := by
        have := BitVec.lt_def.mp hmax
        omega
      rw [if_pos hmax,Option.bind_eq_bind,Option.bind_some]
      by_cases hmatch : eventMatches type user_id (entries.get ⟨i,hlt⟩)
      · have hnext : (found + 1#32).toNat = found.toNat + 1 := by
          rw [BitVec.toNat_add,BitVec.toNat_ofNat]
          omega
        rw [if_pos hmatch,if_pos hmatch,ih (i + 1) (found + 1#32) _ (by omega) (by omega),hnext,
          hroom,List.take_succ_cons]
        dsimp only
        rw [stored_cons,List.length_cons,BitVec.ofNat_add,BitVec.add_assoc,
          BitVec.add_comm (1#32)]
      · rw [if_neg hmatch,if_neg hmatch,ih (i + 1) found _ (by omega) (by omega)]
    · have hfull : max_results.toNat - found.toNat = 0 := by
        have := BitVec.le_def.mp (BitVec.not_lt.mp hmax)
        omega
      rw [if_neg hmax,hfull]
      simp [stored_nil]

theorem auditFindEvents_some (hs : Refines s h) (results : ℕ → Uint32) (max_results : Uint32)
    (hne : s.logged ≠ []) : auditFindEvents type user_id s (some results) max_results =
      let ids := (matchingIds type user_id s.logged).take max_results.toNat
      some (some (stored results 0 ids),(ids.length : ℤ)) := by
  have hcount : s.audit_count ≤ maxAuditLogs := hs.count ▸ Nat.min_le_right _ _
  have hzero : s.audit_count ≠ 0 := fun hzero =>
    hne (List.length_eq_zero_iff.mp ((logged_length hcount).trans hzero))
  have hlimit : maxAuditLogs < 2 ^ 31 := by decide
  rw [auditFindEvents]
  dsimp only
  rw [if_neg (by have := hs.allocated; tauto),
    findLoop_spec s.entries max_results s.audit_count 0 0#32 results (by omega)
      (by rw [BitVec.toNat_ofNat]; omega),Option.bind_eq_bind,Option.bind_some,List.drop_zero]
  have hids : ((matchingIds type user_id s.logged).take max_results.toNat).length < 2 ^ 31 := by
    have hlog := logged_length hcount
    have hfilter := s.logged.length_filter_le fun event => eventMatches type user_id event
    rw [List.length_take,matchingIds,List.length_map]
    omega
  have hint : (BitVec.ofNat 32
      ((matchingIds type user_id s.logged).take max_results.toNat).length).toInt =
        ((matchingIds type user_id s.logged).take max_results.toNat).length := by
    rw [BitVec.toInt_eq_toNat_of_lt] <;> rw [BitVec.toNat_ofNat,Nat.mod_eq_of_lt (by omega)]
    omega
  rw [BitVec.zero_add]
  dsimp only
  rw [← hint]
  rfl

theorem auditFindEvents_empty (hs : Refines s h) (results : ℕ → Uint32) (max_results : Uint32)
    (hempty : s.logged = []) :
    auditFindEvents type user_id s (some results) max_results = some (some results,-1) := by
  have hlog := logged_length (hs.count ▸ Nat.min_le_right h.accepted.length maxAuditLogs)
  rw [hempty] at hlog
  exact if_pos (Or.inr hlog.symm)

end Search

theorem audit_log_keeps_newest (alloc : Allocator) (s : AuditState) (cs : List AuditCall)
    (hmalloc : alloc s.kernel.blocks auditLogsSize ≠ 0#32) :
    ∃ s₀ t h, auditInit alloc s = some s₀ ∧ Run.run auditStep s₀ cs = some t ∧
      h = history s.current_level s.kernel.tick_count cs ∧
      t.audit_count = min h.accepted.length maxAuditLogs ∧
      t.logged = newest maxAuditLogs h.accepted ∧ Numbered h ∧
      (auditLevelInfo ≤ s.current_level → t.logged ≠ []) ∧
      ∀ (type user_id : Uint32) (results : ℕ → Uint32) (max_results : Uint32),
        auditFindEvents type user_id t (some results) max_results =
          if t.logged = [] then some (some results,-1)
          else
            let ids := (matchingIds type user_id t.logged).take max_results.toNat
            some (some (stored results 0 ids),(ids.length : ℤ)) := by
  obtain ⟨s₀,hinit,hrefines⟩ := auditInit_refines hmalloc
  obtain ⟨t,hrun,ht⟩ : ∃ t, Run.run auditStep s₀ cs = some t ∧
      Refines t (history s.current_level s.kernel.tick_count cs) := run_refines hrefines cs
  refine ⟨s₀,t,history s.current_level s.kernel.tick_count cs,hinit,hrun,rfl,ht.count,ht.logged,
    history_numbered _ _ cs,fun hlevel hnil => ?_,fun type user_id results max_results => ?_⟩
  · have hlength := newest_length (n := maxAuditLogs)
      (history s.current_level s.kernel.tick_count cs).accepted
    have hpos := List.length_pos_of_ne_nil (history_accepted hlevel s.kernel.tick_count cs)
    rw [← ht.logged,hnil,List.length_nil] at hlength
    simp only [maxAuditLogs] at hlength
    omega
  · split
    · next hempty => exact auditFindEvents_empty ht results max_results hempty
    · next hne => exact auditFindEvents_some ht results max_results hne

-- the level drops to warnings, so that the last event is refused
def lowered : List AuditCall :=
  [.log 1#32 1#32 5#32 ['i','n'],.tick,.setLevel auditLevelWarning,.log 2#32 2#32 5#32 ['o'],
    .log 2#32 auditLevelInfo 5#32 ['n','o']]

def bootAudit : AuditState :=
  .boot .boot (Vector.replicate maxAuditLogs ⟨0#32,0#32,0#32,0#32,0#32,[]⟩)

theorem audit_log_keeps_newest_lowered : ∃ s₀ t, auditInit constantAllocator bootAudit = some s₀ ∧
    Run.run auditStep s₀ lowered = some t ∧
    t.logged.map AuditEvent.message = ["system started".toList,['i','n'],['o']] ∧
    ∃ results, auditFindEvents 0#32 5#32 t (some fun _ => 0#32) 9#32 =
      some (some results,2) ∧ results 0 = 2#32 ∧ results 1 = 3#32 := by
  obtain ⟨s₀,t,h,hinit,hrun,rfl,-,hlogged,-,hne,hfind⟩ :=
    audit_log_keeps_newest constantAllocator bootAudit lowered (by decide)
  have haccepted : (history bootAudit.current_level bootAudit.kernel.tick_count lowered).accepted =
      [⟨1#32,0#32,auditSystemBoot,auditLevelInfo,0#32,"system started".toList⟩,
        ⟨2#32,0#32,1#32,1#32,5#32,['i','n']⟩,⟨3#32,1#32,2#32,2#32,5#32,['o']⟩] := by decide
  rw [haccepted,newest_short (by decide)] at hlogged
  have hfound := hfind 0#32 5#32 (fun _ => 0#32) 9#32
  rw [if_neg (hne (by decide)),hlogged] at hfound
  refine ⟨s₀,t,hinit,hrun,by rw [hlogged]; rfl,_,hfound,?_,?_⟩
  · decide
  · decide

end KluxOS.Audit
