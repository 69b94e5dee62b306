import KluxOS.Security.Audit

namespace KluxOS.Audit

open Newest Run

section Step

-- a call of audit_set_level that changes the level, made while security changes are recorded
def ChangesLevel (s : AuditState) (level : Uint32) : Prop :=
  level ≤ auditLevelVerbose ∧ level ≠ s.current_level ∧ auditLevelInfo ≤ s.current_level

-- the log then has a security change event it did not have before
def Traced (s : AuditState) (c : AuditCall) (result : Option AuditState) : Prop :=
  match c with
  | .setLevel level => ChangesLevel s level → ∃ t, result = some t ∧
      ∃ event ∈ t.logged, event ∉ s.logged ∧ event.type = auditSecurityChange
  | _ => True

def KeepsInfo (s : AuditState) : AuditCall → Prop
  | .setLevel level => ChangesLevel s level → auditLevelInfo ≤ level
  | _ => True

def Recorded (s : AuditState) : Prop := ∃ h, Refines s h ∧ Numbered h

variable {s t : AuditState} {h : AuditHistory}

-- at most 1024 ids are in the log, so the next one is not among them
theorem next_event_fresh (hs : Refines s h) (hn : Numbered h) {event : AuditEvent}
    (hid : event.event_id = BitVec.ofNat 32 (h.accepted.length + 1)) : event ∉ s.logged := by
  rw [hs.logged,mem_newest]
  rintro ⟨i,hle,hi⟩
  have hlt := (List.getElem?_eq_some_iff.mp hi).1
  have heq := congrArg BitVec.toNat ((hn i event hi).symm.trans hid)
  rw [BitVec.toNat_ofNat,BitVec.toNat_ofNat] at heq
  simp only [maxAuditLogs] at hle
  omega

theorem accepted_logged {event : AuditEvent} (hs : Refines s h)
    (hlast : ∃ before, h.accepted = before ++ [event]) : event ∈ s.logged := by
  obtain ⟨before,hbefore⟩ := hlast
  rw [hs.logged,mem_newest,hbefore]
  refine ⟨before.length,?_,List.getElem?_concat_length⟩
  rw [List.length_append,List.length_singleton]
  exact Nat.add_le_add_left (by decide) _

theorem setLevel_traced_iff (hs : Refines s h) (hn : Numbered h) (level : Uint32) :
    Traced s (.setLevel level) (auditStep s (.setLevel level)) ↔
      KeepsInfo s (.setLevel level) := by
  refine imp_congr_right fun hchange => ?_
  obtain ⟨t,ht,hrefines⟩ := auditStep_refines hs (.setLevel level)
  rw [historyStep,if_pos hchange.1,AuditHistory.submit] at hrefines
  by_cases hinfo : auditLevelInfo ≤ level
  · have hnone : level ≠ auditLevelNone := by
      rintro rfl
      exact absurd hinfo (by decide)
    rw [if_pos ⟨hinfo,hnone⟩] at hrefines
    refine iff_of_true ⟨t,ht,_,accepted_logged hrefines ⟨_,rfl⟩,next_event_fresh hs hn rfl,rfl⟩ hinfo
  · rw [if_neg fun hand => hinfo hand.1] at hrefines
    refine iff_of_false ?_ hinfo
    -- the event is filtered by the level just set, and the log stays as it was
    rintro ⟨u,hu,event,hevent,hnew,-⟩
    cases ht.symm.trans hu
    refine hnew ?_
    rw [hs.logged]
    rw [hrefines.logged] at hevent
    exact hevent

theorem traced_iff (hs : Recorded s) (c : AuditCall) :
    Traced s c (auditStep s c) ↔ KeepsInfo s c := by
  obtain ⟨h,hrefines,hn⟩ := hs
  cases c with
  | setLevel level => exact setLevel_traced_iff hrefines hn level
  | log event_type level user_id message => exact Iff.rfl
  | tick => exact Iff.rfl

theorem auditStep_recorded (hs : Recorded s) {c : AuditCall} (hstep : auditStep s c = some t) :
    Recorded t := by
  obtain ⟨h,hrefines,hn⟩ := hs
  obtain ⟨u,hu,hrefines'⟩ := auditStep_refines hrefines c
  cases hu.symm.trans hstep
  exact ⟨_,hrefines',historyStep_numbered hn c⟩

end Step

theorem level_changes_traced (alloc : Allocator) (s : AuditState) (cs : List AuditCall)
    (hmalloc : alloc s.kernel.blocks auditLogsSize ≠ 0#32) :
    ∃ s₀, auditInit alloc s = some s₀ ∧ (Every auditStep Traced s₀ cs ↔
      Every auditStep (fun s c _ => KeepsInfo s c) s₀ cs) := by
  obtain ⟨s₀,hinit,hrefines⟩ := auditInit_refines hmalloc
  have hrecorded : Recorded s₀ := ⟨_,hrefines,history_numbered _ _ []⟩
  refine ⟨s₀,hinit,every_iff_of hrecorded (every_of_forall s₀ fun c _ => trivial)
    (fun s c hs _ => traced_iff hs c) fun s c t hs _ _ hstep => auditStep_recorded hs hstep⟩

theorem level_changes_traced_verbose : ∃ s₀, auditInit constantAllocator bootAudit = some s₀ ∧
    Every auditStep Traced s₀ [.setLevel auditLevelVerbose] := by
  obtain ⟨s₀,hinit,hiff⟩ :=
    level_changes_traced constantAllocator bootAudit [.setLevel auditLevelVerbose] (by decide)
  exact ⟨s₀,hinit,hiff.mpr ⟨fun _ => by decide,fun _ _ => trivial⟩⟩

-- the level falls to NONE and the event of the change is refused
theorem level_lowered_untraced : ∃ s₀, auditInit constantAllocator bootAudit = some s₀ ∧
    ¬ Every auditStep Traced s₀ [.setLevel auditLevelNone] := by
  have hmalloc : constantAllocator bootAudit.kernel.blocks auditLogsSize ≠ 0#32 := by decide
  obtain ⟨s₀,hinit,hrefines⟩ := auditInit_refines hmalloc
  refine ⟨s₀,hinit,fun hall => ?_⟩
  have hlevel : s₀.current_level = auditLevelInfo := hrefines.level
  have hchange : ChangesLevel s₀ auditLevelNone := by
    rw [ChangesLevel,hlevel]
    decide
  have hrecorded : Recorded s₀ := ⟨_,hrefines,
    history_numbered bootAudit.current_level bootAudit.kernel.tick_count []⟩
  have hkeeps := (traced_iff hrecorded _).mp hall.1 hchange
  exact absurd hkeeps (by decide)

end KluxOS.Audit
