import Mathlib.Data.List.Find
import KluxOS.Lib.Run
import KluxOS.Security.Firewall
import KluxOS.Security.SecuritySettings

namespace KluxOS.Security

open Net Run

structure SecurityState where
  config : SecuritySettings
  firewall : Firewall

-- firewall_add_rule as security.c declares it: a rule for one destination port
def portRule (port action : ℤ) : FirewallRule :=
  ⟨0#32,0#32,0#16,BitVec.ofInt 16 port,0#8,BitVec.ofInt 8 action⟩

def addPortRule (s : SecurityState) (port action : ℤ) : SecurityState × ℤ :=
  let r := firewallAddRule s.firewall (portRule port action)
  ({ s with firewall := r.1 },r.2)

def securityAddFirewallRule (s : SecurityState) (port action : ℤ) : SecurityState × ℤ :=
  if s.config.enable_firewall = 0#8 then (s,-1) else addPortRule s port action

def SecurityState.configure (s : SecurityState) (audit firewall access encryption : Uint8) :
    SecurityState :=
  { s with config := { s.config with enable_audit := audit, enable_firewall := firewall,
                                     enable_access_control := access,
                                     enable_encryption := encryption } }

def securitySetLevel (s : SecurityState) (level : Uint8) : SecurityState × ℤ :=
  if level > 4#8 then (s,-1)
  else
    let s := { s with config := { s.config with security_level := level } }
    if level = 0#8 then (s.configure 0#8 0#8 0#8 0#8,0)
    else if level = 1#8 then (s.configure 1#8 0#8 0#8 1#8,0)
    else if level = 2#8 then (s.configure 1#8 1#8 1#8 1#8,0)
    else if level = 3#8 then ((addPortRule (s.configure 1#8 1#8 1#8 1#8) 0 0).1,0)
    else ((addPortRule (addPortRule (s.configure 1#8 1#8 1#8 1#8) 0 0).1 443 1).1,0)

inductive SecurityCall where
  | init
  | addRule (port action : ℤ)
  | enable
  | disable
  | setLevel (level : Uint8)

def securityStep (s : SecurityState) : SecurityCall → Option SecurityState
  | .init => some { s with firewall := firewallInit }
  | .addRule port action => some (securityAddFirewallRule s port action).1
  | .enable => some { s with firewall := firewallEnable s.firewall }
  | .disable => some { s with firewall := firewallDisable s.firewall }
  | .setLevel level => some (securitySetLevel s level).1

def bootSecurity : SecurityState := ⟨securityConfig,firewallInit⟩

section Policy

-- the packets to a port are passed on, whatever their other fields
def PassesPort (f : Firewall) (port : Uint16) : Prop :=
  ∀ src_ip dst_ip src_port protocol,
    firewallCheckPacket src_ip dst_ip src_port port protocol f ≠ ruleDeny

def BlocksPort (f : Firewall) (port : Uint16) : Prop :=
  ∀ src_ip dst_ip src_port protocol,
    firewallCheckPacket src_ip dst_ip src_port port protocol f = ruleDeny

structure Enforces (f : Firewall) (level : Uint8) : Prop where
  open_all : level = 0#8 ∨ level = 1#8 → ∀ port, PassesPort f port
  closed : level = 3#8 → ∀ port, BlocksPort f port
  web_only : level = 4#8 → ∀ port, if port = 443#16 then PassesPort f port else BlocksPort f port

def portMatch (rules : List FirewallRule) (port : Uint16) : Option FirewallRule :=
  rules.find? fun rule => rule.dst_port = port ∨ rule.dst_port = 0#16

-- no rule before it takes the packets of the port it names
def Effective (rules : List FirewallRule) (rule : FirewallRule) : Prop :=
  portMatch rules rule.dst_port = some rule

def OpenTable (rules : List FirewallRule) : Prop :=
  (∃ rule ∈ rules, rule.dst_port = 0#16) ∧ ∀ rule, Effective rules rule → rule.action ≠ ruleDeny

def ClosedTable (rules : List FirewallRule) : Prop :=
  ∀ rule, Effective rules rule → rule.action = ruleDeny

def WebTable (rules : List FirewallRule) : Prop :=
  (∃ rule, Effective rules rule ∧ rule.dst_port = 443#16) ∧
    ∀ rule, Effective rules rule → (rule.action ≠ ruleDeny ↔ rule.dst_port = 443#16)

structure Suits (f : Firewall) (level : Uint8) : Prop where
  open_all : level = 0#8 ∨ level = 1#8 → f.firewall_enabled = true → OpenTable f.rules
  closed : level = 3#8 → f.firewall_enabled = true ∧ ClosedTable f.rules
  web_only : level = 4#8 → f.firewall_enabled = true ∧ WebTable f.rules

def PortRules (f : Firewall) : Prop := ∀ rule ∈ f.rules, ∃ port action, rule = portRule port action

end Policy

section Verdict
variable {f : Firewall} {rules : List FirewallRule} {rule : FirewallRule} {port : Uint16}

def portVerdict (rules : List FirewallRule) (port : Uint16) : Uint8 :=
  ((portMatch rules port).map FirewallRule.action).getD ruleDeny

theorem ruleMatches_portRule {src_ip dst_ip : Uint32} {src_port : Uint16} {protocol : Uint8}
    (h : ∃ port action, rule = portRule port action) :
    ruleMatches src_ip dst_ip src_port port protocol rule ↔
      rule.dst_port = port ∨ rule.dst_port = 0#16 := by
  obtain ⟨p,action,rfl⟩ := h
  constructor
  · intro h
    exact h.2.2.2.1
  · intro h
    exact ⟨.inr rfl,.inr rfl,.inr rfl,h,.inr rfl⟩

theorem checkRules_portVerdict {src_ip dst_ip : Uint32} {src_port : Uint16} {protocol : Uint8}
    (h : ∀ rule ∈ rules, ∃ port action, rule = portRule port action) :
    checkRules src_ip dst_ip src_port port protocol rules = portVerdict rules port := by
  have hfind : rules.find? (fun rule => ruleMatches src_ip dst_ip src_port port protocol rule) =
      portMatch rules port :=
    List.find?_congr fun rule hrule => decide_eq_decide.mpr (ruleMatches_portRule (h rule hrule))
  rw [checkRules_eq,hfind,portVerdict]
  cases portMatch rules port <;> rfl

theorem portMatch_covers (h : portMatch rules port = some rule) :
    rule.dst_port = port ∨ rule.dst_port = 0#16 := by
  rw [portMatch] at h
  have hcovers := List.find?_some h
  exact of_decide_eq_true hcovers

theorem portMatch_effective (h : portMatch rules port = some rule) : Effective rules rule := by
  rcases portMatch_covers h with hport | hany
  · rw [Effective,hport]
    exact h
  obtain ⟨hcovers,before,after,hrules,hbefore⟩ := List.find?_eq_some_iff_append.mp h
  refine List.find?_eq_some_iff_append.mpr ⟨?_,before,after,hrules,fun r hr => ?_⟩
  · exact decide_eq_true (.inl rfl)
  · have hnot := hbefore r hr
    simp only [Bool.not_eq_eq_eq_not,Bool.not_true,decide_eq_false_iff_not] at hnot ⊢
    rw [hany]
    rintro (hzero | hzero) <;> exact hnot (.inr hzero)

theorem portVerdict_of_match (h : portMatch rules port = some rule) :
    portVerdict rules port = rule.action := by
  rw [portVerdict,h]
  rfl

theorem portVerdict_allows (h : portVerdict rules port ≠ ruleDeny) :
    ∃ rule, portMatch rules port = some rule ∧ rule.action ≠ ruleDeny := by
  cases hmatch : portMatch rules port with
  | none =>
    rw [portVerdict,hmatch] at h
    exact absurd rfl h
  | some rule =>
    rw [portVerdict_of_match hmatch] at h
    exact ⟨rule,rfl,h⟩

theorem effective_verdict (h : Effective rules rule) :
    portVerdict rules rule.dst_port = rule.action := portVerdict_of_match h

theorem openTable_iff : OpenTable rules ↔ ∀ port, portVerdict rules port ≠ ruleDeny := by
  constructor
  · rintro ⟨⟨rule,hrule,hany⟩,hallow⟩ port
    cases hmatch : portMatch rules port with
    | none =>
      refine absurd (decide_eq_true ?_) (List.find?_eq_none.mp hmatch rule hrule)
      exact .inr hany
    | some first =>
      rw [portVerdict_of_match hmatch]
      exact hallow first (portMatch_effective hmatch)
  · intro h
    refine ⟨?_,fun rule hrule => ?_⟩
    · obtain ⟨rule,hmatch,-⟩ := portVerdict_allows (h 0#16)
      refine ⟨rule,List.mem_of_find?_eq_some hmatch,?_⟩
      rcases portMatch_covers hmatch with hport | hport <;> exact hport
    · rw [← effective_verdict hrule]
      exact h _

theorem closedTable_iff : ClosedTable rules ↔ ∀ port, portVerdict rules port = ruleDeny := by
  constructor
  · intro h port
    by_contra hallow
    obtain ⟨rule,hmatch,haction⟩ := portVerdict_allows hallow
    exact haction (h rule (portMatch_effective hmatch))
  · intro h rule hrule
    rw [← effective_verdict hrule]
    exact h _

theorem webTable_iff :
    WebTable rules ↔ ∀ port, portVerdict rules port ≠ ruleDeny ↔ port = 443#16 := by
  constructor
  · rintro ⟨⟨web,hweb,hport⟩,haction⟩ port
    constructor
    · intro hallow
      obtain ⟨rule,hmatch,hrule⟩ := portVerdict_allows hallow
      have h443 := (haction rule (portMatch_effective hmatch)).mp hrule
      rcases portMatch_covers hmatch with hcover | hcover
      · exact hcover.symm.trans h443
      · exact absurd (hcover.symm.trans h443) (by decide)
    · rintro rfl
      rw [← hport,effective_verdict hweb]
      exact (haction web hweb).mpr hport
  · intro h
    refine ⟨?_,fun rule hrule => ?_⟩
    · obtain ⟨rule,hmatch,haction⟩ := portVerdict_allows ((h 443#16).mpr rfl)
      have heffective := portMatch_effective hmatch
      rw [← effective_verdict heffective] at haction
      exact ⟨rule,heffective,(h _).mp haction⟩
    · rw [← effective_verdict hrule]
      exact h _

end Verdict

section Enforcement
variable {f : Firewall}

theorem check_eq (h : PortRules f) (src_ip dst_ip : Uint32) (src_port port : Uint16)
    (protocol : Uint8) : firewallCheckPacket src_ip dst_ip src_port port protocol f =
      if f.firewall_enabled then portVerdict f.rules port else ruleAllow := by
  rw [firewallCheckPacket,checkRules_portVerdict h]

theorem passesPort_iff (h : PortRules f) (port : Uint16) : PassesPort f port ↔
    (f.firewall_enabled = true → portVerdict f.rules port ≠ ruleDeny) := by
  simp only [PassesPort,check_eq h,forall_const]
  by_cases henabled : f.firewall_enabled = true
  · rw [if_pos henabled]
    exact ⟨fun hallow _ => hallow,fun hallow => hallow henabled⟩
  · rw [if_neg henabled]
    exact iff_of_true (by decide) (fun h => absurd h henabled)

theorem blocksPort_iff (h : PortRules f) (port : Uint16) : BlocksPort f port ↔
    f.firewall_enabled = true ∧ portVerdict f.rules port = ruleDeny := by
  simp only [BlocksPort,check_eq h,forall_const]
  by_cases henabled : f.firewall_enabled = true
  · rw [if_pos henabled]
    exact (and_iff_right henabled).symm
  · rw [if_neg henabled]
    exact iff_of_false (by decide) (fun h => henabled h.1)

theorem passesAll_iff (h : PortRules f) :
    (∀ port, PassesPort f port) ↔ (f.firewall_enabled = true → OpenTable f.rules) := by
  simp only [passesPort_iff h,openTable_iff]
  exact forall_comm

theorem blocksAll_iff (h : PortRules f) :
    (∀ port, BlocksPort f port) ↔ f.firewall_enabled = true ∧ ClosedTable f.rules := by
  simp only [blocksPort_iff h,closedTable_iff,forall_and,forall_const]

theorem webOnly_iff (h : PortRules f) :
    (∀ port, if port = 443#16 then PassesPort f port else BlocksPort f port) ↔
      f.firewall_enabled = true ∧ WebTable f.rules := by
  simp only [passesPort_iff h,blocksPort_iff h,webTable_iff]
  constructor
  · intro hall
    have henabled := (hall 0#16).1
    refine ⟨henabled,fun port => ?_⟩
    have hport := hall port
    by_cases h443 : port = 443#16
    · rw [if_pos h443] at hport
      exact iff_of_true (hport henabled) h443
    · rw [if_neg h443] at hport
      exact iff_of_false (fun hallow => hallow hport.2) h443
  · rintro ⟨henabled,hall⟩ port
    by_cases h443 : port = 443#16
    · rw [if_pos h443]
      exact fun _ => (hall port).mpr h443
    · rw [if_neg h443]
      exact ⟨henabled,Classical.not_not.mp fun hallow => h443 ((hall port).mp hallow)⟩

theorem enforces_iff (h : PortRules f) (level : Uint8) : Enforces f level ↔ Suits f level := by
  constructor
  · intro he
    exact ⟨fun hlevel => (passesAll_iff h).mp (he.open_all hlevel),
      fun hlevel => (blocksAll_iff h).mp (he.closed hlevel),
      fun hlevel => (webOnly_iff h).mp (he.web_only hlevel)⟩
  · intro hs
    exact ⟨fun hlevel => (passesAll_iff h).mpr (hs.open_all hlevel),
      fun hlevel => (blocksAll_iff h).mpr (hs.closed hlevel),
      fun hlevel => (webOnly_iff h).mpr (hs.web_only hlevel)⟩

end Enforcement

section Levels
variable {s : SecurityState}

-- rules that deny every packet when asked alone change no verdict at the end of a table
theorem portVerdict_append (rules : List FirewallRule) {extra : List FirewallRule}
    (hextra : ∀ port, portVerdict extra port = ruleDeny) (port : Uint16) :
    portVerdict (rules ++ extra) port = portVerdict rules port := by
  have hport := hextra port
  rw [portVerdict,portMatch] at hport ⊢
  rw [List.find?_append,portVerdict,portMatch]
  cases rules.find? fun rule => rule.dst_port = port ∨ rule.dst_port = 0#16 with
  | none => exact hport
  | some rule => rfl

def Appends (f g : Firewall) : Prop := ∃ extra, g = { f with rules := f.rules ++ extra } ∧
  (∀ rule ∈ extra, ∃ port action, rule = portRule port action) ∧
  ∀ port, portVerdict extra port = ruleDeny

theorem appends_self (f : Firewall) : Appends f f :=
  ⟨[],by rw [List.append_nil],fun rule hrule => absurd hrule List.not_mem_nil,fun _ => rfl⟩

theorem addPortRule_full (hfull : s.firewall.rules.length ≥ maxRules) (port action : ℤ) :
    (addPortRule s port action).1 = s := by
  rw [addPortRule,firewallAddRule,if_pos hfull]

theorem addPortRule_room (hroom : ¬ s.firewall.rules.length ≥ maxRules) (port action : ℤ) :
    (addPortRule s port action).1.firewall =
      { s.firewall with rules := s.firewall.rules ++ [portRule port action] } := by
  rw [addPortRule,firewallAddRule,if_neg hroom]

-- the rule for every port comes first, and no packet gets past it
theorem deny_first (rules : List FirewallRule) (port : Uint16) :
    portVerdict (portRule 0 0 :: rules) port = ruleDeny := by
  have hmatch : portMatch (portRule 0 0 :: rules) port = some (portRule 0 0) :=
    List.find?_cons_of_pos (decide_eq_true (.inr rfl))
  rw [portVerdict_of_match hmatch]
  rfl

theorem addPortRule_deny (s : SecurityState) :
    Appends s.firewall (addPortRule s 0 0).1.firewall := by
  by_cases hfull : s.firewall.rules.length ≥ maxRules
  · rw [addPortRule_full hfull]
    exact appends_self _
  · refine ⟨_,addPortRule_room hfull 0 0,fun rule hrule => ?_,deny_first []⟩
    exact ⟨0,0,List.mem_singleton.mp hrule⟩

theorem addPortRule_deny_web (s : SecurityState) :
    Appends s.firewall (addPortRule (addPortRule s 0 0).1 443 1).1.firewall := by
  by_cases hfull : s.firewall.rules.length ≥ maxRules
  · rw [addPortRule_full hfull,addPortRule_full hfull]
    exact appends_self _
  have hdeny := addPortRule_room hfull 0 0
  by_cases hlast : (addPortRule s 0 0).1.firewall.rules.length ≥ maxRules
  · rw [addPortRule_full hlast]
    exact addPortRule_deny s
  · have hweb := addPortRule_room hlast 443 1
    rw [hdeny] at hweb
    refine ⟨[portRule 0 0,portRule 443 1],?_,fun rule hrule => ?_,deny_first _⟩
    · rw [hweb,List.append_assoc]
      rfl
    · rcases List.mem_pair.mp hrule with rfl | rfl
      · exact ⟨0,0,rfl⟩
      · exact ⟨443,1,rfl⟩

theorem securitySetLevel_appends (s : SecurityState) (level : Uint8) :
    Appends s.firewall (securitySetLevel s level).1.firewall := by
  rw [securitySetLevel]
  by_cases hbad : level > 4#8
  · rw [if_pos hbad]
    exact appends_self _
  rw [if_neg hbad]
  by_cases h0 : level = 0#8
  · rw [if_pos h0]
    exact appends_self _
  rw [if_neg h0]
  by_cases h1 : level = 1#8
  · rw [if_pos h1]
    exact appends_self _
  rw [if_neg h1]
  by_cases h2 : level = 2#8
  · rw [if_pos h2]
    exact appends_self _
  rw [if_neg h2]
  by_cases h3 : level = 3#8
  · rw [if_pos h3]
    exact addPortRule_deny (SecurityState.configure _ 1#8 1#8 1#8 1#8)
  · rw [if_neg h3]
    exact addPortRule_deny_web (SecurityState.configure _ 1#8 1#8 1#8 1#8)

theorem Appends.portRules {f g : Firewall} (h : Appends f g) (hf : PortRules f) :
    PortRules g := by
  obtain ⟨extra,rfl,hextra,-⟩ := h
  intro rule hrule
  rcases List.mem_append.mp hrule with hrule | hrule
  · exact hf rule hrule
  · exact hextra rule hrule

theorem Appends.enforces_iff {f g : Firewall} (h : Appends f g) (hf : PortRules f)
    (level : Uint8) : Enforces g level ↔ Enforces f level := by
  have hg := h.portRules hf
  obtain ⟨extra,rfl,-,hdeny⟩ := h
  have hpass : ∀ port, PassesPort { f with rules := f.rules ++ extra } port ↔ PassesPort f port :=
    fun port => by rw [passesPort_iff hg,passesPort_iff hf,portVerdict_append _ hdeny]
  have hblock : ∀ port, BlocksPort { f with rules := f.rules ++ extra } port ↔ BlocksPort f port :=
    fun port => by rw [blocksPort_iff hg,blocksPort_iff hf,portVerdict_append _ hdeny]
  constructor
  · rintro ⟨hopen,hclosed,hweb⟩
    simp only [hpass,hblock] at hopen hclosed hweb
    exact ⟨hopen,hclosed,hweb⟩
  · rintro ⟨hopen,hclosed,hweb⟩
    simp only [← hpass,← hblock] at hopen hclosed hweb
    exact ⟨hopen,hclosed,hweb⟩

end Levels

section Runs

def Realised (s : SecurityState) (c : SecurityCall) (result : Option SecurityState) : Prop :=
  match c with
  | .setLevel level => (securitySetLevel s level).2 = 0 →
      ∃ t, result = some t ∧ Enforces t.firewall level
  | _ => True

def Suited (s : SecurityState) : SecurityCall → Prop
  | .setLevel level => Suits s.firewall level
  | _ => True

variable {s t : SecurityState}

theorem securitySetLevel_code (s : SecurityState) (level : Uint8) :
    (securitySetLevel s level).2 = 0 ∨
      level ≠ 0#8 ∧ level ≠ 1#8 ∧ level ≠ 3#8 ∧ level ≠ 4#8 := by
  rw [securitySetLevel]
  by_cases hbad : level > 4#8
  · refine .inr ⟨?_,?_,?_,?_⟩ <;> rintro rfl <;> exact absurd hbad (by decide)
  · rw [if_neg hbad]
    split
    · exact .inl rfl
    split
    · exact .inl rfl
    split
    · exact .inl rfl
    split <;> exact .inl rfl

theorem setLevel_realised_iff (h : PortRules s.firewall) (level : Uint8) :
    Realised s (.setLevel level) (securityStep s (.setLevel level)) ↔
      Suited s (.setLevel level) := by
  have hverdict : Enforces (securitySetLevel s level).1.firewall level ↔
      Suits s.firewall level :=
    ((securitySetLevel_appends s level).enforces_iff h level).trans (enforces_iff h level)
  rcases securitySetLevel_code s level with hcode | ⟨h0,h1,h3,h4⟩
  · constructor
    · intro hr
      obtain ⟨t,ht,hlevel⟩ := hr hcode
      cases ht
      exact hverdict.mp hlevel
    · intro hs _
      exact ⟨_,rfl,hverdict.mpr hs⟩
  · have hs : Suits s.firewall level :=
      ⟨fun h => absurd h (not_or.mpr ⟨h0,h1⟩),fun h => absurd h h3,fun h => absurd h h4⟩
    exact iff_of_true (fun _ => ⟨_,rfl,hverdict.mpr hs⟩) hs

theorem realised_iff (h : PortRules s.firewall) (c : SecurityCall) :
    Realised s c (securityStep s c) ↔ Suited s c := by
  cases c with
  | setLevel level => exact setLevel_realised_iff h level
  | init => exact Iff.rfl
  | addRule port action => exact Iff.rfl
  | enable => exact Iff.rfl
  | disable => exact Iff.rfl

theorem addPortRule_portRules (h : PortRules s.firewall) (port action : ℤ) :
    PortRules (addPortRule s port action).1.firewall := by
  by_cases hfull : s.firewall.rules.length ≥ maxRules
  · rw [addPortRule_full hfull]
    exact h
  · rw [addPortRule_room hfull]
    intro rule hrule
    rcases List.mem_append.mp hrule with hrule | hrule
    · exact h rule hrule
    · exact ⟨port,action,List.mem_singleton.mp hrule⟩

theorem securityStep_portRules (h : PortRules s.firewall) {c : SecurityCall}
    (hstep : securityStep s c = some t) : PortRules t.firewall := by
  cases c with
  | init =>
    cases hstep
    exact fun rule hrule => absurd hrule List.not_mem_nil
  | addRule port action =>
    cases hstep
    rw [securityAddFirewallRule]
    split
    · exact h
    · exact addPortRule_portRules h port action
  | enable =>
    cases hstep
    exact h
  | disable =>
    cases hstep
    exact h
  | setLevel level =>
    cases hstep
    exact (securitySetLevel_appends s level).portRules h

end Runs

theorem security_level_realised (cs : List SecurityCall) :
    Every securityStep Realised bootSecurity cs ↔
      Every securityStep (fun s c _ => Suited s c) bootSecurity cs := by
  have hboot : PortRules bootSecurity.firewall := fun rule hrule => absurd hrule List.not_mem_nil
  exact every_iff_of hboot (every_of_forall bootSecurity fun c _ => trivial)
    (fun s c hs _ => realised_iff hs c) fun s c t hs _ _ hstep => securityStep_portRules hs hstep

-- from boot, level 4 stops the packets to port 443 as well
theorem web_level_blocks_web : ¬ Every securityStep Realised bootSecurity [.setLevel 4#8] := by
  intro h
  obtain ⟨t,ht,hlevel⟩ := h.1 rfl
  cases ht
  have hweb := hlevel.web_only rfl 443#16
  rw [if_pos rfl] at hweb
  exact hweb 0#32 0#32 0#16 0#8 rfl

end KluxOS.Security
