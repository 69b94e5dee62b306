import Mathlib.Data.Int.Notation
import Mathlib.Data.List.Induction
import KluxOS.Kernel.Types

namespace KluxOS.Net

def ruleAllow : Uint8 := 1#8

def ruleDeny : Uint8 := 0#8

def maxRules : ℕ := 256

structure FirewallRule where
  src_ip : Uint32
  dst_ip : Uint32
  src_port : Uint16
  dst_port : Uint16
  protocol : Uint8
  action : Uint8
deriving DecidableEq

-- rules[0..rule_count)
structure Firewall where
  rules : List FirewallRule
  firewall_enabled : Bool

def firewallInit : Firewall := ⟨[],true⟩

def firewallAddRule (f : Firewall) (rule : FirewallRule) : Firewall × ℤ :=
  if f.rules.length ≥ maxRules then (f,-1) else ({ f with rules := f.rules ++ [rule] },0)

def firewallEnable (f : Firewall) : Firewall := { f with firewall_enabled := true }

def firewallDisable (f : Firewall) : Firewall := { f with firewall_enabled := false }

def firewallTable (rules : List FirewallRule) : Firewall :=
  rules.foldl (fun f rule => (firewallAddRule f rule).1) firewallInit

section Check

variable (src_ip dst_ip : Uint32) (src_port dst_port : Uint16) (protocol : Uint8)

def ruleMatches (rule : FirewallRule) : Prop :=
  (rule.src_ip = src_ip ∨ rule.src_ip = 0#32) ∧ (rule.dst_ip = dst_ip ∨ rule.dst_ip = 0#32) ∧
    (rule.src_port = src_port ∨ rule.src_port = 0#16) ∧
    (rule.dst_port = dst_port ∨ rule.dst_port = 0#16) ∧
    (rule.protocol = protocol ∨ rule.protocol = 0#8)

instance (rule : FirewallRule) :
    Decidable (ruleMatches src_ip dst_ip src_port dst_port protocol rule) :=
  inferInstanceAs (Decidable (_ ∧ _))

def checkRules : List FirewallRule → Uint8
  | [] => ruleDeny
  | rule :: rules =>
    if ruleMatches src_ip dst_ip src_port dst_port protocol rule then rule.action
    else checkRules rules

def firewallCheckPacket (f : Firewall) : Uint8 :=
  if f.firewall_enabled then checkRules src_ip dst_ip src_port dst_port protocol f.rules
  else ruleAllow

def firstMatch (f : Firewall) : Option FirewallRule :=
  f.rules.find? fun rule => ruleMatches src_ip dst_ip src_port dst_port protocol rule

variable {src_ip dst_ip : Uint32} {src_port dst_port : Uint16} {protocol : Uint8}

theorem checkRules_eq (rules : List FirewallRule) :
    checkRules src_ip dst_ip src_port dst_port protocol rules =
      match rules.find? fun rule => ruleMatches src_ip dst_ip src_port dst_port protocol rule with
      | none => ruleDeny
      | some rule => rule.action := by
  induction rules with
  | nil => rfl
  | cons rule rules ih =>
    rw [checkRules,List.find?_cons]
    by_cases hmatch : ruleMatches src_ip dst_ip src_port dst_port protocol rule
    · rw [if_pos hmatch,decide_eq_true hmatch]
    · rw [if_neg hmatch,decide_eq_false hmatch,ih]

theorem firewallCheckPacket_eq {f : Firewall} (h : f.firewall_enabled = true) :
    firewallCheckPacket src_ip dst_ip src_port dst_port protocol f =
      match firstMatch src_ip dst_ip src_port dst_port protocol f with
      | none => ruleDeny
      | some rule => rule.action := by
  rw [firewallCheckPacket,if_pos h]
  exact checkRules_eq f.rules

end Check

section Table

theorem firewallAddRule_enabled (f : Firewall) (rule : FirewallRule) :
    (firewallAddRule f rule).1.firewall_enabled = f.firewall_enabled := by
  rw [firewallAddRule]
  split <;> rfl

theorem firewallTable_enabled (rules : List FirewallRule) :
    (firewallTable rules).firewall_enabled = true := by
  induction rules using List.reverseRecOn with
  | nil => rfl
  | append_singleton rules rule ih =>
    rw [firewallTable,List.foldl_append,List.foldl_cons,List.foldl_nil,firewallAddRule_enabled]
    exact ih

-- rules past the table's size are refused
theorem firewallTable_rules (rules : List FirewallRule) :
    (firewallTable rules).rules = rules.take maxRules := by
  induction rules using List.reverseRecOn with
  | nil => rfl
  | append_singleton rules rule ih =>
    rw [firewallTable,List.foldl_append,List.foldl_cons,List.foldl_nil]
    change (firewallAddRule (firewallTable rules) rule).1.rules = _
    rw [firewallAddRule,ih,List.length_take]
    by_cases hfull : maxRules ≤ rules.length
    · rw [if_pos (Nat.le_min.mpr ⟨Nat.le_refl _,hfull⟩),ih,List.take_append_of_le_length hfull]
    · have hlt := Nat.lt_of_not_le hfull
      rw [if_neg (fun h => hfull (Nat.le_trans h (Nat.min_le_right _ _))),
        List.take_of_length_le (Nat.le_of_lt hlt),List.take_of_length_le]
      rw [List.length_append,List.length_singleton]
      exact hlt

end Table

end KluxOS.Net
