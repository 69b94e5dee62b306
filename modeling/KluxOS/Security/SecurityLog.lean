import KluxOS.Kernel.State
import KluxOS.Lib.Numeral
import KluxOS.Lib.Reversal
import KluxOS.Lib.Terminated

namespace KluxOS.Acl

open CArray KernelState Numeral Reversal Terminated

def nul : Char := '\x00'

-- d + '0'
def decimalChar (d : ℕ) : Char := Char.ofNat (d + 48)

section Log

-- the do loop is its first turn and a while loop
def userIdDigits (user_id_str : Vector Char 10) (user_id : Uint32) :
    Option (ℕ × Vector Char 10) := do
  let temp := user_id.toNat
  let user_id_str ← set? user_id_str 0 (decimalChar (temp % 10))
  storeDigits 10 decimalChar (temp / 10) (temp / 10) 1 user_id_str

-- what terminal_writestring prints; none where it reads past the array
def writtenString (a : Vector Char 10) : Option CString :=
  if nul ∈ a.toList then some (content nul a.toList 0) else none

def userIdString (user_id_str : Vector Char 10) (user_id : Uint32) : Option CString := do
  let (i,user_id_str) ← userIdDigits user_id_str user_id
  let user_id_str ← set? user_id_str i nul
  let user_id_str ← reverseFront i user_id_str
  writtenString user_id_str

-- user_id_str is what the stack holds before the call; resource_id and perm are not used
def securityAuditLog (user_id_str : Vector Char 10) (message : CString) (user_id : Uint32)
    (s : KernelState) : Option KernelState := do
  let s := s.print "[GUVENLIK DENETIMI] ".toList
  let s := s.print message
  let s := s.print " (Kullanici: ".toList
  let text ← userIdString user_id_str user_id
  let s := s.print text
  some (s.print ")\n".toList)

end Log

section UserId

variable {user_id : Uint32} {s : KernelState}

def UserIdText (user_id : Uint32) (text : CString) : Prop :=
  ∃ ds, Writes 10 user_id.toNat ds ∧ text = ds.map decimalChar

def logLine (message text : CString) : CString :=
  "[GUVENLIK DENETIMI] ".toList ++ message ++ " (Kullanici: ".toList ++ text ++ ")\n".toList

theorem decimalChar_ne_nul : ∀ d < 10, decimalChar d ≠ nul := by decide

theorem userId_length (user_id : Uint32) :
    (numeral 10 user_id.toNat).length = 1 + (Nat.digits 10 (user_id.toNat / 10)).length := by
  rw [← List.length_reverse,numeral_reverse (by decide),List.length_cons,Nat.add_comm]

-- every id has ten digits at most, and the loop stores them inside the array
theorem userIdDigits_spec (user_id_str : Vector Char 10) (user_id : Uint32) :
    ∃ a, userIdDigits user_id_str user_id = some ((numeral 10 user_id.toNat).length,a) ∧
      ((numeral 10 user_id.toNat).map decimalChar).reverse <+: a.toList := by
  have hshort : user_id.toNat < 10 ^ 10 := user_id.isLt.trans (by decide)
  have hlen := (numeral_length_le (by decide) (by decide)).mpr hshort
  rw [userId_length] at hlen
  obtain ⟨b,hset,hpre⟩ := prefix_set (List.nil_prefix : [] <+: user_id_str.toList) (by decide)
    (decimalChar (user_id.toNat % 10))
  obtain ⟨a,hstore,hall⟩ := storeDigits_fits (by decide) (Nat.le_refl _) hpre hlen
  refine ⟨a,?_,?_⟩
  · rw [userIdDigits,userId_length]
    exact Option.bind_eq_some_iff.mpr ⟨b,hset,hstore⟩
  · rw [← List.map_reverse,numeral_reverse (by decide)]
    exact hall

theorem writtenString_eq {a : Vector Char 10} {text tail : CString}
    (ha : a.toList = text ++ nul :: tail) (hclean : nul ∉ text) : writtenString a = some text := by
  have hcut : Cut nul a.toList 0 text := ⟨hclean,tail,ha⟩
  have hend : nul ∈ a.toList := by
    rw [ha]
    exact List.mem_append_right _ List.mem_cons_self
  rw [writtenString,if_pos hend,hcut.content]

theorem userIdText_clean {text : CString} (h : UserIdText user_id text) : nul ∉ text := by
  obtain ⟨ds,hds,rfl⟩ := h
  intro hmem
  obtain ⟨d,hd,hnul⟩ := List.mem_map.mp hmem
  exact decimalChar_ne_nul d (hds.digits d hd) hnul

theorem print_line (s : KernelState) (t u v w x : CString) :
    ((((s.print t).print u).print v).print w).print x = s.print (t ++ u ++ v ++ w ++ x) := by
  rw [print_print,print_print,print_print,print_print,List.append_assoc,List.append_assoc,
    List.append_assoc]

theorem securityAuditLog_eq (user_id_str : Vector Char 10) (message : CString) (user_id : Uint32)
    (s : KernelState) : securityAuditLog user_id_str message user_id s =
      (userIdString user_id_str user_id).map fun text => s.print (logLine message text) := by
  rw [securityAuditLog]
  cases userIdString user_id_str user_id with
  | none => rfl
  | some text => exact congrArg some (print_line s _ _ _ _ _)

theorem userIdString_short (user_id_str : Vector Char 10) (hshort : user_id.toNat < 10 ^ 9) :
    userIdString user_id_str user_id = some ((numeral 10 user_id.toNat).map decimalChar) := by
  have hlen := (numeral_length_le (by decide) (by decide)).mpr hshort
  obtain ⟨a,hdigits,hpre⟩ := userIdDigits_spec user_id_str user_id
  set text := (numeral 10 user_id.toNat).map decimalChar with htext
  have htextlen : text.reverse.length = (numeral 10 user_id.toNat).length := by
    rw [List.length_reverse,List.length_map]
  obtain ⟨b,hset,tail,hb⟩ := prefix_set hpre (by omega) nul
  rw [List.append_assoc] at hb
  obtain ⟨c,hreverse,hc⟩ := reverseFront_spec hb.symm
  rw [List.reverse_reverse] at hc
  rw [htextlen] at hset hreverse
  refine Option.bind_eq_some_iff.mpr ⟨_,hdigits,?_⟩
  refine Option.bind_eq_some_iff.mpr ⟨b,hset,?_⟩
  refine Option.bind_eq_some_iff.mpr ⟨c,hreverse,?_⟩
  exact writtenString_eq hc (userIdText_clean ⟨_,writes_numeral (by decide) user_id.toNat,htext⟩)

-- ten digits leave no room for the terminator
theorem userIdString_long (user_id_str : Vector Char 10) (hlong : ¬ user_id.toNat < 10 ^ 9) :
    userIdString user_id_str user_id = none := by
  have hlen : 10 ≤ (numeral 10 user_id.toNat).length := by
    by_contra hfits
    exact hlong ((numeral_length_le (by decide) (by decide)).mp (by omega))
  obtain ⟨a,hdigits,-⟩ := userIdDigits_spec user_id_str user_id
  rw [userIdString,hdigits]
  change (set? a _ nul).bind _ = none
  rw [set?_full hlen]
  rfl

theorem securityAuditLog_iff (user_id_str : Vector Char 10) (message : CString) (user_id : Uint32)
    (s : KernelState) :
    (∃ text, UserIdText user_id text ∧ securityAuditLog user_id_str message user_id s =
      some (s.print (logLine message text))) ↔ user_id.toNat < 10 ^ 9 := by
  constructor
  · rintro ⟨text,-,hlog⟩
    by_contra hlong
    rw [securityAuditLog_eq,userIdString_long user_id_str hlong] at hlog
    cases hlog
  · intro hshort
    refine ⟨_,⟨_,writes_numeral (by decide) _,rfl⟩,?_⟩
    rw [securityAuditLog_eq,userIdString_short user_id_str hshort]
    rfl

end UserId

theorem user_id_printed_safely (user_id_str : Vector Char 10) (message : CString)
    (user_id : Uint32) (s : KernelState) :
    (∃ text, UserIdText user_id text ∧ securityAuditLog user_id_str message user_id s =
      some (s.print (logLine message text))) ↔ user_id.toNat < 10 ^ 9 :=
  securityAuditLog_iff user_id_str message user_id s

theorem ten_digit_user_id :
    ¬ ∃ text, UserIdText 1000000000#32 text ∧
      securityAuditLog (Vector.replicate 10 nul) "login".toList 1000000000#32 boot =
        some (boot.print (logLine "login".toList text)) := fun hlog =>
  absurd ((securityAuditLog_iff _ _ _ _).mp hlog) (by decide)

end KluxOS.Acl
