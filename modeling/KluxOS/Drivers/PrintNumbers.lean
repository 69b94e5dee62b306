import KluxOS.Drivers.TerminalBounds
import KluxOS.Kernel.State
import KluxOS.Lib.Numeral

namespace KluxOS

open CArray Numeral

section Print

variable {T : Type}

-- '0' + d
def zeroPlus (d : ℕ) : Uint8 := 48#8 + BitVec.ofNat 8 d

def hexDigits : Vector Uint8 17 :=
  #v[48#8,49#8,50#8,51#8,52#8,53#8,54#8,55#8,56#8,57#8,65#8,66#8,67#8,68#8,69#8,70#8,0#8]

-- putchar is terminal_putchar; buffer is what the stack holds before the call
def terminalPrintInt (buffer : Vector Uint8 12) (value : Uint32) (putchar : Uint8 → T → Option T)
    (t : T) : Option T := do
  let t ← (if value.toInt < 0 then putchar 45#8 t else some t)
  let value := if value.toInt < 0 then -value else value
  if value = 0#32 then putchar 48#8 t
  else
    -- a negative value takes no turn
    let (i,buffer) ← storeDigits 10 zeroPlus value.toInt.toNat value.toInt.toNat 0 buffer
    printBack putchar buffer i t

def terminalPrintUint (buffer : Vector Uint8 12) (value : Uint32) (putchar : Uint8 → T → Option T)
    (t : T) : Option T :=
  if value = 0#32 then putchar 48#8 t
  else do
    let (i,buffer) ← storeDigits 10 zeroPlus value.toNat value.toNat 0 buffer
    printBack putchar buffer i t

def storeHex : ℕ → Uint32 → ℕ → Vector Uint8 9 → Option (ℕ × Vector Uint8 9)
  | 0,_,i,buffer => some (i,buffer)
  | fuel + 1,value,i,buffer =>
    if value > 0#32 ∧ i < 8 then do
      let c ← get? hexDigits (value &&& 0xF#32).toNat
      let buffer ← set? buffer i c
      storeHex fuel (value >>> 4) (i + 1) buffer
    else some (i,buffer)

def terminalPrintHex (buffer : Vector Uint8 9) (value : Uint32) (putchar : Uint8 → T → Option T)
    (t : T) : Option T := do
  let t ← emit putchar [48#8,120#8] t
  if value = 0#32 then putchar 48#8 t
  else
    let (i,buffer) ← storeHex value.toNat value 0 buffer
    printBack putchar buffer i t

end Print

section Canonical

def digitByte (d : ℕ) : Uint8 :=
  if d < 10 then 48#8 + BitVec.ofNat 8 d else 55#8 + BitVec.ofNat 8 d

def DecimalForm (z : ℤ) (text : List Uint8) : Prop :=
  ∃ ds, Writes 10 z.natAbs ds ∧ text = (if z < 0 then [45#8] else []) ++ ds.map digitByte

def HexForm (n : ℕ) (text : List Uint8) : Prop :=
  ∃ ds, Writes 16 n ds ∧ text = [48#8,120#8] ++ ds.map digitByte

-- whatever terminal_putchar does, the call is one terminal_putchar for each character of text
def Emits (print : {T : Type} → (Uint8 → T → Option T) → T → Option T) (text : List Uint8) :
    Prop :=
  ∀ (T : Type) (putchar : Uint8 → T → Option T) (t : T), print putchar t = emit putchar text t

end Canonical

section Digits

variable {T : Type} {n base fuel i k : ℕ} {digit : ℕ → Uint8}

theorem map_digits (hbase : 1 < base)
    (hdigit : ∀ d < base, digit d = digitByte d) (n : ℕ) :
    (Nat.digits base n).map digit = (Nat.digits base n).map digitByte :=
  List.map_congr_left fun d hd => hdigit d (Nat.digits_lt_base hbase hd)

theorem zeroPlus_digit : ∀ d < 10, zeroPlus d = digitByte d := fun _ hd => (if_pos hd).symm

theorem hexDigits_get? : ∀ d : ℕ, d < 16 → get? hexDigits d = some (digitByte d) := by decide

-- the digits stored from the front, printed from the back
theorem digits_printed (hbase : 1 < base)
    (hdigit : ∀ d < base, digit d = digitByte d) (hpos : n ≠ 0) (hfits : n < base ^ k)
    (buffer : Vector Uint8 k) (putchar : Uint8 → T → Option T) (t : T) :
    ((storeDigits base digit n n 0 buffer).bind fun r => printBack putchar r.2 r.1 t) =
      emit putchar ((numeral base n).map digitByte) t := by
  have hlen := (Nat.digits_length_le_iff hbase n).mpr hfits
  obtain ⟨b,hstore,hpre⟩ := storeDigits_fits hbase (Nat.le_refl n)
    (List.nil_prefix : [] <+: buffer.toList) (by rwa [List.length_nil,Nat.zero_add])
  rw [List.nil_append,map_digits hbase hdigit] at hpre
  have hback := printBack_prefix putchar hpre t
  rw [List.length_map] at hback
  rw [List.length_nil,Nat.zero_add] at hstore
  rw [hstore,numeral,if_neg hpos,List.map_reverse]
  exact hback

theorem storeHex_eq {value : Uint32} (hi : i ≤ 8) (hfits : value.toNat < 16 ^ (8 - i))
    (buffer : Vector Uint8 9) :
    storeHex fuel value i buffer = storeDigits 16 digitByte fuel value.toNat i buffer := by
  induction fuel generalizing value i buffer with
  | zero => rfl
  | succ fuel ih =>
    rw [storeHex,storeDigits]
    by_cases hpos : value.toNat > 0
    · have hroom : i < 8 := by
        by_contra hfull
        obtain rfl : i = 8 := by omega
        rw [Nat.sub_self,Nat.pow_zero] at hfits
        omega
      have hlow : (value &&& 0xF#32).toNat = value.toNat % 16 :=
        (BitVec.toNat_and ..).trans (Nat.and_two_pow_sub_one_eq_mod value.toNat 4)
      have hshift : (value >>> 4).toNat = value.toNat / 16 :=
        (BitVec.toNat_ushiftRight ..).trans (Nat.shiftRight_eq_div_pow value.toNat 4)
      have hnext : (value >>> 4).toNat < 16 ^ (8 - (i + 1)) := by
        rw [hshift]
        refine Nat.div_lt_of_lt_mul (hfits.trans_eq ?_)
        rw [← Nat.pow_succ']
        exact congrArg _ (by omega)
      rw [if_pos ⟨hpos,hroom⟩,if_pos hpos,hlow,
        hexDigits_get? _ (Nat.mod_lt _ (Nat.succ_pos 15)),← hshift]
      change (set? buffer i _).bind _ = (set? buffer i _).bind _
      exact Option.bind_congr fun b _ => ih hroom hnext b
    · rw [if_neg fun h => hpos h.1,if_neg hpos]

end Digits

section Forms

variable {T : Type} {v : Uint32}

theorem terminalPrintUint_eq (buffer : Vector Uint8 12) (v : Uint32)
    (putchar : Uint8 → T → Option T) (t : T) :
    terminalPrintUint buffer v putchar t =
      emit putchar ((numeral 10 v.toNat).map digitByte) t := by
  rw [terminalPrintUint]
  split
  · next hzero =>
    subst hzero
    exact (emit_singleton putchar 48#8 t).symm
  · next hpos =>
    have hfits : v.toNat < 10 ^ 12 := v.isLt.trans (by decide)
    exact digits_printed (by decide) zeroPlus_digit (fun h => hpos (BitVec.eq_of_toNat_eq h)) hfits
      buffer putchar t

theorem terminalPrintHex_eq (buffer : Vector Uint8 9) (v : Uint32)
    (putchar : Uint8 → T → Option T) (t : T) :
    terminalPrintHex buffer v putchar t =
      emit putchar ([48#8,120#8] ++ (numeral 16 v.toNat).map digitByte) t := by
  rw [emit_append,terminalPrintHex]
  refine Option.bind_congr fun t _ => ?_
  split
  · next hzero =>
    subst hzero
    exact (emit_singleton putchar 48#8 t).symm
  · next hpos =>
    have hfits : v.toNat < 16 ^ 9 := v.isLt.trans (by decide)
    rw [storeHex_eq (by decide) v.isLt]
    exact digits_printed (by decide) (fun _ _ => rfl) (fun h => hpos (BitVec.eq_of_toNat_eq h)) hfits
      buffer putchar t

theorem printMagnitude (buffer : Vector Uint8 12) {w : Uint32} (hw : 0 ≤ w.toInt)
    (putchar : Uint8 → T → Option T) (t : T) :
    (if w = 0#32 then putchar 48#8 t
      else (storeDigits 10 zeroPlus w.toInt.toNat w.toInt.toNat 0 buffer).bind fun r =>
        printBack putchar r.2 r.1 t) =
      emit putchar ((numeral 10 w.toInt.toNat).map digitByte) t := by
  split
  · next hzero =>
    subst hzero
    exact (emit_singleton putchar 48#8 t).symm
  · next hpos =>
    have hlt : 2 * w.toInt < 2 ^ 32 := BitVec.two_mul_toInt_lt
    have hne : w.toInt.toNat ≠ 0 := fun hzero => by
      refine hpos (BitVec.eq_of_toInt_eq ?_)
      rw [BitVec.toInt_zero]
      omega
    exact digits_printed (by decide) zeroPlus_digit hne (by omega) buffer putchar t

-- -INT_MIN is INT_MIN again, and its digits are lost
def printedInt (v : Uint32) : List Uint8 :=
  (if v.toInt < 0 then [45#8] else []) ++
    if v = 0x80000000#32 then [] else (numeral 10 v.toInt.natAbs).map digitByte

def charOf (byte : Uint8) : Char := Char.ofNat byte.toNat

-- what terminal_print_int appends to a terminal kept as text
def intText (value : Uint32) : CString := (printedInt value).map charOf

theorem terminalPrintInt_eq (buffer : Vector Uint8 12) (v : Uint32)
    (putchar : Uint8 → T → Option T) (t : T) :
    terminalPrintInt buffer v putchar t = emit putchar (printedInt v) t := by
  have hsign : (if v.toInt < 0 then putchar 45#8 t else some t) =
      emit putchar (if v.toInt < 0 then [45#8] else []) t := by
    split
    · exact (emit_singleton putchar 45#8 t).symm
    · rfl
  rw [printedInt,emit_append,← hsign,terminalPrintInt]
  refine Option.bind_congr fun t _ => ?_
  by_cases hmin : v = 0x80000000#32
  · subst hmin
    rfl
  · rw [if_neg hmin]
    by_cases hneg : v.toInt < 0
    · have hminus : (-v).toInt = -v.toInt := BitVec.toInt_neg_of_ne_intMin hmin
      have habs : v.toInt.natAbs = (-v).toInt.toNat := by omega
      rw [if_pos hneg,habs]
      exact printMagnitude buffer (by omega) putchar t
    · have habs : v.toInt.natAbs = v.toInt.toNat := by omega
      rw [if_neg hneg,habs]
      exact printMagnitude buffer (by omega) putchar t

theorem terminalPrint_onScreen (buffer : Vector Uint8 12) (hexBuffer : Vector Uint8 9) (v : Uint32)
    {t : Terminal} (ht : OnScreen t) :
    (∃ u, terminalPrintInt buffer v terminalPutchar t = some u ∧ OnScreen u) ∧
    (∃ u, terminalPrintUint buffer v terminalPutchar t = some u ∧ OnScreen u) ∧
    ∃ u, terminalPrintHex hexBuffer v terminalPutchar t = some u ∧ OnScreen u := by
  rw [terminalPrintInt_eq,terminalPrintUint_eq,terminalPrintHex_eq]
  exact ⟨putchars_onScreen _ ht,putchars_onScreen _ ht,putchars_onScreen _ ht⟩

theorem decimalForm_iff {z : ℤ} {text : List Uint8} : DecimalForm z text ↔
    text = (if z < 0 then [45#8] else []) ++ (numeral 10 z.natAbs).map digitByte := by
  constructor
  · rintro ⟨ds,hds,rfl⟩
    rw [hds.eq_numeral (by decide)]
  · rintro rfl
    exact ⟨_,writes_numeral (by decide) _,rfl⟩

theorem hexForm_iff {n : ℕ} {text : List Uint8} : HexForm n text ↔
    text = [48#8,120#8] ++ (numeral 16 n).map digitByte := by
  constructor
  · rintro ⟨ds,hds,rfl⟩
    rw [hds.eq_numeral (by decide)]
  · rintro rfl
    exact ⟨_,writes_numeral (by decide) _,rfl⟩

theorem terminalPrintInt_canonical (buffer : Vector Uint8 12) (v : Uint32) :
    (∃ text, DecimalForm v.toInt text ∧ Emits (terminalPrintInt buffer v) text) ↔
      v ≠ 0x80000000#32 := by
  constructor
  · rintro ⟨text,⟨ds,hds,rfl⟩,hemits⟩ rfl
    have hlist := (hemits (List Uint8) collect []).symm.trans (terminalPrintInt_eq buffer _ _ _)
    rw [emit_collect,emit_collect,Option.some.injEq] at hlist
    exact hds.nonempty (List.map_eq_nil_iff.mp (List.append_cancel_left hlist))
  · intro hmin
    refine ⟨printedInt v,?_,fun T putchar t => terminalPrintInt_eq buffer v putchar t⟩
    rw [decimalForm_iff,printedInt,if_neg hmin]

end Forms

theorem printed_numbers_read_back (v : Uint32) (buffer : Vector Uint8 12)
    (hexBuffer : Vector Uint8 9) :
    ((∃ text, DecimalForm v.toInt text ∧ Emits (terminalPrintInt buffer v) text) ↔
      v ≠ 0x80000000#32) ∧
    (∃ text, DecimalForm v.toNat text ∧ Emits (terminalPrintUint buffer v) text) ∧
    ∃ text, HexForm v.toNat text ∧ Emits (terminalPrintHex hexBuffer v) text := by
  refine ⟨terminalPrintInt_canonical buffer v,?_,?_⟩
  · refine ⟨_,decimalForm_iff.mpr rfl,fun T putchar t => ?_⟩
    refine (terminalPrintUint_eq buffer v putchar t).trans ?_
    rw [if_neg (by omega)]
    rfl
  · exact ⟨_,hexForm_iff.mpr rfl,fun T putchar t => terminalPrintHex_eq hexBuffer v putchar t⟩

theorem int_min_digits_lost :
    ¬ ∃ text, DecimalForm (0x80000000#32).toInt text ∧
      Emits (terminalPrintInt (Vector.replicate 12 0#8) 0x80000000#32) text := fun hprints =>
  (terminalPrintInt_canonical (Vector.replicate 12 0#8) 0x80000000#32).mp hprints rfl

end KluxOS
