import Mathlib.Data.Nat.Digits.Lemmas
import KluxOS.Lib.CArray

namespace Numeral

open CArray

section Digits

variable {base n k : ℕ} {ds es : List ℕ}

-- the most significant digit comes first, and only zero starts with a 0
structure Writes (base n : ℕ) (ds : List ℕ) : Prop where
  digits : ∀ d ∈ ds, d < base
  nonempty : ds ≠ []
  leading : ds.head? = some 0 → ds = [0]
  value : Nat.ofDigits base ds.reverse = n

def numeral (base n : ℕ) : List ℕ := if n = 0 then [0] else (Nat.digits base n).reverse

theorem writes_numeral (hbase : 1 < base) (n : ℕ) : Writes base n (numeral base n) := by
  rw [numeral]
  split
  · next hzero =>
    subst hzero
    refine ⟨fun d hd => ?_,List.cons_ne_nil _ _,fun _ => rfl,rfl⟩
    rw [List.mem_singleton.mp hd]
    omega
  · next hpos =>
    have hne : Nat.digits base n ≠ [] := Nat.digits_ne_nil_iff_ne_zero.mpr hpos
    refine ⟨fun d hd => Nat.digits_lt_base hbase (List.mem_reverse.mp hd),
      mt List.reverse_eq_nil_iff.mp hne,fun hlead => ?_,?_⟩
    · rw [List.head?_reverse,List.getLast?_eq_some_getLast hne,Option.some.injEq] at hlead
      exact absurd hlead (Nat.getLast_digit_ne_zero base hpos)
    · rw [List.reverse_reverse,Nat.ofDigits_digits]

theorem Writes.eq_numeral (hbase : 1 < base) (h : Writes base n ds) : ds = numeral base n := by
  have hvalue := h.value
  rw [numeral]
  by_cases hlead : ds.head? = some 0
  · rw [h.leading hlead] at hvalue ⊢
    have hzero : n = 0 := hvalue.symm
    rw [if_pos hzero]
  · have hdigits := Nat.digits_ofDigits base hbase ds.reverse
      (fun d hd => h.digits d (List.mem_reverse.mp hd)) fun hne hlast => by
        refine hlead ?_
        rw [← List.getLast?_reverse,List.getLast?_eq_some_getLast hne,hlast]
    have hpos : n ≠ 0 := by
      rintro rfl
      rw [hvalue,Nat.digits_zero] at hdigits
      exact h.nonempty (List.reverse_eq_nil_iff.mp hdigits.symm)
    rw [if_neg hpos,← hvalue,hdigits,List.reverse_reverse]

-- the digits in the order in which a loop that takes at least one turn finds them
theorem numeral_reverse (hbase : 1 < base) (n : ℕ) :
    (numeral base n).reverse = n % base :: Nat.digits base (n / base) := by
  rw [numeral]
  split
  · next hzero =>
    subst hzero
    rw [Nat.zero_mod,Nat.zero_div,Nat.digits_zero]
    rfl
  · next hpos =>
    rw [List.reverse_reverse,Nat.digits_def' hbase (Nat.pos_of_ne_zero hpos)]

theorem numeral_length_le (hbase : 1 < base) (hk : 1 ≤ k) :
    (numeral base n).length ≤ k ↔ n < base ^ k := by
  rw [numeral]
  split
  · next hzero =>
    subst hzero
    exact iff_of_true hk (Nat.pow_pos (by omega))
  · rw [List.length_reverse,Nat.digits_length_le_iff hbase]

end Digits

section Buffers

variable {α T : Type} {k : ℕ}

-- while (value > 0) {buffer[i++] = digit(value % base); value /= base;}
-- fuel is value or more, so that value is 0 when it is used up
def storeDigits (base : ℕ) (digit : ℕ → α) : ℕ → ℕ → ℕ → Vector α k → Option (ℕ × Vector α k)
  | 0,_,i,buffer => some (i,buffer)
  | fuel + 1,value,i,buffer =>
    if value > 0 then do
      let buffer ← set? buffer i (digit (value % base))
      storeDigits base digit fuel (value / base) (i + 1) buffer
    else some (i,buffer)

-- while (i > 0) putchar(buffer[--i]);
def printBack (putchar : α → T → Option T) (buffer : Vector α k) : ℕ → T → Option T
  | 0,t => some t
  | i + 1,t => do
    let c ← get? buffer i
    let t ← putchar c t
    printBack putchar buffer i t

def emit (putchar : α → T → Option T) (text : List α) (t : T) : Option T :=
  text.foldlM (fun t c => putchar c t) t

def collect (c : α) (text : List α) : Option (List α) := some (text ++ [c])

variable {base fuel value : ℕ} {digit : ℕ → α} {kept : List α} {buffer : Vector α k}

theorem storeDigits_zero (base : ℕ) (digit : ℕ → α) (fuel i : ℕ) (buffer : Vector α k) :
    storeDigits base digit fuel 0 i buffer = some (i,buffer) := by
  cases fuel <;> rfl

theorem storeDigits_done (hkept : kept <+: buffer.toList) :
    ∃ b, storeDigits base digit fuel 0 kept.length buffer =
        some (kept.length + (Nat.digits base 0).length,b) ∧
      kept ++ (Nat.digits base 0).map digit <+: b.toList := by
  rw [storeDigits_zero,Nat.digits_zero,List.map_nil,List.append_nil]
  exact ⟨buffer,rfl,hkept⟩

theorem storeDigits_fits (hbase : 1 < base) (hfuel : value ≤ fuel) (hkept : kept <+: buffer.toList)
    (hfits : kept.length + (Nat.digits base value).length ≤ k) :
    ∃ b, storeDigits base digit fuel value kept.length buffer =
        some (kept.length + (Nat.digits base value).length,b) ∧
      kept ++ (Nat.digits base value).map digit <+: b.toList := by
  induction fuel generalizing value kept buffer with
  | zero =>
    obtain rfl : value = 0 := Nat.le_zero.mp hfuel
    exact storeDigits_done hkept
  | succ fuel ih =>
    rcases Nat.eq_zero_or_pos value with rfl | hpos
    · exact storeDigits_done hkept
    · have hless : value / base ≤ fuel := by
        have hdiv := Nat.div_lt_self hpos hbase
        omega
      rw [Nat.digits_def' hbase hpos,List.length_cons] at hfits ⊢
      obtain ⟨b,hset,hnext⟩ := prefix_set hkept (by omega) (digit (value % base))
      have hlen : (kept ++ [digit (value % base)]).length = kept.length + 1 := List.length_append
      obtain ⟨c,hloop,hpre⟩ := ih hless hnext (by omega)
      refine ⟨c,?_,?_⟩
      · rw [storeDigits,if_pos hpos,hset]
        rw [hlen] at hloop
        rw [← Nat.add_assoc,Nat.add_right_comm,← hloop]
        rfl
      · rw [List.append_assoc] at hpre
        exact hpre

theorem emit_append (putchar : α → T → Option T) (text more : List α) (t : T) :
    emit putchar (text ++ more) t = (emit putchar text t).bind (emit putchar more) :=
  List.foldlM_append

theorem emit_singleton (putchar : α → T → Option T) (c : α) (t : T) :
    emit putchar [c] t = putchar c t := Option.bind_fun_some (putchar c t)

theorem emit_collect (text kept : List α) : emit collect text kept = some (kept ++ text) := by
  induction text generalizing kept with
  | nil => exact congrArg some (List.append_nil kept).symm
  | cons c text ih =>
    change emit collect text (kept ++ [c]) = _
    rw [ih,List.append_assoc,List.singleton_append]

theorem printBack_prefix (putchar : α → T → Option T) (hkept : kept <+: buffer.toList) (t : T) :
    printBack putchar buffer kept.length t = emit putchar kept.reverse t := by
  induction kept using List.reverseRecOn generalizing t with
  | nil => rfl
  | append_singleton kept c ih =>
    have hget := prefix_get? hkept
    rw [List.length_append,List.length_singleton,printBack,hget,List.reverse_append]
    change (putchar c t).bind _ = (putchar c t).bind _
    refine congrArg _ (funext fun u => ?_)
    exact ih ((List.prefix_append kept [c]).trans hkept) u

end Buffers

end Numeral
