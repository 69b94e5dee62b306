import Mathlib.Data.Nat.Digits.Lemmas
import KluxOS.Lib.ByteSequence

namespace ByteOrder

open ByteSequence

variable {bs cs : List (BitVec 8)}

def littleEndian (bs : List (BitVec 8)) : ℕ := Nat.ofDigits 256 (bs.map BitVec.toNat)

def bigEndian (bs : List (BitVec 8)) : ℕ := littleEndian bs.reverse

theorem digit_lt {d : ℕ} (h : d ∈ bs.map BitVec.toNat) : d < 256 := by
  obtain ⟨b,-,rfl⟩ := List.mem_map.mp h
  exact b.isLt

theorem littleEndian_lt (bs : List (BitVec 8)) : littleEndian bs < 256 ^ bs.length := by
  have hlt := Nat.ofDigits_lt_base_pow_length (by decide)
    fun d (h : d ∈ bs.map BitVec.toNat) => digit_lt h
  rwa [List.length_map] at hlt

theorem littleEndian_inj (h : bs.length = cs.length) :
    littleEndian bs = littleEndian cs ↔ bs = cs := by
  constructor
  · intro heq
    have hmap := Nat.ofDigits_inj_of_len_eq (by decide) (by simpa using h)
      (fun _ hd => digit_lt hd) (fun _ hd => digit_lt hd) heq
    exact List.map_injective_iff.mpr (fun _ _ => BitVec.eq_of_toNat_eq) hmap
  · rintro rfl
    rfl

theorem littleEndian_eq_bigEndian (h : bs.length = cs.length) :
    littleEndian bs = bigEndian cs ↔ bs = cs.reverse :=
  littleEndian_inj (h.trans List.length_reverse.symm)

theorem append_halves {m n : ℕ} (w : BitVec (m + n)) :
    (w >>> n).setWidth m ++ w.setWidth n = w := by
  refine BitVec.eq_of_getLsbD_eq fun i hi => ?_
  rw [BitVec.getLsbD_append]
  by_cases hlow : i < n
  · simp [hlow]
  · have hroom : i - n < m := by omega
    have hback : n + (i - n) = i := by omega
    simp [hlow,hroom,hback]

-- the n bytes from off on; none when one of them is past the end
def readAt {α : Type} (data : List α) (off n : ℕ) : Option (List α) :=
  if off + n ≤ data.length then some (slice data off n) else none

end ByteOrder
