import KluxOS.Security.Hash

namespace KluxOS.Crypto

open CArray XorVector

def xorMessages (x y : List Uint8) : List Uint8 := List.zipWith (· ^^^ ·) x y

section Linear

variable (d e : Vector Uint8 32)

theorem absorbAll_nil (i : ℕ) : absorbAll d [] i = d := rfl

theorem absorbAll_cons (m : Uint8) (x : List Uint8) (i : ℕ) :
    absorbAll d (m :: x) i = absorbAll (absorb d m i) x (i + 1) := by
  rw [absorbAll,List.zipIdx_cons,List.foldl_cons,absorbAll]

theorem absorbAll_append (x y : List Uint8) (i : ℕ) :
    absorbAll d (x ++ y) i = absorbAll (absorbAll d x i) y (i + x.length) := by
  rw [absorbAll,List.zipIdx_append,List.foldl_append,absorbAll,absorbAll]

theorem absorb_both (m m' : Uint8) (i : ℕ) :
    absorb (xor d e) (m ^^^ m') i = xor (absorb d m i) (absorb e m' i) := by
  rw [absorb,absorb,absorb,← turn_xor,← single_xor,xor_assoc,xor_assoc,
    ← xor_assoc e,xor_comm e,xor_assoc]

theorem absorbAll_both {x y : List Uint8} (h : x.length = y.length) (i : ℕ) :
    absorbAll (xor d e) (xorMessages x y) i = xor (absorbAll d x i) (absorbAll e y i) := by
  induction x generalizing y d e i with
  | nil =>
    obtain rfl := List.length_eq_zero_iff.mp h.symm
    rfl
  | cons m x ih =>
    cases y with
    | nil => cases h
    | cons m' y =>
      rw [xorMessages,List.zipWith_cons_cons,absorbAll_cons,absorbAll_cons,absorbAll_cons,
        absorb_both]
      exact ih _ _ (Nat.succ.inj h) (i + 1)

theorem digestOf_xor {x y : List Uint8} (h : x.length = y.length) :
    digestOf (xorMessages x y) = xor (digestOf x) (digestOf y) := by
  have hboth := absorbAll_both zero zero h 0
  rwa [xor_same] at hboth

end Linear

section Cancelling

-- byte j, and what it has handed to the one before it
def spread (j : ℕ) (a b : Uint8) : Vector Uint8 32 :=
  Vector.ofFn fun i => if i.val = j then b else if i.val + 1 = j then a else 0#8

theorem spread_get (j : ℕ) (a b : Uint8) (i : Fin 32) :
    (spread j a b).get i = if i.val = j then b else if i.val + 1 = j then a else 0#8 :=
  get_ofFn _ i

theorem spread_start {j : ℕ} (hj : j < 32) (b : Uint8) : spread j 0#8 b = single ⟨j,hj⟩ b := by
  refine ext_get fun i => ?_
  rw [spread_get,single_get,ite_self]
  exact if_congr (Fin.ext_iff (a := i) (b := ⟨j,hj⟩)).symm rfl rfl

theorem spread_end {j : ℕ} (hj : j + 1 < 32) (a b : Uint8) :
    xor (xor (spread (j + 1) a b) (single ⟨j,by omega⟩ a)) (single ⟨j + 1,hj⟩ b) = zero := by
  refine ext_get fun i => ?_
  rw [xor_get,xor_get,spread_get,single_get,single_get,zero_get]
  simp only [Fin.ext_iff]
  by_cases hlast : i.val = j + 1
  · rw [if_pos hlast,if_neg (by omega),if_pos hlast,BitVec.xor_zero,BitVec.xor_self]
  · by_cases hfirst : i.val = j
    · rw [if_neg hlast,if_pos (by omega),if_pos hfirst,if_neg hlast,BitVec.xor_self,BitVec.xor_zero]
    · rw [if_neg hlast,if_neg (by omega),if_neg hfirst,if_neg hlast,BitVec.xor_zero,BitVec.xor_zero]

theorem shiftIn_low (a : Uint8) {c : Uint8} (h : c < 0x80#8) : shiftIn a c = a <<< 1 := by
  have hdrop : ∀ c : Uint8, c < 0x80#8 → c >>> 7 = 0#8 := by decide
  rw [shiftIn,hdrop c h,BitVec.or_zero]

theorem shiftIn_room {a : Uint8} (ha : a < 0x40#8) (b : Uint8) : shiftIn a b < 0x80#8 := by
  have hleft : ∀ a : Uint8, a < 0x40#8 → (a <<< 1).toNat < 2 ^ 7 := by decide
  have hright : ∀ b : Uint8, (b >>> 7).toNat < 2 ^ 7 := by decide
  rw [BitVec.lt_def,shiftIn,BitVec.toNat_or]
  exact Nat.or_lt_two_pow (hleft a ha) (hright b)

theorem spread_before (j : ℕ) {a : Uint8} (ha : a < 0x80#8) (b : Uint8) {i : Fin 32}
    (h : i.val ≠ j) : (spread j a b).get i < 0x80#8 := by
  rw [spread_get,if_neg h]
  split
  · exact ha
  · decide

theorem rotated_spread {j : ℕ} (hj : 0 < j) (hend : j < 32) {a : Uint8} (ha : a < 0x40#8) (b : Uint8) :
    rotated (spread j a b) = spread j (shiftIn a b) (b <<< 1) := by
  have hlow : a < 0x80#8 := BitVec.lt_trans ha (by decide)
  have hbyte : ∀ i : Fin 32, i.val < 31 →
      (rotated (spread j a b)).get i = (spread j (shiftIn a b) (b <<< 1)).get i := by
    intro i hi
    rw [rotated_get _ hi]
    by_cases hnext : i.val + 1 = j
    · rw [spread_get,spread_get,spread_get,if_neg (by omega),if_pos hnext,if_pos hnext,
        if_neg (by omega),if_pos hnext]
    · rw [shiftIn_low _ (spread_before j hlow b hnext),spread_get,spread_get,if_neg hnext,
        if_neg hnext]
      split <;> rfl
  refine ext_get fun i => ?_
  by_cases hi : i.val < 31
  · exact hbyte i hi
  · have hlast : i = 31 := Fin.ext (by omega)
    have hfirst : (rotated (spread j a b)).get 0 < 0x80#8 := by
      rw [hbyte 0 (by decide)]
      exact spread_before j (shiftIn_room ha b) _ (by simp only [Fin.val_zero]; omega)
    rw [hlast,rotated_last,shiftIn_low _ hfirst,spread_get,spread_get]
    have hbeyond : ¬ (31 : Fin 32).val + 1 = j := Nat.ne_of_gt hend
    by_cases hself : (31 : Fin 32).val = j
    · rw [if_pos hself,if_pos hself]
    · rw [if_neg hself,if_neg hself,if_neg hbeyond,if_neg hbeyond]
      rfl

theorem turns_iterate (n i : ℕ) (x : Vector Uint8 32) :
    turns n i x = rotated^[(i + n) / 8 - i / 8] x := by
  induction n generalizing i x with
  | zero => rw [Nat.add_zero,Nat.sub_self]; rfl
  | succ n ih =>
    rw [turns,ih,turn]
    split
    · next hturn =>
      have hcount : (i + (n + 1)) / 8 - i / 8 = ((i + 1 + n) / 8 - (i + 1) / 8) + 1 := by omega
      rw [hcount,Function.iterate_succ_apply]
    · next hkeep =>
      have hcount : (i + (n + 1)) / 8 - i / 8 = (i + 1 + n) / 8 - (i + 1) / 8 := by omega
      rw [hcount]

theorem spread_iterate {j : ℕ} (hj : 0 < j) (hend : j < 32) (v : Uint8) {n : ℕ} (hn : n ≤ 4) :
    rotated^[n] (spread j 0#8 v) = spread j (v >>> (8 - n)) (v <<< n) := by
  induction n with
  | zero =>
    have hempty : v >>> 8 = 0#8 := by
      revert v
      decide
    rw [Function.iterate_zero_apply,Nat.sub_zero,hempty,BitVec.shiftLeft_zero]
  | succ n ih =>
    have hbits : ∀ v : Uint8, ∀ n < 4, v >>> (8 - n) < 0x40#8 ∧
        shiftIn (v >>> (8 - n)) (v <<< n) = v >>> (8 - (n + 1)) ∧
        v <<< n <<< 1 = v <<< (n + 1) := by decide +kernel
    obtain ⟨hroom,hhigh,hlow⟩ := hbits v n (by omega)
    rw [Function.iterate_succ_apply',ih (by omega),rotated_spread hj hend hroom,hhigh,hlow]

theorem turns_zero (n i : ℕ) : turns n i zero = zero := (turns_eq_zero zero n i).mpr (.inl rfl)

theorem absorbAll_zeros (d : Vector Uint8 32) (n i : ℕ) :
    absorbAll d (List.replicate n 0#8) i = turns n i d := by
  induction n generalizing d i with
  | zero => rfl
  | succ n ih =>
    have hsame : absorb d 0#8 i = turn i d := by
      rw [absorb,(single_eq_zero _ _).mpr rfl,(xor_eq_self d zero).mpr rfl]
    rw [List.replicate_succ,absorbAll_cons,hsame,ih,turns]

-- between byte k and byte k + 31 the state turns four times, if byte k does not open a group
theorem difference_cancelled {k : ℕ} (hk : k % 8 ≠ 0) (v : Uint8) :
    absorb (absorb (turns 30 (k + 1) (absorb zero v k)) (v >>> 4) (k + 31)) (v <<< 4) (k + 32) =
      zero := by
  obtain ⟨j,hj⟩ : ∃ j, k % 32 = j + 1 := ⟨k % 32 - 1,by omega⟩
  have hstart : turns 30 (k + 1) (absorb zero v k) = turns 31 k (spread (j + 1) 0#8 v) := by
    have hcell : (⟨k % 32,Nat.mod_lt k (by decide)⟩ : Fin 32) = ⟨j + 1,by omega⟩ := Fin.ext hj
    rw [absorb,spread_start (by omega),hcell,XorVector.xor_comm,(xor_eq_self _ zero).mpr rfl]
    rfl
  have hfour : (k + 31) / 8 - k / 8 = 4 := by omega
  have hopen : (⟨(k + 31) % 32,Nat.mod_lt _ (by decide)⟩ : Fin 32) = ⟨j,by omega⟩ :=
    Fin.ext (by simp only; omega)
  have hclose : (⟨(k + 32) % 32,Nat.mod_lt _ (by decide)⟩ : Fin 32) = ⟨j + 1,by omega⟩ :=
    Fin.ext (by simp only; omega)
  have hbetween : ∀ x, turn (k + 31) x = x := fun _ => if_neg (by omega)
  rw [hstart,turns_iterate,hfour,spread_iterate (by omega) (by omega) v le_rfl,absorb,absorb,
    hbetween,hopen,hclose,spread_end,turn,rotated_zero,ite_self]

theorem digestOf_cancelled {k : ℕ} (hk : k % 8 ≠ 0) (v : Uint8) (n : ℕ) :
    digestOf (List.replicate k 0#8 ++ v :: (List.replicate 30 0#8 ++
      v >>> 4 :: v <<< 4 :: List.replicate n 0#8)) = zero := by
  rw [digestOf,absorbAll_append,absorbAll_zeros,turns_zero,List.length_replicate,Nat.zero_add,
    absorbAll_cons,absorbAll_append,absorbAll_zeros,absorbAll_cons,absorbAll_cons,absorbAll_zeros,
    List.length_replicate,difference_cancelled hk,turns_zero]

end Cancelling

section Messages

variable (before middle after : List Uint8) (b b₁ b₂ v : Uint8)

def around : List Uint8 := before ++ b :: (middle ++ b₁ :: b₂ :: after)

theorem xorMessages_around : xorMessages (around before middle after b b₁ b₂)
    (around (List.replicate before.length 0#8) (List.replicate middle.length 0#8)
      (List.replicate after.length 0#8) v (v >>> 4) (v <<< 4)) =
    around before middle after (b ^^^ v) (b₁ ^^^ v >>> 4) (b₂ ^^^ v <<< 4) := by
  have hzeros : ∀ x : List Uint8, List.zipWith (· ^^^ ·) x (List.replicate x.length 0#8) = x := by
    intro x
    induction x with
    | nil => rfl
    | cons m x ih =>
      rw [List.length_cons,List.replicate_succ,List.zipWith_cons_cons,ih,BitVec.xor_zero]
  rw [xorMessages,around,around,List.zipWith_append (by rw [List.length_replicate]),
    List.zipWith_cons_cons,List.zipWith_append (by rw [List.length_replicate]),
    List.zipWith_cons_cons,List.zipWith_cons_cons,hzeros,hzeros,hzeros]
  rfl

theorem digestOf_around (hopen : before.length % 8 ≠ 0) (hmiddle : middle.length = 30) :
    digestOf (around before middle after (b ^^^ v) (b₁ ^^^ v >>> 4) (b₂ ^^^ v <<< 4)) =
      digestOf (around before middle after b b₁ b₂) := by
  have hzero := digestOf_cancelled hopen v after.length
  rw [← xorMessages_around,digestOf_xor (by simp only [around,List.length_append,List.length_cons,
    List.length_replicate])]
  rw [hmiddle]
  exact (xor_eq_self _ _).mpr hzero

end Messages

theorem Hashes.unique {algorithm : Uint32} {data : List Uint8} {digest digest' : Vector Uint8 32}
    (h : Hashes algorithm data digest) (h' : Hashes algorithm data digest') : digest = digest' := by
  obtain ⟨t,ht⟩ := h zero .boot
  obtain ⟨t',ht'⟩ := h' zero .boot
  cases ht.symm.trans ht'
  rfl

theorem hash_linear (algorithm : Uint32) (x y : List Uint8) (hxy : x.length = y.length)
    (hlen : x.length < 2 ^ 32) : ∃ digest digest',
      Hashes algorithm x digest ∧ Hashes algorithm y digest' ∧
      Hashes algorithm (xorMessages x y) (xor digest digest') ∧
      (digest = digest' ↔ Hashes algorithm (xorMessages x y) zero) := by
  have hlength : (xorMessages x y).length = x.length := by
    rw [xorMessages,List.length_zipWith,← hxy,Nat.min_self]
  have hmixed : Hashes algorithm (xorMessages x y) (xor (digestOf x) (digestOf y)) :=
    digestOf_xor hxy ▸ cryptoHash_digest algorithm (by omega)
  refine ⟨_,_,cryptoHash_digest algorithm hlen,cryptoHash_digest algorithm (by omega),hmixed,?_⟩
  rw [← xor_eq_zero]
  constructor
  · intro h
    rwa [h] at hmixed
  · exact fun h => hmixed.unique h

theorem hash_linear_two_bytes : ∃ digest digest', Hashes cryptoSha [1#8,2#8] digest ∧
    Hashes cryptoSha [1#8,3#8] digest' ∧ Hashes cryptoSha [0#8,1#8] (xor digest digest') := by
  obtain ⟨digest,digest',h,h',hmixed,-⟩ :=
    hash_linear cryptoSha [1#8,2#8] [1#8,3#8] rfl (by decide)
  exact ⟨digest,digest',h,h',hmixed⟩

-- every message with a byte that opens no group of eight and has 32 bytes after it
theorem hash_collides (algorithm : Uint32) (before middle after : List Uint8) (b b₁ b₂ v : Uint8)
    (hopen : before.length % 8 ≠ 0) (hmiddle : middle.length = 30)
    (hlen : before.length + after.length + 33 < 2 ^ 32) : ∃ digest,
      Hashes algorithm (around before middle after b b₁ b₂) digest ∧
      Hashes algorithm (around before middle after (b ^^^ v) (b₁ ^^^ v >>> 4) (b₂ ^^^ v <<< 4))
        digest := by
  have hfits : ∀ b b₁ b₂, (around before middle after b b₁ b₂).length < 2 ^ 32 := by
    intro b b₁ b₂
    simp only [around,List.length_append,List.length_cons,hmiddle]
    omega
  refine ⟨_,cryptoHash_digest algorithm (hfits b b₁ b₂),?_⟩
  rw [← digestOf_around before middle after b b₁ b₂ v hopen hmiddle]
  exact cryptoHash_digest algorithm (hfits _ _ _)

-- 34 zero bytes, and the same with bytes 1 and 33 changed
theorem hash_collides_zeros : ∃ digest,
    Hashes cryptoSha (around [0#8] (List.replicate 30 0#8) [] 0#8 0#8 0#8) digest ∧
    Hashes cryptoSha (around [0#8] (List.replicate 30 0#8) [] 1#8 0#8 16#8) digest :=
  hash_collides cryptoSha [0#8] (List.replicate 30 0#8) [] 0#8 0#8 0#8 1#8 (by decide)
    List.length_replicate (by decide)

end KluxOS.Crypto
