import KluxOS.Lib.XorVector
import KluxOS.Security.Crypto

namespace KluxOS.Crypto

open CArray KernelState XorVector

section Hash

def shiftIn (a b : Uint8) : Uint8 := (a <<< 1) ||| (b >>> 7)

-- the last store reads data[0] as the loop has left it
def rotateHash (hash : Vector Uint8 32) : Option (Vector Uint8 32) := do
  let hash ← storeLoop (fun hash j => do
    let a ← get? hash j
    let b ← get? hash (j + 1)
    some (shiftIn a b)) (0 : ℕ) 31 hash
  let a ← get? hash 31
  let b ← get? hash 0
  set? hash 31 (shiftIn a b)

def hashByte (hash : Vector Uint8 32) (i : ℕ) (m : Uint8) : Option (Vector Uint8 32) := do
  let a ← get? hash (i % 32 : ℕ)
  let hash ← set? hash (i % 32 : ℕ) (a ^^^ m)
  if i % 8 = 7 then rotateHash hash else some hash

def hashLoop (data : List Uint8) : ℕ → ℕ → Vector Uint8 32 → Option (Vector Uint8 32)
  | 0,_,hash => some hash
  | n + 1,i,hash => do
    let m ← data[i]?
    let hash ← hashByte hash i m
    hashLoop data n (i + 1) hash

def cryptoSimpleHash (input : Option (List Uint8)) (length : Uint32)
    (hash : Option (Vector Uint8 32)) : Option (Option (Vector Uint8 32) × ℤ) :=
  match input,hash with
  | some data,some hash => do
    let hash ← storeLoop (fun _ _ => some 0#8) (0 : ℕ) 32 hash
    let hash ← hashLoop data length.toNat 0 hash
    some (some hash,0)
  | _,_ => some (hash,-1)

def cryptoHash (algorithm : Uint32) (input : Option (List Uint8)) (length : Uint32)
    (hash : Option (Vector Uint8 32)) (s : KernelState) :
    Option (KernelState × Option (Vector Uint8 32) × ℤ) :=
  if input = none ∨ hash = none then some (s,hash,-1)
  else
    let s := if algorithm = cryptoSha
      then s.print "WARNING: SHA not supported yet, using simple hash.\n".toList else s
    (cryptoSimpleHash input length hash).map fun r => (s,r)

end Hash

section Shift

theorem shiftIn_xor (a a' b b' : Uint8) :
    shiftIn (a ^^^ a') (b ^^^ b') = shiftIn a b ^^^ shiftIn a' b' := by
  refine BitVec.eq_of_getLsbD_eq fun i hi => ?_
  have hhigh (c : Uint8) (h : i ≠ 0) : c.getLsbD (7 + i) = false :=
    BitVec.getLsbD_of_ge c _ (by omega)
  simp only [shiftIn,BitVec.getLsbD_or,BitVec.getLsbD_xor,BitVec.getLsbD_shiftLeft,
    BitVec.getLsbD_ushiftRight]
  by_cases h : i = 0
  · subst h
    simp
  · rw [hhigh b h,hhigh b' h]
    simp only [Bool.bne_false,Bool.or_false]
    cases a.getLsbD (i - 1) <;> cases a'.getLsbD (i - 1) <;> simp

theorem shiftIn_eq_zero {a b : Uint8} (h : shiftIn a b = 0#8) :
    (a = 0#8 ∨ a = 0x80#8) ∧ (b = 0#8 ∨ b.msb = false) := by
  obtain ⟨ha,hb⟩ := BitVec.or_eq_zero_iff.mp h
  have hleft : ∀ a : Uint8, a <<< 1 = 0#8 → a = 0#8 ∨ a = 0x80#8 := by decide
  have hright : ∀ b : Uint8, b >>> 7 = 0#8 → b = 0#8 ∨ b.msb = false := by decide
  exact ⟨hleft a ha,hright b hb⟩

theorem shiftIn_top (a : Uint8) : shiftIn a 0x80#8 ≠ 0#8 := by
  intro h
  rcases (shiftIn_eq_zero h).2 with hb | hb <;> exact absurd hb (by decide)

end Shift

section Rotation

-- each byte takes the top bit of the next; the last takes that of the first one as shifted already
def rotated (d : Vector Uint8 32) : Vector Uint8 32 :=
  Vector.ofFn fun j =>
    if h : j.val < 31 then shiftIn (d.get j) (d.get ⟨j.val + 1,by omega⟩)
    else shiftIn (d.get 31) (shiftIn (d.get 0) (d.get 1))

def topBit : Vector Uint8 32 := single 0 0x80#8

variable (d x : Vector Uint8 32)

theorem rotated_get {j : Fin 32} (h : j.val < 31) :
    (rotated d).get j = shiftIn (d.get j) (d.get ⟨j.val + 1,by omega⟩) := by
  rw [rotated,get_ofFn,dif_pos h]

theorem rotated_last : (rotated d).get 31 = shiftIn (d.get 31) ((rotated d).get 0) := by
  rw [rotated_get d (j := 0) (by decide),rotated,get_ofFn,dif_neg (by decide)]
  rfl

theorem rotateHash_eq : rotateHash d = some (rotated d) := by
  obtain ⟨h,hh,hget⟩ := storeLoop_ahead (fun hash j => do
    let a ← get? hash j
    let b ← get? hash (j + 1)
    some (shiftIn a b)) (fun j => if h : j < 32 then (rotated d).get ⟨j,h⟩ else 0#8) 0 d 31
    (by decide) fun j hj b hb => by
      have hfirst := hb j (by omega)
      have hnext := hb (j + 1) (by omega)
      push_cast at hnext
      rw [get?_eq d (show j < 32 by omega) rfl] at hfirst
      rw [get?_eq d (show j + 1 < 32 by omega) (by push_cast; rfl)] at hnext
      simp only [hfirst,hnext,Option.bind_eq_bind,Option.bind_some]
      rw [dif_pos (by omega),rotated_get d (j := ⟨j,by omega⟩) hj]
  have hlast : get? h 31 = some (d.get 31) := by
    refine (hget 31).trans ?_
    rw [if_neg (by omega)]
    exact get?_eq d (by decide) rfl
  have hzero : get? h 0 = some ((rotated d).get 0) := by
    refine (hget 0).trans ?_
    rw [if_pos (by omega),dif_pos (by decide)]
    rfl
  rw [rotateHash,hh,Option.bind_eq_bind,Option.bind_some,hlast,hzero]
  refine (set?_eq h (shiftIn (d.get 31) ((rotated d).get 0)) (k := 31) (by decide) rfl).trans ?_
  refine congrArg some (ext_get? fun m hm => ?_)
  rw [get?_set,hget,get?_eq (rotated d) hm rfl,← rotated_last]
  by_cases hm31 : m = 31
  · subst hm31
    rw [if_pos rfl]
    rfl
  · rw [if_neg hm31,if_pos (by omega)]
    exact congrArg some (dif_pos (by omega))

theorem rotated_xor : rotated (xor d x) = xor (rotated d) (rotated x) := by
  have hbyte : ∀ j : Fin 32, j.val < 31 →
      (rotated (xor d x)).get j = (xor (rotated d) (rotated x)).get j := by
    intro j hj
    rw [xor_get,rotated_get d hj,rotated_get x hj,rotated_get (xor d x) hj,xor_get,xor_get,
      shiftIn_xor]
  refine ext_get fun j => ?_
  by_cases hj : j.val < 31
  · exact hbyte j hj
  · have hlast : j = 31 := Fin.ext (by omega)
    subst hlast
    rw [xor_get,rotated_last d,rotated_last x,rotated_last (xor d x),hbyte 0 (by decide),xor_get,
      xor_get,shiftIn_xor]

theorem rotated_zero : rotated zero = zero := by
  have hself := rotated_xor zero zero
  rw [(xor_eq_self zero zero).mpr rfl] at hself
  exact (xor_eq_self _ _).mp hself.symm

-- the top bit of the state is dropped: nothing takes it over
theorem rotated_topBit : rotated topBit = zero := by decide

variable {x}

theorem byte_of_rotated_zero (h : rotated x = zero) (j : Fin 32) :
    x.get j = 0#8 ∨ x.get j = 0x80#8 := by
  have hzero : (rotated x).get j = 0#8 := by rw [h,zero_get]
  by_cases hj : j.val < 31
  · rw [rotated_get x hj] at hzero
    exact (shiftIn_eq_zero hzero).1
  · have hlast : j = 31 := Fin.ext (by omega)
    subst hlast
    rw [rotated_last] at hzero
    exact (shiftIn_eq_zero hzero).1

-- a byte with its top bit set hands it to the byte before
theorem rest_of_rotated_zero (h : rotated x = zero) {j : Fin 32} (hj : j ≠ 0) :
    x.get j = 0#8 := by
  have hpos : j.val ≠ 0 := fun hzero => hj (Fin.ext hzero)
  have hnext : (⟨j.val - 1 + 1,by omega⟩ : Fin 32) = j := Fin.ext (by simp only; omega)
  have hzero : (rotated x).get ⟨j.val - 1,by omega⟩ = 0#8 := by rw [h,zero_get]
  rw [rotated_get x (by simp only; omega)] at hzero
  rcases byte_of_rotated_zero h j with hj0 | hj1
  · exact hj0
  · simp only [hnext,hj1] at hzero
    exact absurd hzero (shiftIn_top _)

theorem rotated_eq_zero : rotated x = zero ↔ x = zero ∨ x = topBit := by
  constructor
  · intro h
    rcases byte_of_rotated_zero h 0 with h0 | h0
    · refine .inl (ext_get fun j => ?_)
      rcases eq_or_ne j 0 with rfl | hj
      · rw [h0,zero_get]
      · rw [rest_of_rotated_zero h hj,zero_get]
    · refine .inr (ext_get fun j => ?_)
      rcases eq_or_ne j 0 with rfl | hj
      · rw [h0,topBit,single_get,if_pos rfl]
      · rw [rest_of_rotated_zero h hj,topBit,single_get,if_neg hj]
  · rintro (rfl | rfl)
    · exact rotated_zero
    · exact rotated_topBit

variable (x)

theorem rotated_ne_topBit : rotated x ≠ topBit := by
  intro h
  have hlast := rotated_last x
  rw [h,topBit,single_get,single_get,if_neg (by decide),if_pos rfl] at hlast
  exact shiftIn_top _ hlast.symm

end Rotation

section Digest

def turn (i : ℕ) (x : Vector Uint8 32) : Vector Uint8 32 := if i % 8 = 7 then rotated x else x

def absorb (d : Vector Uint8 32) (m : Uint8) (i : ℕ) : Vector Uint8 32 :=
  turn i (xor d (single ⟨i % 32,Nat.mod_lt i (by decide)⟩ m))

def absorbAll (d : Vector Uint8 32) (data : List Uint8) (i : ℕ) : Vector Uint8 32 :=
  (data.zipIdx i).foldl (fun d q => absorb d q.1 q.2) d

-- the bytes from i on, as far as they move a difference
def turns : ℕ → ℕ → Vector Uint8 32 → Vector Uint8 32
  | 0,_,x => x
  | n + 1,i,x => turns n (i + 1) (turn i x)

variable (d x : Vector Uint8 32)

theorem hashByte_eq (i : ℕ) (m : Uint8) : hashByte d i m = some (absorb d m i) := by
  have hi : i % 32 < 32 := Nat.mod_lt i (by decide)
  rw [hashByte,get?_eq d hi rfl,Option.bind_eq_bind,Option.bind_some,
    set?_eq d _ hi rfl,Option.bind_eq_bind,Option.bind_some,absorb,xor_single,turn]
  split
  · exact rotateHash_eq _
  · rfl

theorem hashLoop_eq (data : List Uint8) {n i : ℕ} (hn : i + n ≤ data.length) :
    hashLoop data n i d = some (absorbAll d ((data.drop i).take n) i) := by
  induction n generalizing i d with
  | zero => rfl
  | succ n ih =>
    have hi : i < data.length := by omega
    rw [hashLoop,List.getElem?_eq_getElem hi,Option.bind_eq_bind,Option.bind_some,hashByte_eq,
      Option.bind_eq_bind,Option.bind_some,ih _ (by omega),List.drop_eq_getElem_cons hi,
      List.take_succ_cons,absorbAll,absorbAll,List.zipIdx_cons,List.foldl_cons]

theorem turn_xor (i : ℕ) : turn i (xor d x) = xor (turn i d) (turn i x) := by
  rw [turn,turn,turn]
  split
  · exact rotated_xor d x
  · rfl

theorem absorb_xor (m : Uint8) (i : ℕ) : absorb (xor d x) m i = xor (absorb d m i) (turn i x) := by
  rw [absorb,xor_right_comm,turn_xor,absorb]

theorem absorbAll_xor (data : List Uint8) (i : ℕ) :
    absorbAll (xor d x) data i = xor (absorbAll d data i) (turns data.length i x) := by
  induction data generalizing d x i with
  | nil => rfl
  | cons m data ih =>
    simp only [absorbAll,List.zipIdx_cons,List.foldl_cons] at ih ⊢
    rw [absorb_xor,ih,List.length_cons,turns]

theorem turns_eq_zero (n i : ℕ) : turns n i x = zero ↔
    x = zero ∨ (x = topBit ∧ ∃ j, i ≤ j ∧ j < i + n ∧ j % 8 = 7) := by
  induction n generalizing x i with
  | zero =>
    refine ⟨.inl,fun h => h.resolve_right ?_⟩
    rintro ⟨-,j,hi,hj,-⟩
    omega
  | succ n ih =>
    rw [turns,ih,turn]
    split
    · next hturn =>
      rw [rotated_eq_zero,or_iff_left fun h => rotated_ne_topBit x h.1]
      exact or_congr_right (and_iff_left ⟨i,Nat.le_refl i,by omega,hturn⟩).symm
    · next hkeep =>
      refine or_congr_right (and_congr_right fun _ => exists_congr fun j => ?_)
      constructor
      · exact fun ⟨hi,hj,h7⟩ => ⟨by omega,by omega,h7⟩
      · rintro ⟨hi,hj,h7⟩
        have hne : i ≠ j := fun heq => hkeep (heq ▸ h7)
        exact ⟨by omega,by omega,h7⟩

def digestOf (data : List Uint8) : Vector Uint8 32 := absorbAll zero data 0

theorem clearHash_eq (hash : Vector Uint8 32) :
    storeLoop (fun _ _ => some 0#8) (0 : ℕ) 32 hash = some zero := by
  obtain ⟨b,hb,hget⟩ := storeLoop_fill 0#8 0 hash (k := 32) (by decide)
  rw [hb]
  refine congrArg some (ext_get? fun m hm => ?_)
  rw [hget,if_pos (by omega),get?_eq zero hm rfl,zero_get]

-- the digest of data, whatever the algorithm asked for
def Hashes (algorithm : Uint32) (data : List Uint8) (digest : Vector Uint8 32) : Prop :=
  ∀ hash s, ∃ t, cryptoHash algorithm (some data) (BitVec.ofNat 32 data.length) (some hash) s =
    some (t,some digest,0)

theorem cryptoHash_digest (algorithm : Uint32) {data : List Uint8} (hlen : data.length < 2 ^ 32) :
    Hashes algorithm data (digestOf data) := by
  intro hash s
  have hloop := hashLoop_eq zero data (n := data.length) (i := 0) (by omega)
  rw [List.drop_zero,List.take_length] at hloop
  have hsimple : cryptoSimpleHash (some data) (BitVec.ofNat 32 data.length) (some hash) =
      some (some (digestOf data),0) := by
    simp only [cryptoSimpleHash,clearHash_eq,BitVec.toNat_ofNat,Nat.mod_eq_of_lt hlen,hloop,
      Option.bind_eq_bind,Option.bind_some]
    rfl
  rw [cryptoHash,if_neg (by simp)]
  dsimp only
  rw [hsimple]
  exact ⟨_,rfl⟩

variable (before after : List Uint8) (b b' : Uint8)

theorem digestOf_split (b : Uint8) : digestOf (before ++ b :: after) =
    absorbAll (absorb (digestOf before) b before.length) after (before.length + 1) := by
  simp only [digestOf,absorbAll,List.zipIdx_append,List.foldl_append,List.zipIdx_cons,
    List.foldl_cons,Nat.zero_add]

theorem digestOf_changed : digestOf (before ++ b' :: after) = xor (digestOf (before ++ b :: after))
    (turns (after.length + 1) before.length
      (single ⟨before.length % 32,Nat.mod_lt _ (by decide)⟩ (b ^^^ b'))) := by
  have habsorb : absorb (digestOf before) b' before.length =
      xor (absorb (digestOf before) b before.length) (turn before.length
        (single ⟨before.length % 32,Nat.mod_lt _ (by decide)⟩ (b ^^^ b'))) := by
    have hbyte : b' = b ^^^ (b ^^^ b') := by
      rw [← BitVec.xor_assoc,BitVec.xor_self,BitVec.zero_xor]
    rw [absorb,absorb,← turn_xor,xor_assoc,single_xor,← hbyte]
  rw [digestOf_split,digestOf_split,habsorb,absorbAll_xor,turns]

theorem digestOf_eq_iff (hne : b ≠ b') :
    digestOf (before ++ b' :: after) = digestOf (before ++ b :: after) ↔
      before.length % 32 = 0 ∧ b ^^^ b' = 0x80#8 ∧ 7 ≤ after.length := by
  have hbyte : b ^^^ b' ≠ 0#8 := fun hzero => hne (BitVec.xor_eq_zero_iff.mp hzero)
  rw [digestOf_changed before after b b',xor_eq_self,turns_eq_zero,single_eq_zero,
    or_iff_right hbyte,topBit,single_eq_single _ _ _ _ hbyte,and_assoc,Fin.ext_iff]
  refine and_congr_right fun hfirst => and_congr_right fun _ => ?_
  have hfirst' : before.length % 32 = 0 := hfirst
  constructor
  · rintro ⟨j,hi,hj,h7⟩
    omega
  · exact fun hlong => ⟨before.length + 7,by omega,by omega,by omega⟩

end Digest

theorem hash_sees_every_byte (algorithm : Uint32) (before after : List Uint8) (b b' : Uint8)
    (hne : b ≠ b') (hlen : before.length + after.length + 1 < 2 ^ 32) : ∃ digest digest',
    Hashes algorithm (before ++ b :: after) digest ∧
      Hashes algorithm (before ++ b' :: after) digest' ∧
      (digest ≠ digest' ↔
        ¬ (before.length % 32 = 0 ∧ b ^^^ b' = 0x80#8 ∧ 7 ≤ after.length)) := by
  refine ⟨_,_,cryptoHash_digest algorithm ?_,cryptoHash_digest algorithm ?_,?_⟩
  · rw [List.length_append,List.length_cons]
    omega
  · rw [List.length_append,List.length_cons]
    omega
  · rw [ne_comm]
    exact not_congr (digestOf_eq_iff before after b b' hne)

-- the top bit of the fifth byte, which a rotation moves to the fourth
theorem hash_sees_top_bit : ∃ digest digest',
    Hashes cryptoSha (List.replicate 4 0xFF#8 ++ 0x80#8 :: List.replicate 8 1#8) digest ∧
    Hashes cryptoSha (List.replicate 4 0xFF#8 ++ 0#8 :: List.replicate 8 1#8) digest' ∧
    digest ≠ digest' := by
  obtain ⟨digest,digest',h,h',hiff⟩ := hash_sees_every_byte cryptoSha (List.replicate 4 0xFF#8)
    (List.replicate 8 1#8) 0x80#8 0#8 (by decide) (by decide)
  exact ⟨digest,digest',h,h',hiff.mpr (by decide)⟩

-- eight bytes: the first rotation drops the top bit of the first
theorem top_bit_unseen : ∃ digest, Hashes cryptoSha (0x80#8 :: List.replicate 7 0#8) digest ∧
    Hashes cryptoSha (0#8 :: List.replicate 7 0#8) digest := by
  refine ⟨_,cryptoHash_digest cryptoSha (by decide),?_⟩
  have heq := (digestOf_eq_iff [] (List.replicate 7 0#8) 0x80#8 0#8 (by decide)).mpr (by decide)
  rw [List.nil_append,List.nil_append] at heq
  rw [← heq]
  exact cryptoHash_digest cryptoSha (by decide)

end KluxOS.Crypto
