import KluxOS.Security.CbcInPlace
import KluxOS.Security.Encryption

namespace KluxOS.Aes

open ByteMemory BufferMap

section Pieces

-- the two modes differ in their step alone
def cbcCall (step : ℕ → ℕ → Mem × Block → ℕ → Option (Mem × Block)) (iv input output : ℕ)
    (length : Uint32) (mem : Mem) : Option (ℤ × Mem) :=
  if iv = 0 ∨ input = 0 ∨ output = 0 then some (-1,mem)
  else if length.toNat % 16 ≠ 0 then some (-2,mem)
  else do
    let s ← (List.range (length.toNat / 16)).foldlM (step input output) (mem,load mem iv)
    return (0,s.1)

-- a message given in pieces: each call has the last cipher block before it as its iv
def inPieces (call : ℕ → ℕ → ℕ → Uint32 → Mem → Option (ℤ × Mem)) (cipher : ℕ → ℕ → ℕ) :
    ℕ → ℕ → ℕ → List Uint32 → Mem → Option (ℤ × Mem)
  | _,_,_,[],mem => some (0,mem)
  | iv,input,output,length :: lengths,mem => do
    let (r,mem) ← call iv input output length mem
    if r ≠ 0 then return (r,mem)
    else
      let next := length.toNat
      inPieces call cipher (cipher input output + next - 16) (input + next) (output + next)
        lengths mem

def total (lengths : List Uint32) : ℕ := (lengths.map BitVec.toNat).sum

-- what a step leaves as the chaining value is the cipher block in memory
structure Chained (step : ℕ → ℕ → Mem × Block → ℕ → Option (Mem × Block))
    (cipher : ℕ → ℕ → ℕ) : Prop where
  shift : ∀ input output s n k, step (input + 16 * n) (output + 16 * n) s k =
    step input output s (n + k)
  cipher_ne : ∀ input output, input ≠ 0 → output ≠ 0 → cipher input output ≠ 0
  last : ∀ input output s t k, step input output s k = some t →
    t.2 = load t.1 (cipher input output + 16 * k)

theorem encrypt_chained (ctx : AesContext) :
    Chained (cbcEncryptStep ctx) fun _ output => output where
  shift := fun input output s n k => by
    simp only [cbcEncryptStep,Nat.add_assoc,Nat.mul_add]
  cipher_ne := fun _ _ _ h => h
  last := fun input output s t k ht => by
    obtain ⟨o,-,ht⟩ := Option.bind_eq_some_iff.mp ht
    cases ht
    rfl

theorem decrypt_chained (ctx : AesContext) :
    Chained (cbcDecryptStep ctx) fun input _ => input where
  shift := fun input output s n k => by
    simp only [cbcDecryptStep,Nat.add_assoc,Nat.mul_add]
  cipher_ne := fun _ _ h _ => h
  last := fun input output s t k ht => by
    obtain ⟨o,-,ht⟩ := Option.bind_eq_some_iff.mp ht
    cases ht
    rfl

variable {step : ℕ → ℕ → Mem × Block → ℕ → Option (Mem × Block)} {cipher : ℕ → ℕ → ℕ}
  {iv input output : ℕ} {mem : Mem}

theorem range_split {σ : Type} (f : σ → ℕ → Option σ) (n m : ℕ) (s : σ) :
    (List.range (n + m)).foldlM f s = ((List.range n).foldlM f s).bind fun t =>
      (List.range m).foldlM (fun t k => f t (n + k)) t := by
  rw [List.range_add,List.foldlM_append]
  exact Option.bind_congr fun t _ => List.foldlM_map

theorem Chained.loop_last (h : Chained step cipher) {n : ℕ} {s t : Mem × Block}
    (ht : (List.range (n + 1)).foldlM (step input output) s = some t) :
    t.2 = load t.1 (cipher input output + 16 * n) := by
  rw [List.range_succ,List.foldlM_append] at ht
  obtain ⟨u,-,ht⟩ := Option.bind_eq_some_iff.mp ht
  rw [List.foldlM_cons] at ht
  obtain ⟨v,hv,ht⟩ := Option.bind_eq_some_iff.mp ht
  cases ht
  exact h.last _ _ _ _ _ hv

theorem Chained.piece (h : Chained step cipher) {length rest : Uint32}
    (hptr : iv ≠ 0 ∧ input ≠ 0 ∧ output ≠ 0) (hpos : 0 < length.toNat)
    (hlength : length.toNat % 16 = 0) (hrest : rest.toNat % 16 = 0)
    (hfits : length.toNat + rest.toNat < 2 ^ 32) :
    (cbcCall step iv input output length mem).bind (fun r => cbcCall step
        (cipher input output + length.toNat - 16) (input + length.toNat) (output + length.toNat)
        rest r.2) =
      cbcCall step iv input output (length + rest) mem := by
  have hcipher := h.cipher_ne input output hptr.2.1 hptr.2.2
  obtain ⟨n,hn⟩ : ∃ n, length.toNat = 16 * (n + 1) := ⟨length.toNat / 16 - 1,by omega⟩
  have hsum : (length + rest).toNat = length.toNat + rest.toNat := by
    rw [BitVec.toNat_add,Nat.mod_eq_of_lt hfits]
  have hblocks : (length + rest).toNat / 16 = (n + 1) + rest.toNat / 16 := by omega
  have hfirst : length.toNat / 16 = n + 1 := by omega
  rw [cbcCall,if_neg (by omega),if_neg (by omega),cbcCall,if_neg (by omega),if_neg (by omega),
    hblocks,hfirst,range_split _ (n + 1) (rest.toNat / 16),Option.bind_eq_bind,
    Option.bind_assoc,Option.bind_assoc]
  refine Option.bind_congr fun t ht => ?_
  have hiv : cipher input output + length.toNat - 16 = cipher input output + 16 * n := by omega
  have hshift : step (input + length.toNat) (output + length.toNat) =
      fun s k => step input output s (n + 1 + k) := funext fun s => funext fun k => by
    rw [hn,h.shift]
  rw [Option.pure_def,Option.bind_some,cbcCall,if_neg (by omega),if_neg (by omega),hiv,
    ← h.loop_last ht,hshift]
  rfl

theorem cbcCall_zero {length : Uint32} {r : ℤ} {mem' : Mem}
    (hptr : iv ≠ 0 ∧ input ≠ 0 ∧ output ≠ 0) (hlength : length.toNat % 16 = 0)
    (h : cbcCall step iv input output length mem = some (r,mem')) : r = 0 := by
  rw [cbcCall,if_neg (by omega),if_neg (by omega)] at h
  obtain ⟨s,-,h⟩ := Option.bind_eq_some_iff.mp h
  cases h
  rfl

theorem total_mod {lengths : List Uint32} (h : ∀ length ∈ lengths, length.toNat % 16 = 0) :
    total lengths % 16 = 0 := by
  induction lengths with
  | nil => rfl
  | cons length lengths ih =>
    have hfirst := h length List.mem_cons_self
    have hrest := ih fun l hl => h l (List.mem_cons_of_mem length hl)
    rw [total,List.map_cons,List.sum_cons] at *
    omega

theorem Chained.pieces (h : Chained step cipher) {lengths : List Uint32}
    (hptr : iv ≠ 0 ∧ input ≠ 0 ∧ output ≠ 0)
    (hlengths : ∀ length ∈ lengths, 0 < length.toNat ∧ length.toNat % 16 = 0)
    (hfits : total lengths < 2 ^ 32) :
    inPieces (cbcCall step) cipher iv input output lengths mem =
      cbcCall step iv input output (BitVec.ofNat 32 (total lengths)) mem := by
  induction lengths generalizing iv input output mem with
  | nil =>
    rw [inPieces,cbcCall,if_neg (by omega),if_neg (by decide)]
    rfl
  | cons length lengths ih =>
    obtain ⟨hpos,hmod⟩ := hlengths length List.mem_cons_self
    have hrest : ∀ l ∈ lengths, 0 < l.toNat ∧ l.toNat % 16 = 0 :=
      fun l hl => hlengths l (List.mem_cons_of_mem length hl)
    have hcipher := h.cipher_ne input output hptr.2.1 hptr.2.2
    have hsum : total (length :: lengths) = length.toNat + total lengths := List.sum_cons
    have hlast : (BitVec.ofNat 32 (total lengths)).toNat = total lengths :=
      Nat.mod_eq_of_lt (by omega)
    rw [hsum,BitVec.ofNat_add,BitVec.ofNat_toNat,BitVec.setWidth_eq,← h.piece hptr hpos hmod
      (by rw [hlast]; exact total_mod fun l hl => (hrest l hl).2) (by rw [hlast]; omega),inPieces]
    refine Option.bind_congr fun r hr => ?_
    obtain ⟨r,mem'⟩ := r
    have hzero := cbcCall_zero hptr hmod hr
    dsimp only
    rw [if_neg (not_not.mpr hzero)]
    exact ih (by omega) hrest (by omega)

theorem encrypt_call (ctx : AesContext) :
    aesEncryptCbc (some ctx) = cbcCall (cbcEncryptStep ctx) := rfl

theorem decrypt_call (ctx : AesContext) :
    aesDecryptCbc (some ctx) = cbcCall (cbcDecryptStep ctx) := rfl

end Pieces

-- whatever the buffers share
theorem cbc_in_pieces (ctx : AesContext) (iv input output : ℕ) (lengths : List Uint32) (mem : Mem)
    (hptr : iv ≠ 0 ∧ input ≠ 0 ∧ output ≠ 0)
    (hlengths : ∀ length ∈ lengths, 0 < length.toNat ∧ length.toNat % 16 = 0)
    (hfits : total lengths < 2 ^ 32) :
    inPieces (aesEncryptCbc (some ctx)) (fun _ output => output) iv input output lengths mem =
        aesEncryptCbc (some ctx) iv input output (BitVec.ofNat 32 (total lengths)) mem ∧
      inPieces (aesDecryptCbc (some ctx)) (fun input _ => input) iv input output lengths mem =
        aesDecryptCbc (some ctx) iv input output (BitVec.ofNat 32 (total lengths)) mem := by
  rw [encrypt_call,decrypt_call]
  exact ⟨(encrypt_chained ctx).pieces hptr hlengths hfits,
    (decrypt_chained ctx).pieces hptr hlengths hfits⟩

theorem cbc_in_pieces_three_blocks :
    inPieces (aesEncryptCbc (some ⟨Vector.replicate 240 0#8,10⟩)) (fun _ output => output) 16 64 64
        [16#32,32#32] (fun x => BitVec.ofNat 8 x) =
      aesEncryptCbc (some ⟨Vector.replicate 240 0#8,10⟩) 16 64 64 48#32 fun x => BitVec.ofNat 8 x :=
  (cbc_in_pieces ⟨Vector.replicate 240 0#8,10⟩ 16 64 64 [16#32,32#32] (fun x => BitVec.ofNat 8 x)
    (by decide) (by simp) (by rw [total]; decide)).1

section Compare

def blockAt (mem : Mem) (base k : ℕ) : Block := load mem (base + 16 * k)

-- the chaining value of cipher block k
def chainAt (mem : Mem) (iv cipher k : ℕ) : Block := Cbc.previous (load mem iv) (blockAt mem cipher) k

-- the ciphertexts agree as far as the messages do
def PrefixShows (mem mem' out out' : Mem) (input output n : ℕ) : Prop :=
  ∀ j ≤ n, (∀ k < j, blockAt out output k = blockAt out' output k) ↔
    ∀ k < j, blockAt mem input k = blockAt mem' input k

-- a change of the ciphertext or the iv reaches its own block and the one after it
def DamageStays (mem mem' out out' : Mem) (iv input output n : ℕ) : Prop :=
  ∀ k < n,
    (blockAt mem' input k = blockAt mem input k → blockAt out' output k =
      xorBytes (xorBytes (blockAt out output k) (chainAt mem iv input k))
        (chainAt mem' iv input k)) ∧
    (chainAt mem' iv input k = chainAt mem iv input k →
      (blockAt out' output k = blockAt out output k ↔
        blockAt mem' input k = blockAt mem input k))

variable {ek : ExpandedKey} {rounds : ℕ} (hrounds : rounds ≤ 14)
include hrounds

theorem encryptBlock_injective (a b : Block)
    (h : aesEncryptBlock ⟨ek,rounds⟩ a = aesEncryptBlock ⟨ek,rounds⟩ b) : a = b := by
  rw [aesEncryptBlock_eq ek hrounds,aesEncryptBlock_eq ek hrounds] at h
  exact Security.blockCipher_injective _ _ (Option.some.inj h)

-- mixing with the inverse of the matrix that the code multiplies by undoes the decryption
theorem decryptBlock_injective (a b : Block)
    (h : aesDecryptBlock ⟨ek,rounds⟩ a = aesDecryptBlock ⟨ek,rounds⟩ b) : a = b := by
  rw [aesDecryptBlock_eq ek hrounds,aesDecryptBlock_eq ek hrounds] at h
  rw [← blockCipher_blockDecipher (roundKey ek) rounds unmixColumns_invMixColumns a,
    Option.some.inj h,blockCipher_blockDecipher _ _ unmixColumns_invMixColumns]

variable {iv input output : ℕ} {length : Uint32} {n : ℕ} (hn : length.toNat = 16 * n)
  (hptr : iv ≠ 0 ∧ input ≠ 0 ∧ output ≠ 0)
include hn hptr

theorem encrypt_prefix (hio : ApartOrSame input output (16 * n)) {mem mem' : Mem}
    (hiv : (load mem iv : Block) = load mem' iv) : ∃ out out',
      aesEncryptCbc (some ⟨ek,rounds⟩) iv input output length mem = some (0,out) ∧
      aesEncryptCbc (some ⟨ek,rounds⟩) iv input output length mem' = some (0,out') ∧
      PrefixShows mem mem' out out' input output n := by
  have hreturns : ∀ mem, ∃ out,
      aesEncryptCbc (some ⟨ek,rounds⟩) iv input output length mem = some (0,out) := fun mem => by
    obtain ⟨⟨r,out⟩,hout⟩ := Option.isSome_iff_exists.mp (aesEncryptCbc_isSome mem hn hptr
      fun b => by rw [aesEncryptBlock_eq ek hrounds]; rfl)
    obtain ⟨rfl,-,-⟩ := (aesEncryptCbc_iff mem hn hptr hio r out).mp hout
    exact ⟨out,hout⟩
  obtain ⟨out,hout⟩ := hreturns mem
  obtain ⟨out',hout'⟩ := hreturns mem'
  obtain ⟨-,hchain,-⟩ := (aesEncryptCbc_iff mem hn hptr hio 0 out).mp hout
  obtain ⟨-,hchain',-⟩ := (aesEncryptCbc_iff mem' hn hptr hio 0 out').mp hout'
  rw [← hiv] at hchain'
  exact ⟨out,out',hout,hout',fun j hj =>
    Cbc.Encrypts.prefix_iff (encryptBlock_injective hrounds) xorBytes_xorBytes hchain hchain' hj⟩

theorem decrypt_damage (hio : Apart input (16 * n) output (16 * n)) (mem mem' : Mem) :
    ∃ out out',
      aesDecryptCbc (some ⟨ek,rounds⟩) iv input output length mem = some (0,out) ∧
      aesDecryptCbc (some ⟨ek,rounds⟩) iv input output length mem' = some (0,out') ∧
      DamageStays mem mem' out out' iv input output n := by
  have hreturns : ∀ mem, ∃ out,
      aesDecryptCbc (some ⟨ek,rounds⟩) iv input output length mem = some (0,out) := fun mem => by
    obtain ⟨⟨r,out⟩,hout⟩ := Option.isSome_iff_exists.mp (aesDecryptCbc_isSome mem hn hptr
      fun b => by rw [aesDecryptBlock_eq ek hrounds]; rfl)
    obtain ⟨rfl,-,-⟩ := (aesDecryptCbc_iff mem hn hptr hio r out).mp hout
    exact ⟨out,hout⟩
  obtain ⟨out,hout⟩ := hreturns mem
  obtain ⟨out',hout'⟩ := hreturns mem'
  obtain ⟨-,hchain,-⟩ := (aesDecryptCbc_iff mem hn hptr hio 0 out).mp hout
  obtain ⟨-,hchain',-⟩ := (aesDecryptCbc_iff mem' hn hptr hio 0 out').mp hout'
  exact ⟨out,out',hout,hout',fun k hk => 
    ⟨Cbc.Decrypts.kept_block xorBytes_xorBytes hchain hchain' hk,
      Cbc.Decrypts.changed_block (decryptBlock_injective hrounds) xorBytes_xorBytes hchain hchain'
        hk⟩⟩

end Compare

theorem cbc_changes_followed (ctx : AesContext) (key : List Uint8) (iv input output : ℕ)
    (length : Uint32) (n : ℕ) (hkey : key.length ∈ [16,24,32]) (hn : length.toNat = 16 * n)
    (hptr : iv ≠ 0 ∧ input ≠ 0 ∧ output ≠ 0) (hio : Apart input (16 * n) output (16 * n)) :
    ∃ ctx', aesInit (some ctx) (some key) key.length = some (0,some ctx') ∧
      (∀ mem mem' : Mem, (load mem iv : Block) = load mem' iv → ∃ out out',
        aesEncryptCbc (some ctx') iv input output length mem = some (0,out) ∧
        aesEncryptCbc (some ctx') iv input output length mem' = some (0,out') ∧
        PrefixShows mem mem' out out' input output n) ∧
      ∀ mem mem' : Mem, ∃ out out',
        aesDecryptCbc (some ctx') iv input output length mem = some (0,out) ∧
        aesDecryptCbc (some ctx') iv input output length mem' = some (0,out') ∧
        DamageStays mem mem' out out' iv input output n := by
  obtain ⟨ek,hinit,-⟩ := aesInit_scheduled ctx hkey
  have hrounds : key.length / 4 + 6 ≤ 14 := by
    simp only [List.mem_cons,List.not_mem_nil,or_false] at hkey
    omega
  exact ⟨_,hinit,fun mem mem' hiv => encrypt_prefix hrounds hn hptr (.inl hio) hiv,
    decrypt_damage hrounds hn hptr hio⟩

-- the second of three cipher blocks damaged
theorem cbc_changes_followed_middle : ∃ ctx', aesInit (some ⟨Vector.replicate 240 0#8,0⟩)
    (some (List.replicate 16 0#8)) 16 = some (0,some ctx') ∧ ∃ out out',
      aesDecryptCbc (some ctx') 16 64 128 48#32 (fun _ => 0#8) = some (0,out) ∧
      aesDecryptCbc (some ctx') 16 64 128 48#32 (Function.update (fun _ => 0#8) 80 1#8) =
        some (0,out') ∧
      blockAt out' 128 0 = blockAt out 128 0 ∧ blockAt out' 128 1 ≠ blockAt out 128 1 := by
  obtain ⟨ctx',hinit,-,hdamage⟩ := cbc_changes_followed ⟨Vector.replicate 240 0#8,0⟩
    (List.replicate 16 0#8) 16 64 128 48#32 3 (by decide) rfl (by decide) (by decide)
  obtain ⟨out,out',hout,hout',hstays⟩ := hdamage (fun _ => 0#8)
    (Function.update (fun _ => 0#8) 80 1#8)
  have hfirst := (hstays 0 (by decide)).2 (by decide)
  have hsecond := (hstays 1 (by decide)).2 (by decide)
  exact ⟨ctx',hinit,out,out',hout,hout',hfirst.mpr (by decide),
    fun heq => absurd (hsecond.mp heq) (by decide)⟩

end KluxOS.Aes
