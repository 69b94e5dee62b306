import KluxOS.Security.KeyMemory

namespace KluxOS.Crypto

open BufferMap ByteMemory KernelState Syscall

-- the key of a context
def contextKey (memory : Memory Uint8) (ctx : Uint32) : CryptoKey :=
  loadKey memory (loadContext memory ctx).key

-- n bytes at output leave a context as it is: its record, its key's record and the key's bytes
structure Spared (memory : Memory Uint8) (ctx : Uint32) (output n : ℕ) : Prop where
  context : Apart output n ctx.toNat contextSize.toNat
  key : Apart output n (loadContext memory ctx).key.toNat keySize.toNat
  data : Apart output n (contextKey memory ctx).key_data.toNat (contextKey memory ctx).length.toNat

-- no access of crypto_encrypt fails, and crypto_decrypt gives back what was encrypted with the
-- key out of the way
def RoundTrips (s : CryptoState) (ctx : Uint32) (input output : ℕ) (length : Uint32) : Prop :=
  ∃ t r, cryptoEncrypt s ctx input output length = some (t,r) ∧
    (r = 0 → ApartOrSame input output length.toNat →
      Spared s.kernel.memory ctx output length.toNat →
      ∀ plain, plain ≠ 0 → ApartOrSame output plain length.toNat →
        Apart plain length.toNat (contextKey s.kernel.memory ctx).key_data.toNat
          (contextKey s.kernel.memory ctx).length.toNat →
        ∃ u, cryptoDecrypt t ctx output plain length = some (u,0) ∧
          ∀ i < length.toNat, u.kernel.memory (plain + i) = s.kernel.memory (input + i))

section Cipher

variable {memory : Memory Uint8} {key key_length : Uint32} {j : ℕ}

def cipherByte (op : Uint8 → Uint8 → Uint8) (k : CryptoKey) (i : ℕ) (b : Uint8) : Uint8 :=
  if k.type = cryptoXor then b ^^^ keyByte k.id (i % k.length.toNat) else op b (keyByte k.id 0)

theorem xor_undone (b x y : Uint8) : b ^^^ x ^^^ y = b ↔ x = y := by
  have hself : b ^^^ x ^^^ x = b := by rw [BitVec.xor_assoc,BitVec.xor_self,BitVec.xor_zero]
  constructor
  · intro h
    exact ((BitVec.xor_right_inj (b ^^^ x)).mp (h.trans hself.symm)).symm
  · rintro rfl
    exact hself

theorem shift_undone (b x y : Uint8) : b + x - y = b ↔ x = y := by
  constructor
  · intro h
    bv_omega
  · rintro rfl
    exact BitVec.add_sub_cancel b x

theorem cipherByte_inverse (k : CryptoKey) (i : ℕ) (b : Uint8) :
    cipherByte (fun b shift => b - shift) k i (cipherByte (fun b shift => b + shift) k i b) = b := by
  rw [cipherByte,cipherByte]
  split
  · exact (xor_undone b _ _).mpr rfl
  · exact (shift_undone b _ _).mpr rfl

theorem readKey_some (h : j < key_length.toNat) :
    readKey memory key key_length j = some (memory (key.toNat + j)) := if_pos h

theorem toNat_pos (h : key_length ≠ 0#32) : 0 < key_length.toNat :=
  Nat.pos_of_ne_zero fun hzero => h (BitVec.eq_of_toNat_eq hzero)

end Cipher

section Process

variable {s : CryptoState} {ctx key : Uint32} {k : CryptoKey} {input output : ℕ}
  {length : Uint32}

theorem ContextAt.contextKey (h : ContextAt s.kernel ctx key k) :
    contextKey s.kernel.memory ctx = k := by
  rw [Crypto.contextKey,h.record]
  exact h.key.record

-- a key that crypto_encrypt and crypto_decrypt can use, with two buffers at hand
structure Accepted (k : CryptoKey) (input output : ℕ) : Prop where
  cipher : k.type = cryptoXor ∨ k.type = cryptoCaesar
  input : input ≠ 0
  output : output ≠ 0

variable (op : Uint8 → Uint8 → Uint8) (h : ContextAt s.kernel ctx key k)
include h

theorem cryptoProcess_cases (input output : ℕ) (length : Uint32) :
    (∃ t r, cryptoProcess (caesar op) s ctx input output length = some (t,r) ∧ r ≠ 0) ∨
      Accepted k input output := by
  by_cases hnull : ctx = 0#32 ∨ key = 0#32 ∨ input = 0 ∨ output = 0
  · refine .inl ⟨s,-1,?_,by decide⟩
    simp only [cryptoProcess,h.record,if_pos hnull]
  obtain ⟨-,hinput,houtput⟩ : key ≠ 0#32 ∧ input ≠ 0 ∧ output ≠ 0 := by
    simpa only [not_or] using (not_or.mp hnull).2
  by_cases hxor : k.type = cryptoXor
  · exact .inr ⟨.inl hxor,hinput,houtput⟩
  by_cases hcaesar : k.type = cryptoCaesar
  · exact .inr ⟨.inr hcaesar,hinput,houtput⟩
  by_cases hlater : k.type = cryptoAes ∨ k.type = cryptoRsa
  · refine .inl ⟨s.print "ERROR: AES and RSA not supported yet.\n".toList,-2,?_,by decide⟩
    simp only [cryptoProcess,h.record,if_neg hnull,if_neg hxor,if_neg hcaesar,if_pos hlater]
  · refine .inl ⟨s,-3,?_,by decide⟩
    simp only [cryptoProcess,h.record,if_neg hnull,if_neg hxor,if_neg hcaesar,if_neg hlater]

theorem cryptoProcess_loop (haccepted : Accepted k input output) :
    cryptoProcess (caesar op) s ctx input output length =
      (if k.type = cryptoXor then
        cryptoXorProcess input output length k.key_data k.length s.kernel.memory
      else caesar op input output length k.key_data k.length s.kernel.memory).map fun memory =>
        (s.setMemory memory,0) := by
  have hnull : ¬ (ctx = 0#32 ∨ key = 0#32 ∨ input = 0 ∨ output = 0) := by
    simp only [not_or]
    exact ⟨h.nonnull,h.key.nonnull,haccepted.input,haccepted.output⟩
  simp only [cryptoProcess,h.record,h.key.record,if_neg hnull]
  rcases haccepted.cipher with hxor | hcaesar
  · rw [if_pos hxor,if_pos hxor]
    exact (Option.map_eq_bind ..).symm
  · have hne : k.type ≠ cryptoXor := fun hxor => absurd (hxor.symm.trans hcaesar) (by decide)
    rw [if_neg hne,if_pos hcaesar,if_neg hne]
    exact (Option.map_eq_bind ..).symm

-- wherever the output lies, the loops read the key's bytes below its length only
theorem cryptoProcess_returns (haccepted : Accepted k input output) : ∃ memory,
    cryptoProcess (caesar op) s ctx input output length = some (s.setMemory memory,0) := by
  have hne := h.key.usable haccepted.cipher
  have hpos := toNat_pos hne
  have hloop : ∃ memory, (if k.type = cryptoXor then
      cryptoXorProcess input output length k.key_data k.length s.kernel.memory
      else caesar op input output length k.key_data k.length s.kernel.memory) = some memory := by
    split
    · refine mapLoop_returns (fun memory i b => ?_) input output length.toNat s.kernel.memory
      rw [if_neg hne,readKey_some (Nat.mod_lt i hpos)]
      rfl
    · rw [caesar,readKey_some hpos,Option.bind_eq_bind,Option.bind_some]
      refine mapLoop_returns (fun _ _ _ => ?_) input output length.toNat s.kernel.memory
      rfl
  obtain ⟨memory,hloop⟩ := hloop
  refine ⟨memory,?_⟩
  rw [cryptoProcess_loop op h haccepted,hloop,Option.map_some]

theorem cryptoProcess_eq (haccepted : Accepted k input output)
    (hio : ApartOrSame input output length.toNat)
    (hdata : Apart output length.toNat k.key_data.toNat k.length.toNat) :
    cryptoProcess (caesar op) s ctx input output length =
      some (s.setMemory (mapped (cipherByte op k) input output length.toNat s.kernel.memory),0) := by
  have hne := h.key.usable haccepted.cipher
  have hpos := toNat_pos hne
  have hahead : ∀ i < length.toNat, ∀ j < i, input + i ≠ output + j := fun i hi j hj =>
    hio.ahead hi hj
  rw [cryptoProcess_loop op h haccepted]
  refine Option.map_eq_some_iff.mpr ⟨_,?_,rfl⟩
  by_cases hxor : k.type = cryptoXor
  · rw [if_pos hxor]
    refine mapLoop_eq (fun memory hmemory i _ b => ?_) hahead
    have hlt := Nat.mod_lt i hpos
    have hkept := hmemory (k.key_data.toNat + i % k.length.toNat)
      (hdata.symm.not_inside (inside_add hlt))
    rw [if_neg hne,readKey_some hlt,hkept,h.key.bytes _ hlt,cipherByte,if_pos hxor]
    rfl
  · rw [if_neg hxor,caesar,readKey_some hpos,h.key.bytes 0 hpos,Option.bind_eq_bind,
      Option.bind_some]
    refine mapLoop_eq (fun _ _ i _ b => ?_) hahead
    rw [cipherByte,if_neg hxor]

-- what is written elsewhere leaves the context to be used again
theorem ContextAt.spared (hspared : Spared s.kernel.memory ctx output length.toNat)
    (input : ℕ) (g : ℕ → Uint8 → Uint8) :
    ContextAt (s.setMemory (mapped g input output length.toNat s.kernel.memory)).kernel ctx key
      k := by
  have hkey := hspared.key
  have hdata := hspared.data
  rw [h.record] at hkey
  rw [h.contextKey] at hdata
  have hkept : ∀ {b n : ℕ}, Apart output length.toNat b n → ∀ x, Inside b n x →
      mapped g input output length.toNat s.kernel.memory x = s.kernel.memory x :=
    fun hapart x hx => mapped_outside (hapart.symm.not_inside hx)
  refine ⟨h.nonnull,?_,h.block,⟨h.key.nonnull,?_,fun i hi => ?_,h.key.block,h.key.data,
    h.key.usable⟩⟩
  · exact (loadContext_congr (hkept hspared.context)).trans h.record
  · exact (loadKey_congr (hkept hkey)).trans h.key.record
  · exact (hkept hdata _ (inside_add hi)).trans (h.key.bytes i hi)

theorem ContextAt.roundTrips (input output : ℕ) (length : Uint32) :
    RoundTrips s ctx input output length := by
  rcases cryptoProcess_cases (fun b shift => b + shift) h input output length with
    ⟨t,r,henc,hr⟩ | haccepted
  · exact ⟨t,r,henc,fun hzero => absurd hzero hr⟩
  obtain ⟨memory,henc⟩ := cryptoProcess_returns (fun b shift => b + shift) h haccepted
  refine ⟨_,0,henc,fun _ hio hspared plain hplain hop hpdata => ?_⟩
  have hdata := hspared.data
  rw [h.contextKey] at hdata hpdata
  have heq := cryptoProcess_eq (fun b shift => b + shift) h haccepted hio hdata
  rw [(Prod.mk.inj (Option.some.inj (henc.symm.trans heq))).1]
  have hnext := h.spared hspared input (cipherByte (fun b shift => b + shift) k)
  have hdec := cryptoProcess_eq (fun b shift => b - shift) hnext
    ⟨haccepted.cipher,haccepted.output,hplain⟩ hop hpdata
  exact ⟨_,hdec,fun i hi => mapped_mapped (fun i b => cipherByte_inverse k i b) hi⟩

end Process

theorem cryptoGenerateKey_keyAt {alloc : Allocator} (hfresh : FreshBlocks alloc)
    {s t : CryptoState} {algorithm key_length key : Uint32}
    (h : cryptoGenerateKey alloc s algorithm key_length = (t,key)) (hkey : key ≠ 0#32) :
    ∃ k, KeyAt t.kernel key k := by
  have hcases := cryptoGenerateKey_cases hfresh s algorithm key_length
  rw [h] at hcases
  rcases hcases with ⟨kernel,-,hrefused⟩ | ⟨kernel,key_data,-,-,hat,hmade⟩
  · exact absurd (Prod.ext_iff.mp hrefused).2 hkey
  · rw [show t = _ from hmade,register_kernel]
    exact ⟨_,hat⟩

theorem crypto_round_trip (alloc : Allocator) (hfresh : FreshBlocks alloc) (s s1 s2 : CryptoState)
    (algorithm algorithm' key_length key ctx : Uint32) (input output : ℕ) (length : Uint32)
    (hgen : cryptoGenerateKey alloc s algorithm key_length = (s1,key)) (hkey : key ≠ 0#32)
    (hctx : cryptoCreateContext alloc s1 algorithm' key = (s2,ctx)) (hnull : ctx ≠ 0#32) :
    RoundTrips s2 ctx input output length := by
  obtain ⟨k,hk⟩ := cryptoGenerateKey_keyAt hfresh hgen hkey
  exact (cryptoCreateContext_made hfresh hk hctx hnull).2.roundTrips input output length

-- memory that holds 'A' everywhere at first
def filledKernel : KernelState := { KernelState.boot with memory := fun _ => 0x41#8 }

-- a key of 8 bytes, a buffer of 20 encrypted and decrypted in place
theorem crypto_round_trip_xor : ∃ s1 s2 t u key ctx,
    cryptoGenerateKey bumpAllocator (CryptoState.boot filledKernel) cryptoXor 8#32 = (s1,key) ∧
    key ≠ 0#32 ∧ cryptoCreateContext bumpAllocator s1 cryptoXor key = (s2,ctx) ∧ ctx ≠ 0#32 ∧
    cryptoEncrypt s2 ctx 0x1000 0x1000 20#32 = some (t,0) ∧
    cryptoDecrypt t ctx 0x1000 0x1000 20#32 = some (u,0) ∧
    ∀ i < 20, u.kernel.memory (0x1000 + i) = s2.kernel.memory (0x1000 + i) := by
  obtain ⟨t,r,henc,hback⟩ := crypto_round_trip bumpAllocator bumpAllocator_fresh
    (CryptoState.boot filledKernel) _ _ cryptoXor cryptoXor 8#32 0x200000#32 0x200018#32 0x1000
    0x1000 20#32 rfl (by decide) rfl (by decide)
  obtain ⟨-,rfl⟩ : _ ∧ 0 = r := Prod.mk.inj (Option.some.inj henc)
  obtain ⟨u,hdec,hsame⟩ := hback rfl (.inr rfl) ⟨by decide,by decide,by decide⟩ 0x1000 (by decide)
    (.inr rfl) (by decide)
  exact ⟨_,_,t,u,_,_,rfl,by decide,rfl,by decide,henc,hdec,hsame⟩

-- encrypted onto its own bytes, the key is lost with the message
theorem encrypted_over_key : ∃ s1 s2 t u key ctx,
    cryptoGenerateKey bumpAllocator (CryptoState.boot filledKernel) cryptoXor 8#32 = (s1,key) ∧
    key ≠ 0#32 ∧ cryptoCreateContext bumpAllocator s1 cryptoXor key = (s2,ctx) ∧ ctx ≠ 0#32 ∧
    (contextKey s2.kernel.memory ctx).key_data = 0x200010#32 ∧
    ApartOrSame 0x1000 0x200010 8 ∧ cryptoEncrypt s2 ctx 0x1000 0x200010 8#32 = some (t,0) ∧
    ApartOrSame 0x200010 0x2000 8 ∧ cryptoDecrypt t ctx 0x200010 0x2000 8#32 = some (u,0) ∧
    ∀ i < 8, u.kernel.memory (0x2000 + i) ≠ s2.kernel.memory (0x1000 + i) := by
  refine ⟨_,_,_,_,0x200000#32,0x200018#32,rfl,by decide,rfl,by decide,rfl,.inl ?_,rfl,.inl ?_,rfl,
    ?_⟩
  all_goals decide

end KluxOS.Crypto
