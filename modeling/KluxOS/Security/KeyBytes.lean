import KluxOS.Security.CipherRoundTrip
import KluxOS.Security.KeyRegistry
import Mathlib.Data.Nat.ModEq

namespace KluxOS.Crypto

open BufferMap ByteMemory KernelState Run Syscall

-- made counts the keys, from 1 on; number keeps the number of each live key by its address
structure Numbered where
  state : CryptoState
  made : ℕ
  number : Uint32 → Option ℕ

def numberedStep (alloc : Allocator) (s : Numbered) : KeyCall → Option Numbered
  | .generate algorithm key_length =>
    let made := cryptoGenerateKey alloc s.state algorithm key_length
    if made.2 = 0#32 then some { s with state := made.1 }
    else some ⟨made.1,s.made + 1,Function.update s.number made.2 (some (s.made + 1))⟩
  | .destroy key =>
    (cryptoDestroyKey s.state key).map fun state =>
      { s with state, number := Function.update s.number key none }

def numberedInit (kernel : KernelState) : Numbered :=
  ⟨cryptoInit (CryptoState.boot kernel),0,fun _ => none⟩

-- key->key_data[i] as the memory has it
def dataByte (memory : Memory Uint8) (key : Uint32) (i : ℕ) : Uint8 :=
  memory ((loadKey memory key).key_data.toNat + i)

-- what a context of key a encrypts and one of key b decrypts is the text, or no byte of it is
def Crosses (alloc : Allocator) (s : CryptoState) (a b : Uint32) (same : Prop) : Prop :=
  ∀ (t u : CryptoState) (ca cb : Uint32),
    cryptoCreateContext alloc s (loadKey s.kernel.memory a).type a = (t,ca) → ca ≠ 0#32 →
    cryptoCreateContext alloc t (loadKey t.kernel.memory b).type b = (u,cb) → cb ≠ 0#32 →
    ∀ (input output plain : ℕ) (length : Uint32), input ≠ 0 → output ≠ 0 → plain ≠ 0 →
      ApartOrSame input output length.toNat → ApartOrSame output plain length.toNat →
      Apart output length.toNat (loadKey u.kernel.memory a).key_data.toNat
        (loadKey u.kernel.memory a).length.toNat →
      Spared u.kernel.memory cb output length.toNat →
      Apart plain length.toNat (loadKey u.kernel.memory b).key_data.toNat
        (loadKey u.kernel.memory b).length.toNat →
      ∃ v w, cryptoEncrypt u ca input output length = some (v,0) ∧
        cryptoDecrypt v cb output plain length = some (w,0) ∧
        ∀ i < length.toNat, w.kernel.memory (plain + i) = u.kernel.memory (input + i) ↔ same

structure Numbering (s : Numbered) : Prop where
  next : s.state.next_key_id = BitVec.ofNat 32 (s.made + 1)
  keys : ∀ key n, s.number key = some n →
    ∃ k, KeyAt s.state.kernel key k ∧ k.id = BitVec.ofNat 32 n

section Step

variable {alloc : Allocator} {s t : CryptoState} {algorithm key_length key : Uint32}

theorem register_next (s : CryptoState) (key : Uint32) :
    (register s key).next_key_id = s.next_key_id := by
  rw [register]
  split <;> rfl

theorem destroy_keeps (h : cryptoDestroyKey s key = some t) :
    t.next_key_id = s.next_key_id ∧ Extends s.kernel t.kernel := by
  have hfreed : Extends s.kernel (free s key).kernel :=
    (kfree_extends s.kernel _).trans (kfree_extends _ key)
  rw [cryptoDestroyKey] at h
  split at h
  · cases h
    exact ⟨rfl,Extends.refl _⟩
  · obtain ⟨found,-,h⟩ := Option.bind_eq_some_iff.mp h
    cases found with
    | none =>
      cases h
      exact ⟨rfl,hfreed⟩
    | some i =>
      obtain ⟨last,-,h⟩ := Option.bind_eq_some_iff.mp h
      obtain ⟨key_store,-,h⟩ := Option.bind_eq_some_iff.mp h
      obtain ⟨key_store',-,h⟩ := Option.bind_eq_some_iff.mp h
      cases h
      exact ⟨rfl,hfreed⟩

end Step

section Run

variable {alloc : Allocator} {s t : Numbered}

theorem numberedInit_numbering (kernel : KernelState) : Numbering (numberedInit kernel) :=
  ⟨rfl,fun _ _ h => by cases h⟩

-- the keys of the state before are untouched in the blocks they lie in
theorem Numbering.kept (hs : Numbering s) {kernel : KernelState}
    (hext : Extends s.state.kernel kernel) {key : Uint32} {n : ℕ} (hn : s.number key = some n) :
    ∃ k, KeyAt kernel key k ∧ k.id = BitVec.ofNat 32 n := by
  obtain ⟨k,hat,hid⟩ := hs.keys key n hn
  exact ⟨k,hat.extends hext,hid⟩

theorem numberedStep_numbering (hfresh : FreshBlocks alloc) (c : KeyCall) (hs : Numbering s)
    (h : numberedStep alloc s c = some t) : Numbering t := by
  cases c with
  | generate algorithm key_length =>
    rw [numberedStep] at h
    rcases cryptoGenerateKey_cases hfresh s.state algorithm key_length with
      ⟨kernel,hext,hrefused⟩ | ⟨kernel,key_data,hext,-,hat,hmade⟩
    · rw [hrefused] at h
      dsimp only at h
      rw [if_pos rfl] at h
      cases h
      exact ⟨hs.next,fun key n hn => hs.kept hext hn⟩
    · rw [if_neg hat.nonnull] at h
      cases h
      rw [hs.next] at hat
      refine ⟨?_,fun key n hn => ?_⟩
      · rw [hmade,register_next,withKey,hs.next]
        exact (BitVec.ofNat_add _ _).symm
      · change Function.update s.number _ (some (s.made + 1)) key = some n at hn
        rw [hmade,register_kernel]
        by_cases hkey : key = (cryptoGenerateKey alloc s.state algorithm key_length).2
        · rw [hkey,Function.update_self] at hn
          cases hn
          exact ⟨_,hkey ▸ hat,rfl⟩
        · rw [Function.update_of_ne hkey] at hn
          exact hs.kept hext hn
  | destroy key =>
    obtain ⟨u,hu,h⟩ := Option.map_eq_some_iff.mp h
    obtain ⟨hnext,hext⟩ := destroy_keeps hu
    cases h
    refine ⟨hnext.trans hs.next,fun other n hn => ?_⟩
    change Function.update s.number key none other = some n at hn
    by_cases hother : other = key
    · rw [hother,Function.update_self] at hn
      cases hn
    · rw [Function.update_of_ne hother] at hn
      exact hs.kept hext hn

end Run

section Bytes

variable {kernel : KernelState} {a b : Uint32} {k k' : CryptoKey} {n n' i : ℕ}

theorem keyByte_number (n i : ℕ) :
    keyByte (BitVec.ofNat 32 n) i = BitVec.ofNat 8 (i * 29 + n * 13) := by
  refine BitVec.eq_of_toNat_eq ?_
  simp only [keyByte,BitVec.toNat_setWidth,BitVec.toNat_umod,BitVec.toNat_add,BitVec.toNat_mul,
    BitVec.toNat_ofNat,Nat.reducePow,Nat.reduceMod]
  omega

-- 13 is odd, so a byte tells the number modulo 256
theorem keyByte_iff (hn : k.id = BitVec.ofNat 32 n) (hn' : k'.id = BitVec.ofNat 32 n') (i : ℕ) :
    keyByte k.id i = keyByte k'.id i ↔ n ≡ n' [MOD 256] := by
  rw [hn,hn',keyByte_number,keyByte_number,← BitVec.toNat_inj,BitVec.toNat_ofNat,
    BitVec.toNat_ofNat,Nat.ModEq]
  omega

theorem KeyAt.dataByte (h : KeyAt kernel a k) (hi : i < k.length.toNat) :
    dataByte kernel.memory a i = keyByte k.id i := by
  rw [Crypto.dataByte,h.record]
  exact h.bytes i hi

theorem cipherByte_cross (hn : k.id = BitVec.ofNat 32 n) (hn' : k'.id = BitVec.ofNat 32 n')
    (htype : k.type = k'.type) (hlength : k.length = k'.length) (i : ℕ) (byte : Uint8) :
    cipherByte (fun b shift => b - shift) k' i (cipherByte (fun b shift => b + shift) k i byte) =
      byte ↔ n ≡ n' [MOD 256] := by
  rw [cipherByte,cipherByte,← htype,← hlength]
  split
  · exact (xor_undone byte _ _).trans (keyByte_iff hn hn' _)
  · exact (shift_undone byte _ _).trans (keyByte_iff hn hn' 0)

-- the second context leaves the first one as it is
theorem KeyAt.crosses {alloc : Allocator} (hfresh : FreshBlocks alloc) {s : CryptoState}
    (h : KeyAt s.kernel a k) (h' : KeyAt s.kernel b k') (hn : k.id = BitVec.ofNat 32 n)
    (hn' : k'.id = BitVec.ofNat 32 n') (htype : k.type = k'.type) (hlength : k.length = k'.length)
    (hcipher : k.type = cryptoXor ∨ k.type = cryptoCaesar) :
    Crosses alloc s a b (n ≡ n' [MOD 256]) := by
  intro t u ca cb hca hca0 hcb hcb0 input output plain length hinput houtput hplain hio hop hdata
    hspared hpdata
  obtain ⟨hext,hcontext⟩ := cryptoCreateContext_made hfresh h hca hca0
  obtain ⟨hext',hcontext'⟩ := cryptoCreateContext_made hfresh (h'.extends hext) hcb hcb0
  have hcontext := hcontext.extends hext'
  rw [hcontext.key.record] at hdata
  rw [hcontext'.key.record] at hpdata
  have henc := cryptoProcess_eq (fun b shift => b + shift) hcontext ⟨hcipher,hinput,houtput⟩ hio hdata
  have hdec := cryptoProcess_eq (fun b shift => b - shift)
    (hcontext'.spared hspared input (cipherByte (fun b shift => b + shift) k))
    ⟨htype ▸ hcipher,houtput,hplain⟩ hop hpdata
  refine ⟨_,_,henc,hdec,fun i hi => ?_⟩
  refine Iff.trans (Eq.congr ?_ rfl) (cipherByte_cross hn hn' htype hlength i _)
  exact (mapped_inside hi).trans (congrArg _ (mapped_inside hi))

end Bytes

theorem generated_keys_repeat (alloc : Allocator) (hfresh : FreshBlocks alloc)
    (kernel : KernelState) (cs : List KeyCall) (s : Numbered) (a b : Uint32) (n n' : ℕ)
    (hrun : run (numberedStep alloc) (numberedInit kernel) cs = some s)
    (ha : s.number a = some n) (hb : s.number b = some n') :
    let memory := s.state.kernel.memory
    (∀ i, i < (loadKey memory a).length.toNat → i < (loadKey memory b).length.toNat →
      (dataByte memory a i = dataByte memory b i ↔ n ≡ n' [MOD 256])) ∧
    ((loadKey memory a).type = (loadKey memory b).type →
      (loadKey memory a).length = (loadKey memory b).length →
      (loadKey memory a).type = cryptoXor ∨ (loadKey memory a).type = cryptoCaesar →
      Crosses alloc s.state a b (n ≡ n' [MOD 256])) := by
  have hs : Numbering s := run_invariant (numberedInit_numbering kernel)
    (fun s c t hs ht => numberedStep_numbering hfresh c hs ht) hrun
  obtain ⟨k,hat,hid⟩ := hs.keys a n ha
  obtain ⟨k',hat',hid'⟩ := hs.keys b n' hb
  dsimp only
  rw [hat.record,hat'.record]
  refine ⟨fun i hi hi' => ?_,hat.crosses hfresh hat' hid hid'⟩
  rw [hat.dataByte hi,hat'.dataByte hi']
  exact keyByte_iff hid hid' i

def twoKeys : List KeyCall := [.generate cryptoCaesar 0#32,.generate cryptoXor 8#32,
  .destroy 0x200000#32,.generate cryptoXor 8#32]

-- the second and the third key, once the first is destroyed
theorem generated_keys_repeat_two : ∃ s,
    run (numberedStep bumpAllocator) (numberedInit .boot) twoKeys = some s ∧
      s.number 0x200011#32 = some 2 ∧ s.number 0x200029#32 = some 3 ∧
      dataByte s.state.kernel.memory 0x200011#32 0 ≠ dataByte s.state.kernel.memory 0x200029#32 0 ∧
      Crosses bumpAllocator s.state 0x200011#32 0x200029#32 (2 ≡ 3 [MOD 256]) := by
  have hrepeat := generated_keys_repeat bumpAllocator bumpAllocator_fresh .boot twoKeys _
    0x200011#32 0x200029#32 2 3 rfl rfl rfl
  refine ⟨_,rfl,rfl,rfl,fun heq => ?_,hrepeat.2 (by decide) (by decide) (by decide)⟩
  exact absurd ((hrepeat.1 0 (by decide) (by decide)).mp heq) (by decide)

end KluxOS.Crypto
