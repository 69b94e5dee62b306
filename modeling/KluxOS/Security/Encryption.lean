import KluxOS.Security.AesRoundTrip
import KluxOS.Security.SecuritySettings

namespace KluxOS.Security

open Aes CArray Fips197

variable {n : ℕ}

def encryptionKey : List Uint8 := (List.range 16).map (BitVec.ofNat 8)

-- aes_encrypt_block on buffers of n bytes: an access beyond them gives none
def encryptBlockInto (ctx : AesContext) (input output : Vector Uint8 n) :
    Option (Vector Uint8 n) := do
  let state ← load fun i : Fin 16 => get? input i
  let state ← aesEncryptBlock ctx state
  storeLoop (fun _ i => get? state i) 0 16 output

-- ctx is the local context before aes_init; the source does not read its length argument
def securityEncryptData (config : SecuritySettings) (ctx : AesContext) (data : Vector Uint8 n)
    (_length : Uint32) (output : Vector Uint8 n) : Option (ℤ × Vector Uint8 n) :=
  if config.enable_encryption = 0#8 then some (-1,output)
  else do
    let r ← aesInit (some ctx) (some encryptionKey) 16
    if r.1 ≠ 0 then return (-1,output)
    else
      let ctx ← r.2
      let output ← encryptBlockInto ctx data output
      return (0,output)

section Cipher

def unmixBlock (s : Block) : Block :=
  eachColumn (fun v => wordBytes (CyclicColumn.conv (CyclicColumn.inv mixPolynomial) (ofColumn v))) s

theorem unmixBlock_mixColumns : Function.LeftInverse unmixBlock mixColumns := by
  intro s
  have hsum : ∑ i, mixPolynomial i ≠ 0 := by
    rw [mixPolynomial_sum]
    exact one_ne_zero
  apply ofBlock_injective
  rw [unmixBlock,ofBlock_eachColumn _ _ (fun _ => ofColumn_wordBytes _),ofBlock_mixColumns,
    mixColumnsWith_mixColumnsWith,CyclicColumn.inv_conv hsum,mixColumnsWith_one]

theorem blockCipher_injective (k : ℕ → Block) (rounds : ℕ) :
    Function.Injective (blockCipher mixColumns k rounds) :=
  Function.LeftInverse.injective (blockDecipher_blockCipher k rounds unmixBlock_mixColumns)

-- the bytes of the context that the key schedule leaves as they were do not matter
theorem blockCipher_congr {key : List Uint8} {start start' ek ek' : ExpandedKey} {rounds : ℕ}
    (h : Scheduled key start ek (4 * (rounds + 1)))
    (h' : Scheduled key start' ek' (4 * (rounds + 1))) (b : Block) :
    blockCipher mixColumns (roundKey ek) rounds b =
      blockCipher mixColumns (roundKey ek') rounds b := by
  apply ofBlock_injective
  rw [ofBlock_blockCipher ofBlock_mixColumns rounds fun _ hr s => ofBlock_xorBlock h hr s,
    ofBlock_blockCipher ofBlock_mixColumns rounds fun _ hr s => ofBlock_xorBlock h' hr s]

end Cipher

def firstBlock (v : Vector Uint8 n) : Block := Vector.ofFn fun i => (get? v i).getD 0

theorem load_firstBlock (v : Vector Uint8 n) (hn : 16 ≤ n) :
    (load fun i : Fin 16 => get? v i) = some (firstBlock v) :=
  load_some fun i => by rw [get?_eq v (k := i) (by omega) rfl,Option.getD_some]

theorem load_short (v : Vector Uint8 n) (hn : n < 16) :
    (load fun i : Fin 16 => get? v i) = none := by
  refine Option.eq_none_iff_forall_ne_some.mpr fun g hg => ?_
  have hlast := load_eq_some.mp hg 15
  have hnone : get? v (15 : Fin 16) = none := dif_neg (by
    change ¬ ((0 : ℤ) ≤ 15 ∧ (15 : ℤ) < n)
    omega)
  cases hnone.symm.trans hlast

theorem encryptBlockInto_spec (ek : ExpandedKey) (rounds : ℕ) (hrounds : rounds ≤ 14)
    (input output : Vector Uint8 n) (hn : 16 ≤ n) :
    ∃ out, encryptBlockInto ⟨ek,rounds⟩ input output = some out ∧
      firstBlock out = blockCipher mixColumns (roundKey ek) rounds (firstBlock input) := by
  have hstore := storeLoop_spec (fun _ i => get?
      (blockCipher mixColumns (roundKey ek) rounds (firstBlock input)) i)
    (fun i => (get? (blockCipher mixColumns (roundKey ek) rounds (firstBlock input)) i).getD 0)
    0 output 16 (by omega) fun _ _ j hj => by rw [get?_eq _ hj rfl,Option.getD_some]
  obtain ⟨out,hout,hget⟩ := hstore
  refine ⟨out,?_,?_⟩
  · rw [encryptBlockInto,load_firstBlock input hn,Option.bind_eq_bind,Option.bind_some,
      aesEncryptBlock_eq ek hrounds]
    exact hout
  · apply ext_get
    intro i
    rw [firstBlock,get_ofFn,hget,if_pos (by omega),Option.getD_some,Nat.sub_zero,
      get?_eq _ i.isLt rfl,Option.getD_some]

section Data
variable {config : SecuritySettings} (henabled : config.enable_encryption ≠ 0#8)
include henabled

theorem securityEncryptData_enabled (ctx : AesContext) (length : Uint32) :
    ∃ ek, Scheduled encryptionKey ctx.expanded_key ek (4 * (10 + 1)) ∧
      ∀ data output : Vector Uint8 n, securityEncryptData config ctx data length output =
        (encryptBlockInto ⟨ek,(10 : ℕ)⟩ data output).map fun out => (0,out) := by
  have hkey : encryptionKey.length ∈ [16,24,32] := by decide
  obtain ⟨ek,hrun,hs⟩ := aesInit_scheduled ctx hkey
  refine ⟨ek,hs,fun data output => ?_⟩
  have hinit : aesInit (some ctx) (some encryptionKey) 16 = some (0,some ⟨ek,(10 : ℕ)⟩) := hrun
  rw [securityEncryptData,if_neg henabled,hinit]
  simp only [Option.bind_eq_bind,Option.bind_some,ne_eq,not_true_eq_false,if_false]
  cases encryptBlockInto ⟨ek,(10 : ℕ)⟩ data output with
  | none => rfl
  | some out => rfl

theorem securityEncryptData_isSome_iff (ctx : AesContext) (length : Uint32)
    (data output : Vector Uint8 n) :
    (securityEncryptData config ctx data length output).isSome ↔ 16 ≤ n := by
  obtain ⟨ek,-,hrun⟩ := securityEncryptData_enabled henabled ctx length
  rw [hrun,Option.isSome_map]
  rcases Nat.lt_or_ge n 16 with hn | hn
  · refine iff_of_false ?_ (by omega)
    rw [encryptBlockInto,load_short data hn]
    exact Bool.false_ne_true
  · obtain ⟨out,hout,-⟩ := encryptBlockInto_spec ek 10 (by decide) data output hn
    exact iff_of_true (by rw [hout]; rfl) hn

theorem securityEncryptData_firstBlock {ctx : AesContext} {length : Uint32} {r : ℤ}
    {data output out : Vector Uint8 n}
    (h : securityEncryptData config ctx data length output = some (r,out)) :
    ∃ ek, Scheduled encryptionKey ctx.expanded_key ek (4 * (10 + 1)) ∧
      firstBlock out = blockCipher mixColumns (roundKey ek) 10 (firstBlock data) := by
  have hn := (securityEncryptData_isSome_iff henabled ctx length data output).mp (by rw [h]; rfl)
  obtain ⟨ek,hs,hrun⟩ := securityEncryptData_enabled henabled ctx length
  obtain ⟨out',hout,hfirst⟩ := encryptBlockInto_spec ek 10 (by decide) data output hn
  rw [hrun,hout] at h
  cases h
  exact ⟨ek,hs,hfirst⟩

end Data

section WholeMessage

-- no byte outside the two buffers is read or written
def InBounds (config : SecuritySettings) (length : Uint32) : Prop :=
  ∀ ctx (data output : Vector Uint8 length.toNat),
    (securityEncryptData config ctx data length output).isSome

def SeparatesMessages (config : SecuritySettings) (length : Uint32) : Prop :=
  ∀ ctx ctx' (data data' output out out' : Vector Uint8 length.toNat), data ≠ data' →
    securityEncryptData config ctx data length output = some (0,out) →
    securityEncryptData config ctx' data' length output = some (0,out') → out ≠ out'

variable {config : SecuritySettings} {length : Uint32}

theorem firstBlock_injective (hn : n = 16) :
    Function.Injective (firstBlock : Vector Uint8 n → Block) := by
  subst hn
  intro v w h
  apply ext_get
  intro i
  have hi := congrArg (fun b : Block => b.get i) h
  simp only [firstBlock,get_ofFn] at hi
  rwa [get?_eq v i.isLt rfl,get?_eq w i.isLt rfl] at hi

theorem separates_block (henabled : config.enable_encryption ≠ 0#8) (hlength : length = 16#32) :
    SeparatesMessages config length := by
  intro ctx ctx' data data' output out out' hne hrun hrun' heq
  obtain ⟨ek,hs,hfirst⟩ := securityEncryptData_firstBlock henabled hrun
  obtain ⟨ek',hs',hfirst'⟩ := securityEncryptData_firstBlock henabled hrun'
  rw [heq,hfirst',blockCipher_congr hs' hs] at hfirst
  have hblocks := blockCipher_injective _ _ hfirst
  exact hne (firstBlock_injective (by rw [hlength]; rfl) hblocks.symm)

-- two messages that differ past the sixteenth byte
theorem separates_long (henabled : config.enable_encryption ≠ 0#8) (hlong : 16 < length.toNat) :
    ¬ SeparatesMessages config length := by
  intro h
  let ctx : AesContext := ⟨Vector.replicate 240 0#8,0⟩
  let data : Vector Uint8 length.toNat := Vector.replicate _ 0#8
  obtain ⟨ek,-,hrun⟩ := securityEncryptData_enabled henabled ctx length
  have hload : (load fun i : Fin 16 => get? (data.set 16 1#8 hlong) i) =
      load fun i : Fin 16 => get? data i := by
    congr 1
    funext i
    rw [get?_set,if_neg (by omega)]
  obtain ⟨out,hout,-⟩ := encryptBlockInto_spec ek 10 (by decide) data data hlong.le
  have hsame : encryptBlockInto ⟨ek,(10 : ℕ)⟩ (data.set 16 1#8 hlong) data =
      encryptBlockInto ⟨ek,(10 : ℕ)⟩ data data := by
    rw [encryptBlockInto,hload]
    rfl
  have hne : data ≠ data.set 16 1#8 hlong := by
    intro heq
    have hbyte := congrArg (fun v => get? v (16 : ℕ)) heq
    simp only [get?_set,if_true] at hbyte
    cases (get?_replicate 0#8 hlong).symm.trans hbyte
  refine h ctx ctx data _ data out out hne ?_ ?_ rfl
  · rw [hrun,hout]
    rfl
  · rw [hrun,hsame,hout]
    rfl

end WholeMessage

theorem whole_message_encrypted (config : SecuritySettings) (length : Uint32) :
    (InBounds config length ∧ SeparatesMessages config length) ↔
      config.enable_encryption = 0#8 ∨ length = 16#32 := by
  rcases eq_or_ne config.enable_encryption 0#8 with hoff | henabled
  · have hrun : ∀ ctx (data output : Vector Uint8 length.toNat),
        securityEncryptData config ctx data length output = some (-1,output) :=
      fun _ _ _ => if_pos hoff
    refine iff_of_true ⟨fun ctx data output => by rw [hrun]; rfl,?_⟩ (.inl hoff)
    intro ctx ctx' data data' output out out' _ h
    cases (hrun _ _ _).symm.trans h
  constructor
  · rintro ⟨hbounds,hseparates⟩
    let buffer : Vector Uint8 length.toNat := Vector.replicate _ 0#8
    have hge := (securityEncryptData_isSome_iff henabled _ length buffer buffer).mp
      (hbounds ⟨Vector.replicate 240 0#8,0⟩ buffer buffer)
    have hle : ¬ 16 < length.toNat := fun hlong => separates_long henabled hlong hseparates
    exact .inr (BitVec.eq_of_toNat_eq (by change _ = 16; omega))
  · rintro (hoff | rfl)
    · exact absurd hoff henabled
    · exact ⟨fun ctx data output =>
        (securityEncryptData_isSome_iff henabled ctx _ data output).mpr (by decide),
        separates_block henabled rfl⟩

-- a message of 5 bytes is read past its end, and of 32 bytes only the first 16 are encrypted
theorem long_message_lost : securityConfig.enable_encryption ≠ 0#8 ∧
    ¬ InBounds securityConfig 5#32 ∧ ¬ SeparatesMessages securityConfig 32#32 := by
  refine ⟨by decide,fun h => ?_,separates_long (by decide) (by decide)⟩
  have hge := (securityEncryptData_isSome_iff (by decide) _ 5#32 _ _).mp
    (h ⟨Vector.replicate 240 0#8,0⟩ (Vector.replicate 5 0#8) (Vector.replicate 5 0#8))
  exact absurd hge (by decide)

end KluxOS.Security
