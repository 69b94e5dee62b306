import KluxOS.Security.AesCipher

namespace KluxOS.Aes

open CArray Fips197

def blockDecipher (unmix : Block → Block) (k : ℕ → Block) (rounds : ℕ) (input : Block) : Block :=
  let state := (List.range' 1 (rounds - 1)).reverse.foldl
    (fun state round => unmix (xorBlock (invSubBytes (invShiftRows state)) (k round)))
    (xorBlock input (k rounds))
  xorBlock (invSubBytes (invShiftRows state)) (k 0)

theorem aesDecryptBlock_eq (ek : ExpandedKey) {n : ℕ} (hn : n ≤ 14) (b : Block) :
    aesDecryptBlock ⟨ek,n⟩ b = some (blockDecipher invMixColumns (roundKey ek) n b) := by
  have hloop := foldlM_some
    (fun state (round : ℕ) => (addRoundKey (invSubBytes (invShiftRows state)) ek (round * 16)).bind
      fun state => some (invMixColumns state))
    (fun state round =>
      invMixColumns (xorBlock (invSubBytes (invShiftRows state)) (roundKey ek round)))
    (List.range' 1 (n - 1)).reverse (fun s i hi => by
      rw [List.mem_reverse,List.mem_range'_1] at hi
      rw [addRoundKey_eq _ ek (r := i) (by omega) rfl,Option.bind_some])
  simp only [aesDecryptBlock,Option.bind_eq_bind,Option.pure_def,Int.toNat_natCast]
  rw [addRoundKey_eq b ek (r := n) (by omega) rfl,Option.bind_some,hloop,Option.bind_some]
  exact addRoundKey_eq _ ek (r := 0) (by omega) (by simp)

@[simp] theorem xorBlock_xorBlock (a b : Block) : xorBlock (xorBlock a b) b = a := by
  apply ext_get
  intro i
  rw [xorBlock,xorBlock,forEach_get,forEach_get,BitVec.xor_assoc,BitVec.xor_self,BitVec.xor_zero]

theorem invShiftRows_get (s : Block) (r c : Fin 4) :
    (invShiftRows s).get (cell c r) = s.get (cell (c - r) r) := by
  fin_cases r <;> fin_cases c <;> simp [invShiftRows,cell,get_eq_getElem] <;> rfl

theorem invShiftRows_shiftRows (s : Block) : invShiftRows (shiftRows s) = s := by
  apply ext_get
  intro i
  obtain ⟨c,r,rfl⟩ := cell_surjective i
  rw [invShiftRows_get,shiftRows_get,sub_add_cancel]

theorem shiftRows_invShiftRows (s : Block) : shiftRows (invShiftRows s) = s := by
  apply ext_get
  intro i
  obtain ⟨c,r,rfl⟩ := cell_surjective i
  rw [shiftRows_get,invShiftRows_get,add_sub_cancel_right]

theorem invSubBytes_subBytes (s : Block) : invSubBytes (subBytes s) = s := by
  apply ext_get
  intro i
  simp [subBytes,invSubBytes,rsbox_sbox]

theorem subBytes_invSubBytes (s : Block) : subBytes (invSubBytes s) = s := by
  apply ext_get
  intro i
  simp [subBytes,invSubBytes,sbox_rsbox]

def substitute (s : Block) : Block := shiftRows (subBytes s)

def unsubstitute (s : Block) : Block := invSubBytes (invShiftRows s)

@[simp] theorem unsubstitute_substitute (s : Block) : unsubstitute (substitute s) = s := by
  rw [unsubstitute,substitute,invShiftRows_shiftRows,invSubBytes_subBytes]

@[simp] theorem substitute_unsubstitute (s : Block) : substitute (unsubstitute s) = s := by
  rw [unsubstitute,substitute,subBytes_invSubBytes,shiftRows_invShiftRows]

section
variable {mix unmix : Block → Block} (k : ℕ → Block) (n : ℕ)

-- the encryption rounds seen from one mixing layer to the next, as the decryption undoes them
theorem blockCipher_eq (b : Block) :
    blockCipher mix k n b =
      xorBlock ((List.range' 1 (n - 1)).foldl (fun t i => substitute (xorBlock (mix t) (k i)))
        (substitute (xorBlock b (k 0)))) (k n) := by
  have hmoved : (List.range' 1 (n - 1)).foldl (fun t i => substitute (xorBlock (mix t) (k i)))
      (substitute (xorBlock b (k 0))) =
      substitute ((List.range' 1 (n - 1)).foldl
        (fun s i => xorBlock (mix (substitute s)) (k i)) (xorBlock b (k 0))) :=
    List.foldl_hom substitute (fun _ _ => rfl)
  rw [hmoved]
  rfl

theorem foldl_undo {σ ι : Type} {f g : σ → ι → σ} (h : ∀ s i, g (f s i) i = s) (l : List ι)
    (s : σ) : l.reverse.foldl g (l.foldl f s) = s := by
  induction l generalizing s with
  | nil => rfl
  | cons i l ih => simp [List.foldl_append,ih,h]

theorem blockDecipher_blockCipher (h : Function.LeftInverse unmix mix) (b : Block) :
    blockDecipher unmix k n (blockCipher mix k n b) = b := by
  rw [blockCipher_eq,blockDecipher,xorBlock_xorBlock]
  change xorBlock (unsubstitute ((List.range' 1 (n - 1)).reverse.foldl
    (fun t i => unmix (xorBlock (unsubstitute t) (k i))) _)) (k 0) = b
  rw [foldl_undo (fun t i => by simp [h t])]
  simp

theorem blockCipher_blockDecipher (h : Function.LeftInverse mix unmix) (c : Block) :
    blockCipher mix k n (blockDecipher unmix k n c) = c := by
  rw [blockCipher_eq,blockDecipher]
  change xorBlock ((List.range' 1 (n - 1)).foldl _ (substitute (xorBlock (xorBlock (unsubstitute
    ((List.range' 1 (n - 1)).reverse.foldl
      (fun t i => unmix (xorBlock (unsubstitute t) (k i))) _)) (k 0)) (k 0)))) (k n) = c
  rw [xorBlock_xorBlock,substitute_unsubstitute]
  have hundo := foldl_undo (f := fun t i => unmix (xorBlock (unsubstitute t) (k i)))
    (g := fun t i => substitute (xorBlock (mix t) (k i))) (fun t i => by simp [h _])
    (List.range' 1 (n - 1)).reverse (xorBlock c (k n))
  rw [List.reverse_reverse] at hundo
  rw [hundo,xorBlock_xorBlock]

end

-- the matrix inv_mix_columns computes, {09}x^3 + {05}x^2 + {05}x + {01}; the inverse of
-- mixPolynomial is {0b}x^3 + {0d}x^2 + {09}x + {0e}
def invMixPolynomial : Word := ![⟨0x01#8⟩,⟨0x05#8⟩,⟨0x05#8⟩,⟨0x09#8⟩]

theorem ofColumn_invMixColumn (v : Vector Uint8 4) :
    ofColumn (invMixColumn v) = CyclicColumn.conv invMixPolynomial (ofColumn v) := by
  have h2 : (2 : Gf256) = 0 := CharTwo.two_eq_zero
  have h1 : (⟨0x01#8⟩ : Gf256) = 1 := rfl
  have h5 : (⟨0x05#8⟩ : Gf256) = ⟨0x02#8⟩ * ⟨0x02#8⟩ + 1 := by decide +kernel
  have h9 : (⟨0x09#8⟩ : Gf256) = ⟨0x02#8⟩ * ⟨0x02#8⟩ * ⟨0x02#8⟩ + 1 := by decide +kernel
  rw [CyclicColumn.conv_apply]
  funext r
  fin_cases r <;>
    simp only [ofColumn,invMixColumn,invMixPolynomial,xtime_eq,BitVec.xor_self,BitVec.zero_xor,
      Fin.zero_eta,Fin.mk_one,Fin.reduceFinMk,Fin.isValue,Fin.coe_ofNat_eq_mod,get_eq_getElem,
      Nat.zero_mod,Nat.one_mod,Nat.mod_succ,Nat.reduceMod,Nat.reduceAdd,Nat.succ_eq_add_one,
      Vector.getElem_mk,List.getElem_toArray,List.getElem_cons_zero,List.getElem_cons_succ,
      Matrix.cons_val,Matrix.cons_val_zero,Matrix.cons_val_one,Gf256.mk_xor,Gf256.mk_xtime,
      h1,h5,h9,one_mul]
  · ring
  · linear_combination ⟨0x02#8⟩ ^ 3 * (⟨v[1]⟩ : Gf256) * h2
  · linear_combination ⟨0x02#8⟩ ^ 3 * (⟨v[2]⟩ : Gf256) * h2
  · linear_combination ⟨0x02#8⟩ ^ 3 * (⟨v[3]⟩ : Gf256) * h2

theorem invMixPolynomial_sum : ∑ i, invMixPolynomial i = ⟨0x08#8⟩ := by decide +kernel

theorem mixPolynomial_sum : ∑ i, mixPolynomial i = 1 := by decide +kernel

def unmixPolynomial : Word := CyclicColumn.inv invMixPolynomial

def unmixColumns (s : Block) : Block :=
  eachColumn (fun v => wordBytes (CyclicColumn.conv unmixPolynomial (ofColumn v))) s

theorem ofBlock_invMixColumns (s : Block) :
    ofBlock (invMixColumns s) = mixColumnsWith invMixPolynomial (ofBlock s) :=
  ofBlock_eachColumn _ _ ofColumn_invMixColumn s

theorem ofBlock_unmixColumns (s : Block) :
    ofBlock (unmixColumns s) = mixColumnsWith unmixPolynomial (ofBlock s) :=
  ofBlock_eachColumn _ _ (fun _ => ofColumn_wordBytes _) s

theorem mixColumnsWith_mixColumnsWith (p q : Word) (s : State) :
    mixColumnsWith p (mixColumnsWith q s) = mixColumnsWith (CyclicColumn.conv p q) s := by
  funext r c
  simp only [mixColumnsWith,CyclicColumn.conv_assoc]

theorem mixColumnsWith_one (s : State) : mixColumnsWith (CyclicColumn.scalar 1) s = s := by
  funext r c
  simp only [mixColumnsWith,CyclicColumn.one_conv]

theorem invMixPolynomial_sum_ne_zero : ∑ i, invMixPolynomial i ≠ 0 := by
  rw [invMixPolynomial_sum]
  decide

theorem unmixColumns_invMixColumns : Function.LeftInverse unmixColumns invMixColumns := by
  intro s
  apply ofBlock_injective
  rw [ofBlock_unmixColumns,ofBlock_invMixColumns,mixColumnsWith_mixColumnsWith,unmixPolynomial,
    CyclicColumn.inv_conv invMixPolynomial_sum_ne_zero,mixColumnsWith_one]

theorem invMixColumns_unmixColumns : Function.LeftInverse invMixColumns unmixColumns := by
  intro s
  apply ofBlock_injective
  rw [ofBlock_invMixColumns,ofBlock_unmixColumns,mixColumnsWith_mixColumnsWith,unmixPolynomial,
    CyclicColumn.conv_inv invMixPolynomial_sum_ne_zero,mixColumnsWith_one]

theorem mixColumns_eq_unmixColumns (s : State) :
    mixColumnsWith mixPolynomial s = mixColumnsWith unmixPolynomial s ↔ s = 0 := by
  have hsum : ∑ i, CyclicColumn.conv invMixPolynomial mixPolynomial i ≠ 1 := by
    rw [CyclicColumn.sum_conv,invMixPolynomial_sum,mixPolynomial_sum]
    decide +kernel
  constructor
  · intro h
    have hfix := congrArg (mixColumnsWith invMixPolynomial) h
    rw [mixColumnsWith_mixColumnsWith,mixColumnsWith_mixColumnsWith,unmixPolynomial,
      CyclicColumn.conv_inv invMixPolynomial_sum_ne_zero,mixColumnsWith_one] at hfix
    have hcol : ∀ c, (fun r => s r c) = 0 := fun c =>
      (CyclicColumn.conv_fixed hsum).mp (funext fun r => congrFun (congrFun hfix r) c)
    funext r c
    exact congrFun (hcol c) r
  · rintro rfl
    funext r c
    simp [mixColumnsWith,CyclicColumn.conv]

theorem round_trip_iff (k : ℕ → Block) (n : ℕ) (b : Block) :
    blockDecipher invMixColumns k n (blockCipher mixColumns k n b) = b ↔
      blockCipher mixColumns k n b = blockCipher unmixColumns k n b := by
  constructor
  · intro h
    have hc := blockCipher_blockDecipher k n unmixColumns_invMixColumns
      (blockCipher mixColumns k n b)
    rw [h] at hc
    exact hc.symm
  · intro h
    rw [h]
    exact blockDecipher_blockCipher k n invMixColumns_unmixColumns b

theorem aes_round_trip_exact (ctx : AesContext) (key : List Uint8) (h : key.length ∈ [16,24,32]) :
    (∃ ek, aesInit (some ctx) (some key) key.length =
        some (0,some ⟨ek,(key.length / 4 + 6 : ℕ)⟩) ∧
      ∀ b, (aesEncryptBlock ⟨ek,(key.length / 4 + 6 : ℕ)⟩ b).bind
          (aesDecryptBlock ⟨ek,(key.length / 4 + 6 : ℕ)⟩) = some b ↔
        cipherWith mixPolynomial (key.length / 4 + 6)
            (keyExpansion (key.length / 4) (keyWord key)) (ofBlock b) =
          cipherWith unmixPolynomial (key.length / 4 + 6)
            (keyExpansion (key.length / 4) (keyWord key)) (ofBlock b)) ∧
    ∀ s, mixColumnsWith mixPolynomial s = mixColumnsWith unmixPolynomial s ↔ s = 0 := by
  obtain ⟨ek,hrun,hs⟩ := aesInit_scheduled ctx h
  have hle : key.length / 4 + 6 ≤ 14 := by
    simp only [List.mem_cons,List.not_mem_nil,or_false] at h
    omega
  refine ⟨⟨ek,hrun,fun b => ?_⟩,mixColumns_eq_unmixColumns⟩
  have hkey := fun round (hr : round ≤ key.length / 4 + 6) s => ofBlock_xorBlock hs hr s
  rw [aesEncryptBlock_eq ek hle,Option.bind_some,aesDecryptBlock_eq ek hle,Option.some.injEq,
    round_trip_iff,← ofBlock_injective.eq_iff,ofBlock_blockCipher ofBlock_mixColumns _ hkey,
    ofBlock_blockCipher ofBlock_unmixColumns _ hkey]
  rfl

theorem aes128_round_trip_exact :
    (List.replicate 16 0#8).length ∈ [16,24,32] ∧
    ∃ ek, ∀ b, (aesEncryptBlock ⟨ek,10⟩ b).bind (aesDecryptBlock ⟨ek,10⟩) = some b ↔
      cipherWith mixPolynomial 10 (keyExpansion 4 (keyWord (List.replicate 16 0#8))) (ofBlock b) =
      cipherWith unmixPolynomial 10 (keyExpansion 4 (keyWord (List.replicate 16 0#8)))
        (ofBlock b) := by
  have h : (List.replicate 16 0#8).length ∈ [16,24,32] := by decide
  obtain ⟨⟨ek,-,hiff⟩,-⟩ := aes_round_trip_exact ⟨Vector.replicate 240 0#8,0⟩ _ h
  exact ⟨h,ek,hiff⟩

theorem aes_round_trip_fails :
    ¬ ∀ (ctx ctx' : AesContext) (key : List Uint8) (b : Block), key.length ∈ [16,24,32] →
      aesInit (some ctx) (some key) key.length = some (0,some ctx') →
      (aesEncryptBlock ctx' b).bind (aesDecryptBlock ctx') = some b := by
  intro h
  have hrun : ((aesInit (some ⟨Vector.replicate 240 0#8,0⟩) (some (List.replicate 16 0#8)) 16).bind
      fun r => r.2.bind fun ctx => (aesEncryptBlock ctx (Vector.replicate 16 0#8)).bind
        (aesDecryptBlock ctx)) ≠ some (Vector.replicate 16 0#8) := by decide +kernel
  have hlen : (List.replicate 16 0#8).length ∈ [16,24,32] := by decide
  obtain ⟨ek,hinit,-⟩ := aesInit_scheduled ⟨Vector.replicate 240 0#8,0⟩ hlen
  have hround := h _ _ _ (Vector.replicate 16 0#8) hlen hinit
  rw [List.length_replicate] at hinit hround
  refine hrun ?_
  rw [hinit,Option.bind_some,Option.bind_some]
  exact hround

end KluxOS.Aes
