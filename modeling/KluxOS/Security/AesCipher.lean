import KluxOS.Security.AesKeySchedule

namespace KluxOS.Aes

open CArray Fips197

def roundKey (ek : ExpandedKey) (round : ℕ) : Block :=
  Vector.ofFn fun i => (get? ek ((round * 16 + i : ℕ) : ℤ)).getD 0

def xorBlock (a b : Block) : Block := forEach (fun i x => x ^^^ b.get i) a

def blockCipher (mix : Block → Block) (k : ℕ → Block) (rounds : ℕ) (input : Block) : Block :=
  let state := (List.range' 1 (rounds - 1)).foldl
    (fun state round => xorBlock (mix (shiftRows (subBytes state))) (k round)) (xorBlock input (k 0))
  xorBlock (shiftRows (subBytes state)) (k rounds)

theorem addRoundKey_eq (s : Block) (ek : ExpandedKey) {r : ℕ} (h : r < 15) {off : ℤ}
    (hoff : off = r * 16) : addRoundKey s ek off = some (xorBlock s (roundKey ek r)) := by
  have hload : (load fun i : Fin 16 => get? ek (off + i)) = some (roundKey ek r) := by
    refine load_some fun i => ?_
    have hi : get? ek ((r * 16 + i : ℕ) : ℤ) = some _ :=
      get?_eq ek (k := r * 16 + i) (by omega) rfl
    rw [hi,show off + i = ((r * 16 + i : ℕ) : ℤ) by rw [hoff]; push_cast; rfl,hi]
    rfl
  rw [addRoundKey,hload]
  rfl

theorem aesEncryptBlock_eq (ek : ExpandedKey) {n : ℕ} (hn : n ≤ 14) (b : Block) :
    aesEncryptBlock ⟨ek,n⟩ b = some (blockCipher mixColumns (roundKey ek) n b) := by
  have hloop := foldlM_some
    (fun state (round : ℕ) => addRoundKey (mixColumns (shiftRows (subBytes state))) ek (round * 16))
    (fun state round => xorBlock (mixColumns (shiftRows (subBytes state))) (roundKey ek round))
    (List.range' 1 (n - 1)) (fun s i hi => by
      rw [List.mem_range'_1] at hi
      exact addRoundKey_eq _ ek (by omega) rfl)
  rw [aesEncryptBlock,addRoundKey_eq b ek (r := 0) (by omega) (by simp)]
  simp only [Option.bind_eq_bind,Option.bind_some,Int.toNat_natCast,hloop]
  exact addRoundKey_eq _ ek (by omega) rfl

section
variable {mix : Block → Block} {p : Word} {k : ℕ → Block} {w : ℕ → Word}

theorem ofBlock_blockCipher (hmix : ∀ s, ofBlock (mix s) = mixColumnsWith p (ofBlock s)) (n : ℕ)
    (hk : ∀ round ≤ n, ∀ s, ofBlock (xorBlock s (k round)) =
      Fips197.addRoundKey (ofBlock s) w round) (b : Block) :
    ofBlock (blockCipher mix k n b) = cipherWith p n w (ofBlock b) := by
  have hloop : ∀ l : List ℕ, (∀ i ∈ l, i ≤ n) → ∀ s,
      ofBlock (l.foldl (fun state round =>
        xorBlock (mix (shiftRows (subBytes state))) (k round)) s) =
      l.foldl (round p w) (ofBlock s) := by
    intro l
    induction l with
    | nil => intro _ s; rfl
    | cons i l ih =>
      intro hl s
      rw [List.foldl_cons,List.foldl_cons,ih (fun j hj => hl j (by simp [hj])),
        hk i (hl i (by simp)),hmix,ofBlock_shiftRows,ofBlock_subBytes]
      rfl
  rw [blockCipher,cipherWith,hk n le_rfl,ofBlock_shiftRows,ofBlock_subBytes,hloop,hk 0 (by omega)]
  intro i hi
  rw [List.mem_range'_1] at hi
  omega

end

theorem ofBlock_xorBlock {key : List Uint8} {start ek : ExpandedKey} {n : ℕ}
    (h : Scheduled key start ek (4 * (n + 1))) {round : ℕ} (hr : round ≤ n) (s : Block) :
    ofBlock (xorBlock s (roundKey ek round)) =
      Fips197.addRoundKey (ofBlock s) (schedule key) round := by
  funext r c
  have hw := h.words (4 * round + c) (by omega) r
  simp only [ofBlock,xorBlock,forEach_get,roundKey,get_ofFn,Fips197.addRoundKey,Gf256.mk_xor]
  rw [show round * 16 + (cell c r).val = 4 * (4 * round + c) + r by simp only [cell]; omega,hw]
  rfl

theorem aes_conforms_to_fips197 (ctx : AesContext) (key : List Uint8)
    (h : key.length ∈ [16,24,32]) :
    ∃ ek, aesInit (some ctx) (some key) key.length =
        some (0,some ⟨ek,(key.length / 4 + 6 : ℕ)⟩) ∧
      (∀ i < 4 * (key.length / 4 + 6 + 1), ∀ r : Fin 4, get? ek ((4 * i + r : ℕ) : ℤ) =
        some (keyExpansion (key.length / 4) (keyWord key) i r).bits) ∧
      (∀ n : ℕ, 16 * (key.length / 4 + 6 + 1) ≤ n → get? ek n = get? ctx.expanded_key n) ∧
      ∀ b, ∃ c, aesEncryptBlock ⟨ek,(key.length / 4 + 6 : ℕ)⟩ b = some c ∧
        ofBlock c =
          cipher (key.length / 4 + 6) (keyExpansion (key.length / 4) (keyWord key)) (ofBlock b) := by
  obtain ⟨ek,hrun,hs⟩ := aesInit_scheduled ctx h
  have hle : key.length / 4 + 6 ≤ 14 := by
    simp only [List.mem_cons,List.not_mem_nil,or_false] at h
    omega
  refine ⟨ek,hrun,hs.words,fun n hn => hs.rest n (by omega),fun b => ?_⟩
  exact ⟨_,aesEncryptBlock_eq ek hle b,
    ofBlock_blockCipher ofBlock_mixColumns _ (fun round hr s => ofBlock_xorBlock hs hr s) b⟩

theorem aes128_conforms_to_fips197 :
    (List.replicate 16 0#8).length ∈ [16,24,32] ∧
    ∃ ek, aesInit (some ⟨Vector.replicate 240 0#8,0⟩) (some (List.replicate 16 0#8)) 16 =
        some (0,some ⟨ek,10⟩) ∧
      ∀ b, ∃ c, aesEncryptBlock ⟨ek,10⟩ b = some c ∧
        ofBlock c = cipher 10 (keyExpansion 4 (keyWord (List.replicate 16 0#8))) (ofBlock b) := by
  have h : (List.replicate 16 0#8).length ∈ [16,24,32] := by decide
  obtain ⟨ek,hrun,-,-,henc⟩ :=
    aes_conforms_to_fips197 ⟨Vector.replicate 240 0#8,0⟩ (List.replicate 16 0#8) h
  exact ⟨h,ek,hrun,henc⟩

end KluxOS.Aes
