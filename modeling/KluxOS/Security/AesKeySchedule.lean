import KluxOS.Security.AesState

namespace KluxOS.Aes

open CArray Fips197

def keyWord (key : List Uint8) (i : ℕ) : Word := fun r => ⟨key.getD (4 * i + r) 0⟩

def schedule (key : List Uint8) : ℕ → Word := keyExpansion (key.length / 4) (keyWord key)

def wordBytes (w : Word) : Vector Uint8 4 := Vector.ofFn fun r => (w r).bits

structure Scheduled (key : List Uint8) (start ek : ExpandedKey) (m : ℕ) : Prop where
  words : ∀ i < m, ∀ r : Fin 4, get? ek ((4 * i + r : ℕ) : ℤ) = some (schedule key i r).bits
  rest : ∀ n : ℕ, 4 * m ≤ n → get? ek n = get? start n

theorem ofColumn_wordBytes (w : Word) : ofColumn (wordBytes w) = w := by
  funext r
  simp [ofColumn,wordBytes]

theorem ofColumn_sbox (v : Vector Uint8 4) :
    ofColumn (forEach (fun _ b => sbox b) v) = subWord (ofColumn v) := by
  funext r
  simp only [ofColumn,forEach_get,sbox_algebraic]
  rfl

theorem rcon_get (k : Fin 10) : (⟨rcon.get k⟩ : Gf256) = Fips197.rcon (k + 1) 0 := by
  revert k
  decide +kernel

theorem ofColumn_rotate (v : Vector Uint8 4) :
    ofColumn #v[v.get 1,v.get 2,v.get 3,v.get 0] = rotWord (ofColumn v) := by
  funext r
  fin_cases r <;> rfl

theorem ofColumn_xor_rcon (v : Vector Uint8 4) (k : ℕ) (b : Uint8)
    (hb : (⟨b⟩ : Gf256) = Fips197.rcon k 0) :
    ofColumn (v.set 0 (v.get 0 ^^^ b) (Nat.succ_pos 3)) = ofColumn v + Fips197.rcon k := by
  funext r
  fin_cases r
  · simpa [ofColumn,get_eq_getElem,Gf256.mk_xor] using hb
  all_goals simp [ofColumn,get_eq_getElem,Fips197.rcon]

theorem scheduleCore_word (temp : Vector Uint8 4) (nk i : ℕ) (h0 : 0 < nk) (hi : nk ≤ i)
    (hr : i / nk ≤ 10) :
    ∃ t, scheduleCore temp (4 * nk) (4 * i) = some t ∧ ofColumn t =
      (if i % nk = 0 then subWord (rotWord (ofColumn temp)) + Fips197.rcon (i / nk)
       else if nk > 6 ∧ i % nk = 4 then subWord (ofColumn temp)
       else ofColumn temp) := by
  have hmod : 4 * i % (4 * nk) = 4 * (i % nk) := Nat.mul_mod_mul_left 4 i nk
  have hdiv : 4 * i / (4 * nk) = i / nk := Nat.mul_div_mul_left i nk (by omega)
  have hpos : 0 < i / nk := Nat.div_pos hi h0
  unfold scheduleCore
  rw [hmod,hdiv]
  by_cases h1 : i % nk = 0
  · have hget := get?_eq rcon (i := (i / nk : ℕ) - 1) (k := i / nk - 1) (by omega) (by omega)
    have hword := rcon_get ⟨i / nk - 1,by omega⟩
    rw [Nat.sub_add_cancel hpos] at hword
    simp only [h1,Nat.mul_zero,if_true]
    rw [hget]
    refine ⟨_,rfl,?_⟩
    refine (ofColumn_xor_rcon _ _ _ hword).trans ?_
    rw [ofColumn_sbox]
    exact congrArg (fun w => subWord w + Fips197.rcon (i / nk)) (ofColumn_rotate temp)
  · rw [if_neg (by omega),if_neg h1]
    by_cases h2 : nk > 6 ∧ i % nk = 4
    · rw [if_pos (by omega),if_pos h2]
      exact ⟨_,rfl,ofColumn_sbox temp⟩
    · rw [if_neg (by omega),if_neg h2]
      exact ⟨_,rfl,rfl⟩

section
variable {key : List Uint8} {nk : ℕ} (hlen : key.length = 4 * nk) (h0 : 0 < nk)
include hlen h0

theorem schedule_ge {i : ℕ} (hi : nk ≤ i) :
    schedule key i = schedule key (i - nk) +
      (if i % nk = 0 then subWord (rotWord (schedule key (i - 1))) + Fips197.rcon (i / nk)
       else if nk > 6 ∧ i % nk = 4 then subWord (schedule key (i - 1))
       else schedule key (i - 1)) := by
  rw [schedule,show key.length / 4 = nk by omega]
  exact keyExpansion_ge _ h0 hi

theorem copyKey_scheduled (ek : ExpandedKey) (hnk : nk ≤ 60) :
    ∃ ek', copyKey key ek (4 * nk) = some ek' ∧ Scheduled key ek ek' nk := by
  obtain ⟨ek',hrun,hget⟩ := storeLoop_spec (fun _ i => key[i]?) (fun i => key.getD i 0) 0 ek
    (4 * nk) (by omega) (fun _ _ j hj => by
      rw [List.getD_eq_getElem?_getD,List.getElem?_eq_getElem (by omega),Option.getD_some])
  refine ⟨ek',hrun,fun i hi r => ?_,fun n hn => ?_⟩
  · rw [hget,if_pos (by omega),schedule,keyExpansion_lt _ _ (by omega)]
    rfl
  · rw [hget,if_neg (by omega)]

theorem expandKeyStep_scheduled {start ek : ExpandedKey} {i : ℕ} (h : Scheduled key start ek i)
    (hi : nk ≤ i) (hb : i < 60) (hr : i / nk ≤ 10) :
    ∃ ek', expandKeyStep (4 * nk) (4 * i) ek = some ek' ∧ Scheduled key start ek' (i + 1) := by
  have hload : (load fun j : Fin 4 => get? ek (((4 * i : ℕ) : ℤ) - 4 + j)) =
      some (wordBytes (schedule key (i - 1))) := by
    refine load_some fun j => ?_
    rw [← h.words (i - 1) (by omega) j]
    congr 1
    omega
  obtain ⟨t,ht,hword⟩ := scheduleCore_word (wordBytes (schedule key (i - 1))) nk i h0 hi hr
  rw [ofColumn_wordBytes,← sub_eq_iff_eq_add'.mpr (schedule_ge hlen h0 hi)] at hword
  have hbyte : ∀ j : Fin 4, (schedule key i j).bits =
      (schedule key (i - nk) j).bits ^^^ t.get j := by
    intro j
    have hj : schedule key i j = schedule key (i - nk) j + ofColumn t j := by
      rw [hword]
      simp
    rw [hj]
    rfl
  obtain ⟨ek',hrun,hget⟩ := storeLoop_spec
    (fun ek j => do
      let b ← get? ek (((4 * i : ℕ) : ℤ) - (4 * nk : ℕ) + j)
      let v ← get? t j
      return b ^^^ v)
    (fun j => (schedule key i (Fin.ofNat 4 j)).bits) (4 * i) ek 4 (by omega) (fun b hlow j hj => by
      have hk := h.words (i - nk) (by omega) ⟨j,hj⟩
      rw [show ((4 * i : ℕ) : ℤ) - (4 * nk : ℕ) + j = ((4 * (i - nk) + j : ℕ) : ℤ) by omega,
        hlow _ (by omega),hk,get?_eq t hj rfl,show Fin.ofNat 4 j = ⟨j,hj⟩ from
          Fin.ext (Nat.mod_eq_of_lt hj),hbyte]
      rfl)
  refine ⟨ek',?_,fun k hk r => ?_,fun n hn => ?_⟩
  · rw [expandKeyStep,hload]
    simp only [Option.bind_eq_bind,Option.bind_some,ht]
    exact hrun
  · rw [hget]
    by_cases hki : k = i
    · subst hki
      rw [if_pos (by omega),show Fin.ofNat 4 (4 * k + r - 4 * k) = r from
        Fin.ext (by simp [Fin.ofNat])]
    · rw [if_neg (by omega)]
      exact h.words k (by omega) r
  · rw [hget,if_neg (by omega)]
    exact h.rest n (by omega)

theorem expandKeyLoop_scheduled {start : ExpandedKey} {round_count : ℕ} (hrc : round_count ≤ 14)
    (hr : (4 * (round_count + 1) - 1) / nk ≤ 10) (fuel i : ℕ) {ek : ExpandedKey}
    (h : Scheduled key start ek i) (hi : nk ≤ i) (hend : i ≤ 4 * (round_count + 1))
    (hfuel : 4 * (round_count + 1) - i < fuel) :
    ∃ ek', expandKeyLoop (4 * nk) round_count fuel (4 * i) ek = some ek' ∧
      Scheduled key start ek' (4 * (round_count + 1)) := by
  induction fuel generalizing i ek with
  | zero => omega
  | succ fuel ih =>
    rw [expandKeyLoop]
    by_cases hlt : i < 4 * (round_count + 1)
    · have hq : i / nk ≤ 10 := (Nat.div_le_div_right (by omega)).trans hr
      obtain ⟨ek1,hstep,h1⟩ := expandKeyStep_scheduled hlen h0 h hi (by omega) hq
      rw [if_pos (by omega),hstep]
      exact ih (i + 1) h1 (by omega) (by omega) (by omega)
    · have he : i = 4 * (round_count + 1) := by omega
      rw [if_neg (by omega)]
      exact ⟨ek,rfl,he ▸ h⟩

theorem expandKey_scheduled (ek : ExpandedKey) {round_count : ℕ} (hrc : round_count ≤ 14)
    (hnk : nk ≤ 4 * (round_count + 1)) (hr : (4 * (round_count + 1) - 1) / nk ≤ 10) :
    ∃ ek', expandKey key ek (4 * nk) round_count = some ek' ∧
      Scheduled key ek ek' (4 * (round_count + 1)) := by
  obtain ⟨ek1,hcopy,h1⟩ := copyKey_scheduled hlen h0 ek (by omega)
  rw [expandKey,hcopy]
  exact expandKeyLoop_scheduled hlen h0 hrc hr _ nk h1 le_rfl hnk (by omega)

end

theorem aesRounds_eq {size : ℕ} (h : size ∈ [16,24,32]) : aesRounds size = some (size / 4 + 6) := by
  simp only [List.mem_cons,List.not_mem_nil,or_false] at h
  rcases h with rfl | rfl | rfl <;> rfl

theorem aesInit_scheduled (ctx : AesContext) {key : List Uint8} (h : key.length ∈ [16,24,32]) :
    ∃ ek, aesInit (some ctx) (some key) key.length =
        some (0,some ⟨ek,(key.length / 4 + 6 : ℕ)⟩) ∧
      Scheduled key ctx.expanded_key ek (4 * (key.length / 4 + 6 + 1)) := by
  have hr := aesRounds_eq h
  have hnk : key.length = 4 * (key.length / 4) ∧ 0 < key.length / 4 ∧ key.length / 4 + 6 ≤ 14 ∧
      (4 * (key.length / 4 + 6 + 1) - 1) / (key.length / 4) ≤ 10 := by
    simp only [List.mem_cons,List.not_mem_nil,or_false] at h
    rcases h with h | h | h <;> simp [h]
  obtain ⟨hlen,h0,hrc,hdiv⟩ := hnk
  obtain ⟨ek,hrun,hs⟩ := expandKey_scheduled hlen h0 ctx.expanded_key hrc (by omega) hdiv
  rw [← hlen] at hrun
  refine ⟨ek,?_,hs⟩
  rw [aesInit,hr]
  simp only [hrun]
  rfl

end KluxOS.Aes
