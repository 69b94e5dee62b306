import KluxOS.Security.AesCbc
import KluxOS.Security.AesRoundTrip

namespace KluxOS.Aes

open CArray ByteMemory BufferMap

-- the status and the n bytes a call leaves at output
def outcome (output n : ℕ) (result : Option (ℤ × Mem)) : Option (ℤ × List Uint8) :=
  result.map fun r => (r.1,loadBytes r.2 output n)

-- each block but the last decrypts to itself
def BlocksKept (ctx : AesContext) (iv : Block) (c : ℕ → Block) (n : ℕ) : Prop :=
  ∀ k, k + 1 < n → ∀ t, aesDecryptBlock ctx (c k) = some t →
    xorBytes t (Cbc.previous iv c k) = c k

section Outcome

variable {a b n : ℕ} {m m' mem : Mem}

theorem xorBytes_cancel (t a b : Block) (h : xorBytes t a = xorBytes t b) : a = b := by
  apply ext_get
  intro i
  have hget := congrArg (fun v : Block => v.get i) h
  simpa [xorBytes] using hget

theorem loadBytes_eq_iff : loadBytes m a (16 * n) = loadBytes m' b (16 * n) ↔
    ∀ k < n, (load m (a + 16 * k) : Block) = load m' (b + 16 * k) := by
  simp only [loadBytes,List.map_inj_left,List.mem_range]
  constructor
  · intro h k hk
    apply ext_get
    intro i
    rw [load_get,load_get,Nat.add_assoc,Nat.add_assoc]
    exact h _ (by omega)
  · intro h x hx
    have hblock := congrArg (fun v : Block => v.get ⟨x % 16,Nat.mod_lt x (by decide)⟩)
      (h (x / 16) (by omega))
    simp only [load_get,Nat.add_assoc,Nat.div_add_mod] at hblock
    exact hblock

-- the bytes of m' at b, moved to a
def moved (mem m' : Mem) (a b n : ℕ) : Mem :=
  fun x => if Inside a (16 * n) x then m' (b + (x - a)) else mem x

theorem moved_load {k : ℕ} (hk : k < n) :
    (load (moved mem m' a b n) (a + 16 * k) : Block) = load m' (b + 16 * k) := by
  apply ext_get
  intro i
  rw [load_get,load_get,moved,if_pos (by unfold Inside; omega)]
  congr 1
  omega

end Outcome

section Calls

variable {ctx : AesContext} {iv buf out : ℕ} {length : Uint32} {n : ℕ} {mem : Mem}

theorem aesDecryptBlock_uniform (ctx : AesContext) :
    (∀ b, (aesDecryptBlock ctx b).isSome) ∨ ∀ b, aesDecryptBlock ctx b = none := by
  by_cases hrounds : 0 ≤ ctx.rounds ∧ ctx.rounds ≤ 14
  · refine .inl fun b => ?_
    obtain ⟨ek,rounds⟩ := ctx
    obtain ⟨r,rfl⟩ := Int.eq_ofNat_of_zero_le hrounds.1
    have hr : r ≤ 14 := Int.ofNat_le.mp hrounds.2
    rw [aesDecryptBlock_eq ek hr]
    rfl
  · refine .inr fun b => ?_
    have hkey : addRoundKey b ctx.expanded_key (ctx.rounds * 16) = none := by
      have hload : (load fun i : Fin 16 => get? ctx.expanded_key (ctx.rounds * 16 + i)) = none :=
        dif_neg fun h => by
          have hfirst : (get? ctx.expanded_key (ctx.rounds * 16 + (0 : Fin 16))).isSome := h 0
          rw [get?,dif_neg (by simp only [Fin.val_zero]; omega)] at hfirst
          cases hfirst
      rw [addRoundKey,hload]
      rfl
    rw [aesDecryptBlock,hkey]
    rfl

-- the bytes depend on the blocks alone, so a buffer to write them to can always be had
theorem outcome_eq {x y : Option (ℤ × Mem)} {P : (ℕ → Block) → Prop}
    (hx : ∀ r m, x = some (r,m) ↔ r = 0 ∧ P (fun k => load m (buf + 16 * k)) ∧
      ∀ z, ¬ Inside buf (16 * n) z → m z = mem z)
    (hy : ∀ r m, y = some (r,m) ↔ r = 0 ∧ P (fun k => load m (out + 16 * k)) ∧
      ∀ z, ¬ Inside out (16 * n) z → m z = mem z)
    (hcongr : ∀ c c' : ℕ → Block, (∀ k < n, c k = c' k) → (P c ↔ P c')) :
    outcome buf (16 * n) x = outcome out (16 * n) y := by
  cases y with
  | none =>
    cases x with
    | none => rfl
    | some r =>
      obtain ⟨-,hP,-⟩ := (hx r.1 r.2).mp rfl
      have hnone := (hy 0 (moved mem r.2 out buf n)).mpr
        ⟨rfl,(hcongr _ _ fun k hk => moved_load hk).mpr hP,fun z hz => if_neg hz⟩
      cases hnone
  | some s =>
    obtain ⟨hs,hP,-⟩ := (hy s.1 s.2).mp rfl
    have hin := (hx 0 (moved mem s.2 buf out n)).mpr
      ⟨rfl,(hcongr _ _ fun k hk => moved_load hk).mpr hP,fun z hz => if_neg hz⟩
    rw [hin]
    refine congrArg some (Prod.ext hs.symm ?_)
    exact loadBytes_eq_iff.mpr fun k hk => moved_load hk

theorem encrypt_in_place (hn : length.toNat = 16 * n) (hptr : iv ≠ 0 ∧ buf ≠ 0 ∧ out ≠ 0)
    (hio : Apart buf (16 * n) out (16 * n)) :
    outcome buf (16 * n) (aesEncryptCbc (some ctx) iv buf buf length mem) =
      outcome out (16 * n) (aesEncryptCbc (some ctx) iv buf out length mem) :=
  outcome_eq (aesEncryptCbc_iff mem hn ⟨hptr.1,hptr.2.1,hptr.2.1⟩ (.inr rfl))
    (aesEncryptCbc_iff mem hn hptr (.inl hio)) fun _ _ hc => Cbc.Encrypts.congr hc

theorem decryptInPlace_iff (hn : length.toNat = 16 * n) (hiv : iv ≠ 0) (hbuf : buf ≠ 0) (r : ℤ)
    (mem' : Mem) : aesDecryptCbc (some ctx) iv buf buf length mem = some (r,mem') ↔
      r = 0 ∧
      Cbc.DecryptsInPlace xorBytes (aesDecryptBlock ctx) (load mem iv)
        (fun k => load mem (buf + 16 * k)) (fun k => load mem' (buf + 16 * k)) n ∧
      ∀ x, ¬ Inside buf (16 * n) x → mem' x = mem x := by
  rw [aesDecryptCbc,if_neg (by omega),if_neg (by omega),show length.toNat / 16 = n by omega]
  refine (chainCall_iff (fun a c => (aesDecryptBlock ctx a).map fun t => xorBytes t c)
    (fun _ o => o) buf buf (fun s k hk hs => ?_) r mem').trans ?_
  · rw [cbcDecryptStep,load_input (.inr rfl) hk hs]
    cases aesDecryptBlock ctx (load mem (buf + 16 * k)) with
    | none => rfl
    | some t =>
      change some (_,load (store s.1 (buf + 16 * k) _) (buf + 16 * k)) = some _
      rw [load_store_same]
  · refine and_congr_right fun _ => and_congr_left fun _ => ?_
    exact forall_congr' fun k => forall_congr' fun _ => decrypted_iff

-- a context that decrypts no block decrypts the empty buffer
theorem decrypts_no_block (hnone : ∀ b, aesDecryptBlock ctx b = none)
    (P : ℕ → Block → Prop) : (∀ k < n, ∃ t, aesDecryptBlock ctx (load mem (buf + 16 * k)) = some t ∧
      P k t) ↔ n = 0 := by
  refine ⟨fun h => ?_,fun h k hk => absurd hk (by omega)⟩
  by_contra hpos
  obtain ⟨t,ht,-⟩ := h 0 (by omega)
  rw [hnone] at ht
  cases ht

theorem decrypt_in_place_none (hn : length.toNat = 16 * n) (hptr : iv ≠ 0 ∧ buf ≠ 0 ∧ out ≠ 0)
    (hio : Apart buf (16 * n) out (16 * n)) (hnone : ∀ b, aesDecryptBlock ctx b = none) :
    outcome buf (16 * n) (aesDecryptCbc (some ctx) iv buf buf length mem) =
      outcome out (16 * n) (aesDecryptCbc (some ctx) iv buf out length mem) := by
  have hplace : ∀ r m, aesDecryptCbc (some ctx) iv buf buf length mem = some (r,m) ↔
      r = 0 ∧ n = 0 ∧ ∀ x, ¬ Inside buf (16 * n) x → m x = mem x := fun r m => by
    rw [decryptInPlace_iff hn hptr.1 hptr.2.1,Cbc.DecryptsInPlace,decrypts_no_block hnone]
  have hplain : ∀ r m, aesDecryptCbc (some ctx) iv buf out length mem = some (r,m) ↔
      r = 0 ∧ n = 0 ∧ ∀ x, ¬ Inside out (16 * n) x → m x = mem x := fun r m => by
    rw [aesDecryptCbc_iff mem hn hptr hio,Cbc.Decrypts,decrypts_no_block hnone]
  exact outcome_eq (P := fun _ => n = 0) hplace hplain fun _ _ _ => Iff.rfl

theorem decrypt_in_place_iff (hn : length.toNat = 16 * n) (hptr : iv ≠ 0 ∧ buf ≠ 0 ∧ out ≠ 0)
    (hio : Apart buf (16 * n) out (16 * n)) :
    outcome buf (16 * n) (aesDecryptCbc (some ctx) iv buf buf length mem) =
        outcome out (16 * n) (aesDecryptCbc (some ctx) iv buf out length mem) ↔
      BlocksKept ctx (load mem iv) (fun k => load mem (buf + 16 * k)) n := by
  rcases aesDecryptBlock_uniform ctx with hsome | hnone
  · obtain ⟨⟨r,m⟩,hm⟩ := Option.isSome_iff_exists.mp
      (aesDecryptCbc_isSome mem hn ⟨hptr.1,hptr.2.1,hptr.2.1⟩ hsome)
    obtain ⟨⟨r',m'⟩,hm'⟩ := Option.isSome_iff_exists.mp (aesDecryptCbc_isSome mem hn hptr hsome)
    obtain ⟨rfl,hplace,-⟩ := (decryptInPlace_iff hn hptr.1 hptr.2.1 r m).mp hm
    obtain ⟨rfl,hplain,-⟩ := (aesDecryptCbc_iff mem hn hptr hio r' m').mp hm'
    have hbytes : outcome buf (16 * n) (some (0,m)) = outcome out (16 * n) (some (0,m')) ↔
        ∀ k < n, (load m (buf + 16 * k) : Block) = load m' (out + 16 * k) := by
      simp only [outcome,Option.map_some,Option.some.injEq,Prod.mk.injEq,true_and]
      exact loadBytes_eq_iff
    have hsame : (∀ k < n, (load m (buf + 16 * k) : Block) = load m' (out + 16 * k)) ↔
        Cbc.DecryptsInPlace xorBytes (aesDecryptBlock ctx) (load mem iv)
          (fun k => load mem (buf + 16 * k)) (fun k => load m' (out + 16 * k)) n :=
      ⟨fun h => (Cbc.DecryptsInPlace.congr h).mp hplace,fun h => hplace.unique h⟩
    rw [hm,hm',hbytes,hsame,hplain.in_place_iff xorBytes_cancel]
    exact Iff.rfl
  · refine iff_of_true (decrypt_in_place_none hn hptr hio hnone) fun k _ t ht => ?_
    rw [hnone] at ht
    cases ht

end Calls

theorem cbc_in_place (ctx : AesContext) (iv buf out : ℕ) (length : Uint32) (n : ℕ) (mem : Mem)
    (hn : length.toNat = 16 * n) (hptr : iv ≠ 0 ∧ buf ≠ 0 ∧ out ≠ 0)
    (hio : Apart buf (16 * n) out (16 * n)) :
    outcome buf (16 * n) (aesEncryptCbc (some ctx) iv buf buf length mem) =
        outcome out (16 * n) (aesEncryptCbc (some ctx) iv buf out length mem) ∧
      (outcome buf (16 * n) (aesDecryptCbc (some ctx) iv buf buf length mem) =
          outcome out (16 * n) (aesDecryptCbc (some ctx) iv buf out length mem) ↔
        BlocksKept ctx (load mem iv) (fun k => load mem (buf + 16 * k)) n) :=
  ⟨encrypt_in_place hn hptr hio,decrypt_in_place_iff hn hptr hio⟩

def zeroSchedule : AesContext := ⟨Vector.replicate 240 0#8,10⟩

-- under this iv the first block, all zeros, decrypts to itself; the second one is all ones
def selfDecrypted : Mem := fun x =>
  if Inside 16 16 x then 227#8 else if Inside 80 16 x then 1#8 else 0#8

theorem selfDecrypted_kept : BlocksKept zeroSchedule (load selfDecrypted 16)
    (fun k => load selfDecrypted (64 + 16 * k)) 2 := by
  have hfirst : (aesDecryptBlock zeroSchedule (load selfDecrypted 64)).map
      (fun t => xorBytes t (load selfDecrypted 16)) = some (load selfDecrypted 64) := by
    decide +kernel
  intro k hk t ht
  obtain rfl : k = 0 := by omega
  have ht : aesDecryptBlock zeroSchedule (load selfDecrypted 64) = some t := ht
  rw [ht] at hfirst
  exact Option.some.inj hfirst

theorem cbc_in_place_two_blocks :
    outcome 64 32 (aesEncryptCbc (some zeroSchedule) 16 64 64 32#32 selfDecrypted) =
        outcome 128 32 (aesEncryptCbc (some zeroSchedule) 16 64 128 32#32 selfDecrypted) ∧
      outcome 64 32 (aesDecryptCbc (some zeroSchedule) 16 64 64 32#32 selfDecrypted) =
        outcome 128 32 (aesDecryptCbc (some zeroSchedule) 16 64 128 32#32 selfDecrypted) := by
  obtain ⟨hencrypt,hdecrypt⟩ := cbc_in_place zeroSchedule 16 64 128 32#32 2 selfDecrypted rfl
    (by decide) (by decide)
  exact ⟨hencrypt,hdecrypt.mpr selfDecrypted_kept⟩

-- two zero blocks, iv and key zero as well
theorem decrypt_in_place_differs :
    ∃ ctx, aesInit (some ⟨Vector.replicate 240 0#8,0⟩) (some (List.replicate 16 0#8)) 16 =
        some (0,some ctx) ∧
      outcome 64 32 (aesDecryptCbc (some ctx) 16 64 64 32#32 fun _ => 0#8) ≠
        outcome 128 32 (aesDecryptCbc (some ctx) 16 64 128 32#32 fun _ => 0#8) := by
  have hlen : (List.replicate 16 0#8).length ∈ [16,24,32] := by decide
  obtain ⟨ek,hinit,-⟩ := aesInit_scheduled ⟨Vector.replicate 240 0#8,0⟩ hlen
  have hblock : ((aesInit (some ⟨Vector.replicate 240 0#8,0⟩) (some (List.replicate 16 0#8)) 16).bind
      fun r => r.2.bind fun ctx => (aesDecryptBlock ctx (load (fun _ => 0#8) 64)).map fun t =>
        decide (xorBytes t (load (fun _ => 0#8) 16) = load (fun _ => 0#8) 64)) = some false := by
    decide +kernel
  rw [List.length_replicate] at hinit
  rw [hinit,Option.bind_some,Option.bind_some,Option.map_eq_some_iff] at hblock
  obtain ⟨t,ht,hne⟩ := hblock
  refine ⟨_,hinit,fun h => ?_⟩
  have hkept := (decrypt_in_place_iff (n := 2) rfl (by decide) (by decide)).mp h
  exact absurd (hkept 0 (by decide) t ht) (of_decide_eq_false hne)

end KluxOS.Aes
