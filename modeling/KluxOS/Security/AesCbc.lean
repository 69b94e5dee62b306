import KluxOS.Lib.BufferMap
import KluxOS.Lib.Cbc
import KluxOS.Security.AesCipher

namespace KluxOS.Aes

open CArray ByteMemory BufferMap

abbrev Mem := Memory Uint8

def xorBytes (a b : Block) : Block := Vector.ofFn fun i => a.get i ^^^ b.get i

def cbcEncryptStep (ctx : AesContext) (input output : ℕ) (s : Mem × Block) (k : ℕ) :
    Option (Mem × Block) := do
  let block := xorBytes (load s.1 (input + 16 * k)) s.2
  let out ← aesEncryptBlock ctx block
  let mem := store s.1 (output + 16 * k) out
  return (mem,load mem (output + 16 * k))

def aesEncryptCbc (ctx : Option AesContext) (iv input output : ℕ) (length : Uint32) (mem : Mem) :
    Option (ℤ × Mem) :=
  match ctx with
  | none => some (-1,mem)
  | some ctx =>
    if iv = 0 ∨ input = 0 ∨ output = 0 then some (-1,mem)
    else if length.toNat % 16 ≠ 0 then some (-2,mem)
    else do
      let s ← (List.range (length.toNat / 16)).foldlM (cbcEncryptStep ctx input output)
        (mem,load mem iv)
      return (0,s.1)

def cbcDecryptStep (ctx : AesContext) (input output : ℕ) (s : Mem × Block) (k : ℕ) :
    Option (Mem × Block) := do
  let temp ← aesDecryptBlock ctx (load s.1 (input + 16 * k))
  let mem := store s.1 (output + 16 * k) (xorBytes temp s.2)
  return (mem,load mem (input + 16 * k))

def aesDecryptCbc (ctx : Option AesContext) (iv input output : ℕ) (length : Uint32) (mem : Mem) :
    Option (ℤ × Mem) :=
  match ctx with
  | none => some (-1,mem)
  | some ctx =>
    if iv = 0 ∨ input = 0 ∨ output = 0 then some (-1,mem)
    else if length.toNat % 16 ≠ 0 then some (-2,mem)
    else do
      let s ← (List.range (length.toNat / 16)).foldlM (cbcDecryptStep ctx input output)
        (mem,load mem iv)
      return (0,s.1)

section
variable (out : Block → Block → Option Block) (next : Block → Block → Block) (input output : ℕ)
  (mem : Mem) (iv : Block)

-- both modes: a block read from input, one written to output, and the chaining value for the next
def chainValue (mem' : Mem) : ℕ → Block :=
  Cbc.previous iv fun k => next (load mem (input + 16 * k)) (load mem' (output + 16 * k))

structure Chains (n : ℕ) (s : Mem × Block) : Prop where
  blocks : ∀ k < n, out (load mem (input + 16 * k)) (chainValue next input output mem iv s.1 k) =
    some (load s.1 (output + 16 * k))
  frame : ∀ x, ¬ Inside output (16 * n) x → s.1 x = mem x
  last : s.2 = chainValue next input output mem iv s.1 n

variable {out next input output mem iv}

theorem chainValue_congr {m m' : Mem} {k : ℕ}
    (h : ∀ j < k, (load m (output + 16 * j) : Block) = load m' (output + 16 * j)) :
    chainValue next input output mem iv m k = chainValue next input output mem iv m' k :=
  Cbc.previous_congr fun j hj => by rw [h j hj]

theorem Chains.zero_iff {s : Mem × Block} :
    Chains out next input output mem iv 0 s ↔ (mem,iv) = s := by
  constructor
  · intro h
    refine Prod.ext ?_ h.last.symm
    funext x
    exact (h.frame x (by unfold Inside; omega)).symm
  · rintro rfl
    exact ⟨fun k hk => absurd hk (Nat.not_lt_zero k),fun _ _ => rfl,rfl⟩

theorem Chains.extend {n : ℕ} {s : Mem × Block} (h : Chains out next input output mem iv n s)
    {o : Block} (ho : out (load mem (input + 16 * n)) s.2 = some o) :
    Chains out next input output mem iv (n + 1)
      (store s.1 (output + 16 * n) o,next (load mem (input + 16 * n)) o) := by
  have hold : ∀ k < n, (load (store s.1 (output + 16 * n) o) (output + 16 * k) : Block) =
      load s.1 (output + 16 * k) := fun k hk =>
    load_store_apart s.1 o (by unfold Apart; omega)
  have hchain : ∀ k ≤ n, chainValue next input output mem iv (store s.1 (output + 16 * n) o) k =
      chainValue next input output mem iv s.1 k := fun k hk =>
    chainValue_congr fun j hj => hold j (by omega)
  refine ⟨fun k hk => ?_,fun x hx => ?_,?_⟩
  · rw [hchain k (by omega)]
    rcases Nat.lt_succ_iff_lt_or_eq.mp hk with hk | rfl
    · rw [hold k hk,h.blocks k hk]
    · rw [← h.last,ho,load_store_same]
  · exact (store_outside _ _ (by unfold Inside at *; omega)).trans
      (h.frame x (by unfold Inside at *; omega))
  · rw [chainValue,Cbc.previous,load_store_same]

theorem Chains.split {n : ℕ} {s : Mem × Block}
    (h : Chains out next input output mem iv (n + 1) s) :
    ∃ s0 o, Chains out next input output mem iv n s0 ∧
      out (load mem (input + 16 * n)) s0.2 = some o ∧
      s = (store s0.1 (output + 16 * n) o,next (load mem (input + 16 * n)) o) := by
  let m0 : Mem := fun x => if Inside output (16 * n) x then s.1 x else mem x
  have hold : ∀ k < n, (load m0 (output + 16 * k) : Block) = load s.1 (output + 16 * k) :=
    fun k hk => load_congr fun x hx => if_pos (by unfold Inside at *; omega)
  have hchain : ∀ k ≤ n, chainValue next input output mem iv m0 k =
      chainValue next input output mem iv s.1 k := fun k hk =>
    chainValue_congr fun j hj => hold j (by omega)
  refine ⟨(m0,chainValue next input output mem iv s.1 n),load s.1 (output + 16 * n),
    ⟨fun k hk => ?_,fun x hx => if_neg hx,(hchain n le_rfl).symm⟩,h.blocks n (by omega),?_⟩
  · rw [hchain k (by omega),hold k hk]
    exact h.blocks k (by omega)
  · refine Prod.ext ?_ h.last
    refine store_load m0 s.1 _ rfl fun x hx => ?_
    by_cases hn : Inside output (16 * n) x
    · exact (if_pos hn).symm
    · rw [h.frame x (by unfold Inside at *; omega)]
      exact (if_neg hn).symm

theorem chainLoop_iff {step : Mem × Block → ℕ → Option (Mem × Block)} {n : ℕ}
    (hstep : ∀ s : Mem × Block, ∀ k < n, (∀ x, ¬ Inside output (16 * k) x → s.1 x = mem x) →
      step s k = (out (load mem (input + 16 * k)) s.2).map fun o =>
        (store s.1 (output + 16 * k) o,next (load mem (input + 16 * k)) o))
    (m : ℕ) (hm : m ≤ n) (s : Mem × Block) :
    (List.range m).foldlM step (mem,iv) = some s ↔ Chains out next input output mem iv m s := by
  induction m generalizing s with
  | zero =>
    rw [Chains.zero_iff]
    exact Option.some_inj
  | succ m ih =>
    have hrun : ∀ s0, Chains out next input output mem iv m s0 →
        step s0 m = (out (load mem (input + 16 * m)) s0.2).map fun o =>
          (store s0.1 (output + 16 * m) o,next (load mem (input + 16 * m)) o) := fun s0 h0 =>
      hstep s0 m (by omega) h0.frame
    rw [List.range_succ,List.foldlM_append,Option.bind_eq_bind,Option.bind_eq_some_iff]
    simp only [List.foldlM_cons,List.foldlM_nil,bind_pure]
    constructor
    · rintro ⟨s0,h0,hs⟩
      have h0 := (ih (by omega) s0).mp h0
      rw [hrun s0 h0,Option.map_eq_some_iff] at hs
      obtain ⟨o,ho,rfl⟩ := hs
      exact h0.extend ho
    · intro h
      obtain ⟨s0,o,h0,ho,rfl⟩ := h.split
      exact ⟨s0,(ih (by omega) s0).mpr h0,by rw [hrun s0 h0,ho]; rfl⟩

variable (out next input output) in
-- a call of either mode: the loop, then its status
theorem chainCall_iff {step : Mem × Block → ℕ → Option (Mem × Block)} {n : ℕ}
    (hstep : ∀ s : Mem × Block, ∀ k < n, (∀ x, ¬ Inside output (16 * k) x → s.1 x = mem x) →
      step s k = (out (load mem (input + 16 * k)) s.2).map fun o =>
        (store s.1 (output + 16 * k) o,next (load mem (input + 16 * k)) o))
    (r : ℤ) (mem' : Mem) :
    (((List.range n).foldlM step (mem,iv)).bind fun s => some ((0 : ℤ),s.1)) = some (r,mem') ↔
      r = 0 ∧
      (∀ k < n, out (load mem (input + 16 * k)) (chainValue next input output mem iv mem' k) =
        some (load mem' (output + 16 * k))) ∧
      ∀ x, ¬ Inside output (16 * n) x → mem' x = mem x := by
  rw [Option.bind_eq_some_iff]
  constructor
  · rintro ⟨s,hs,he⟩
    obtain ⟨rfl,rfl⟩ := Prod.mk.inj (Option.some.inj he)
    have hchains := (chainLoop_iff hstep n le_rfl s).mp hs
    exact ⟨rfl,hchains.blocks,hchains.frame⟩
  · rintro ⟨rfl,hblocks,hframe⟩
    refine ⟨(mem',chainValue next input output mem iv mem' n),?_,rfl⟩
    exact (chainLoop_iff hstep n le_rfl _).mpr ⟨hblocks,hframe,rfl⟩

theorem chainLoop_isSome {step : Mem × Block → ℕ → Option (Mem × Block)}
    (hstep : ∀ s k, (step s k).isSome) (l : List ℕ) (s : Mem × Block) :
    (l.foldlM step s).isSome := by
  induction l generalizing s with
  | nil => rfl
  | cons k l ih =>
    obtain ⟨s1,hs1⟩ := Option.isSome_iff_exists.mp (hstep s k)
    rw [List.foldlM_cons,hs1]
    exact ih s1

end

theorem xorBytes_xorBytes (a b : Block) : xorBytes (xorBytes a b) b = a := by
  apply ext_get
  intro i
  rw [xorBytes,xorBytes,get_ofFn,get_ofFn,BitVec.xor_assoc,BitVec.xor_self,BitVec.xor_zero]

theorem decrypted_iff {ctx : AesContext} {c previous p : Block} :
    ((aesDecryptBlock ctx c).map fun t => xorBytes t previous) = some p ↔
      ∃ t, aesDecryptBlock ctx c = some t ∧ p = xorBytes t previous := by
  rw [Option.map_eq_some_iff]
  exact exists_congr fun t => and_congr_right fun _ => eq_comm

-- the first k blocks of output are written, the k-th of input is still to be read
theorem load_input {input output n k : ℕ} (hio : ApartOrSame input output (16 * n))
    {mem m : Mem} (hk : k < n) (h : ∀ x, ¬ Inside output (16 * k) x → m x = mem x) :
    (load m (input + 16 * k) : Block) = load mem (input + 16 * k) :=
  load_congr fun x hx => h x (by unfold ApartOrSame Apart Inside at *; omega)

section
variable {ctx : AesContext} {iv input output : ℕ} {length : Uint32} {n : ℕ} (mem : Mem)
  (hn : length.toNat = 16 * n) (hptr : iv ≠ 0 ∧ input ≠ 0 ∧ output ≠ 0)
  (hio : Apart input (16 * n) output (16 * n))
include hn hptr

theorem aesEncryptCbc_iff (hio : ApartOrSame input output (16 * n)) (r : ℤ) (mem' : Mem) :
    aesEncryptCbc (some ctx) iv input output length mem = some (r,mem') ↔
      r = 0 ∧
      Cbc.Encrypts xorBytes (aesEncryptBlock ctx) (load mem iv)
        (fun k => load mem (input + 16 * k)) (fun k => load mem' (output + 16 * k)) n ∧
      ∀ x, ¬ Inside output (16 * n) x → mem' x = mem x := by
  rw [aesEncryptCbc,if_neg (by omega),if_neg (by omega),show length.toNat / 16 = n by omega]
  refine chainCall_iff (fun a c => aesEncryptBlock ctx (xorBytes a c)) (fun _ o => o) input output
    (fun s k hk hs => ?_) r mem'
  rw [cbcEncryptStep,load_input hio hk hs]
  cases aesEncryptBlock ctx (xorBytes (load mem (input + 16 * k)) s.2) with
  | none => rfl
  | some o =>
    change some (_,load (store s.1 (output + 16 * k) o) (output + 16 * k)) = some _
    rw [load_store_same]

include hio in
theorem aesDecryptCbc_iff (r : ℤ) (mem' : Mem) :
    aesDecryptCbc (some ctx) iv input output length mem = some (r,mem') ↔
      r = 0 ∧
      Cbc.Decrypts xorBytes (aesDecryptBlock ctx) (load mem iv)
        (fun k => load mem (input + 16 * k)) (fun k => load mem' (output + 16 * k)) n ∧
      ∀ x, ¬ Inside output (16 * n) x → mem' x = mem x := by
  rw [aesDecryptCbc,if_neg (by omega),if_neg (by omega),show length.toNat / 16 = n by omega]
  refine (chainCall_iff (fun a c => (aesDecryptBlock ctx a).map fun t => xorBytes t c)
    (fun a _ => a) input output (fun s k hk hs => ?_) r mem').trans ?_
  · rw [cbcDecryptStep,load_input (.inl hio) hk hs]
    cases aesDecryptBlock ctx (load mem (input + 16 * k)) with
    | none => rfl
    | some t =>
      change some (_,load (store s.1 (output + 16 * k) _) (input + 16 * k)) = some _
      rw [load_store_apart s.1 _ (by unfold Apart at *; omega),load_input (.inl hio) hk hs]
  · refine and_congr_right fun _ => and_congr_left fun _ => ?_
    exact forall_congr' fun k => forall_congr' fun _ => decrypted_iff

theorem aesEncryptCbc_isSome (h : ∀ b, (aesEncryptBlock ctx b).isSome) :
    (aesEncryptCbc (some ctx) iv input output length mem).isSome := by
  have hloop : ((List.range (length.toNat / 16)).foldlM (cbcEncryptStep ctx input output)
      (mem,load mem iv)).isSome := chainLoop_isSome (fun s k => by
    obtain ⟨o,ho⟩ := Option.isSome_iff_exists.mp (h (xorBytes (load s.1 (input + 16 * k)) s.2))
    rw [cbcEncryptStep,ho]
    rfl) _ _
  obtain ⟨s,hs⟩ := Option.isSome_iff_exists.mp hloop
  rw [aesEncryptCbc,if_neg (by omega),if_neg (by omega),hs]
  rfl

theorem aesDecryptCbc_isSome (h : ∀ b, (aesDecryptBlock ctx b).isSome) :
    (aesDecryptCbc (some ctx) iv input output length mem).isSome := by
  have hloop : ((List.range (length.toNat / 16)).foldlM (cbcDecryptStep ctx input output)
      (mem,load mem iv)).isSome := chainLoop_isSome (fun s k => by
    obtain ⟨o,ho⟩ := Option.isSome_iff_exists.mp (h (load s.1 (input + 16 * k)))
    rw [cbcDecryptStep,ho]
    rfl) _ _
  obtain ⟨s,hs⟩ := Option.isSome_iff_exists.mp hloop
  rw [aesDecryptCbc,if_neg (by omega),if_neg (by omega),hs]
  rfl

include hio in
theorem aesCbc_round_trip (hiv : Apart iv 16 output (16 * n))
    (hD : ∀ b c, aesEncryptBlock ctx b = some c → aesDecryptBlock ctx c = some b) {mem1 : Mem}
    (henc : aesEncryptCbc (some ctx) iv input output length mem = some (0,mem1)) {plain : ℕ}
    (hplain : plain ≠ 0) (hop : Apart output (16 * n) plain (16 * n)) :
    ∃ mem2, aesDecryptCbc (some ctx) iv output plain length mem1 = some (0,mem2) ∧
      ∀ x < 16 * n, mem2 (plain + x) = mem (input + x) := by
  obtain ⟨-,hchain,hframe⟩ := (aesEncryptCbc_iff mem hn hptr (.inl hio) 0 mem1).mp henc
  let mem2 : Mem := fun x => if Inside plain (16 * n) x then mem (input + (x - plain)) else mem1 x
  have hval : ∀ x < 16 * n, mem2 (plain + x) = mem (input + x) := fun x hx => by
    change (if _ then _ else _) = _
    rw [if_pos (inside_add hx),Nat.add_sub_cancel_left]
  have hblock : ∀ k < n, (load mem2 (plain + 16 * k) : Block) = load mem (input + 16 * k) := by
    intro k hk
    apply ext_get
    intro i
    rw [load_get,load_get,Nat.add_assoc,Nat.add_assoc]
    exact hval _ (by omega)
  have hivl : (load mem1 iv : Block) = load mem iv :=
    load_congr fun x hx => hframe x (hiv.not_inside hx)
  refine ⟨mem2,(aesDecryptCbc_iff mem1 hn (by omega) hop 0 mem2).mpr ⟨rfl,?_,fun x hx => if_neg hx⟩,
    hval⟩
  rw [hivl]
  exact (Cbc.Decrypts.congr hblock fun _ _ => rfl).mpr
    (Cbc.Decrypts.of_encrypts xorBytes_xorBytes hD hchain)

end

structure CbcModes (ctx : AesContext) (iv input output : ℕ) (length : Uint32) (n : ℕ) (mem : Mem) :
    Prop where
  encrypt : ∀ r mem', aesEncryptCbc (some ctx) iv input output length mem = some (r,mem') ↔
    r = 0 ∧
    Cbc.Encrypts xorBytes (aesEncryptBlock ctx) (load mem iv)
      (fun k => load mem (input + 16 * k)) (fun k => load mem' (output + 16 * k)) n ∧
    ∀ x, ¬ Inside output (16 * n) x → mem' x = mem x
  encrypt_returns : (∀ b, (aesEncryptBlock ctx b).isSome) →
    (aesEncryptCbc (some ctx) iv input output length mem).isSome
  decrypt : ∀ r mem', aesDecryptCbc (some ctx) iv input output length mem = some (r,mem') ↔
    r = 0 ∧
    Cbc.Decrypts xorBytes (aesDecryptBlock ctx) (load mem iv)
      (fun k => load mem (input + 16 * k)) (fun k => load mem' (output + 16 * k)) n ∧
    ∀ x, ¬ Inside output (16 * n) x → mem' x = mem x
  decrypt_returns : (∀ b, (aesDecryptBlock ctx b).isSome) →
    (aesDecryptCbc (some ctx) iv input output length mem).isSome
  round_trip : (∀ b c, aesEncryptBlock ctx b = some c → aesDecryptBlock ctx c = some b) →
    ∀ mem1, aesEncryptCbc (some ctx) iv input output length mem = some (0,mem1) →
    ∀ plain, plain ≠ 0 → Apart output (16 * n) plain (16 * n) →
    ∃ mem2, aesDecryptCbc (some ctx) iv output plain length mem1 = some (0,mem2) ∧
      ∀ x < 16 * n, mem2 (plain + x) = mem (input + x)

theorem aes_cbc_modes (ctx : AesContext) (iv input output : ℕ) (length : Uint32) (n : ℕ) (mem : Mem)
    (hn : length.toNat = 16 * n) (hptr : iv ≠ 0 ∧ input ≠ 0 ∧ output ≠ 0)
    (hio : Apart input (16 * n) output (16 * n)) (hiv : Apart iv 16 output (16 * n)) :
    CbcModes ctx iv input output length n mem where
  encrypt := aesEncryptCbc_iff mem hn hptr (.inl hio)
  encrypt_returns := aesEncryptCbc_isSome mem hn hptr
  decrypt := aesDecryptCbc_iff mem hn hptr hio
  decrypt_returns := aesDecryptCbc_isSome mem hn hptr
  round_trip := fun hD _ henc _ hplain hop => aesCbc_round_trip mem hn hptr hio hiv hD henc hplain hop

theorem aes_cbc_modes_two_blocks :
    (32#32).toNat = 16 * 2 ∧
    CbcModes ⟨Vector.replicate 240 0#8,10⟩ 16 64 128 32#32 2 (fun x => BitVec.ofNat 8 x) :=
  ⟨rfl,aes_cbc_modes _ 16 64 128 32#32 2 _ rfl (by decide) (by decide) (by decide)⟩

end KluxOS.Aes
