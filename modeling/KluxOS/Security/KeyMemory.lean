import KluxOS.Security.Crypto

namespace KluxOS.Crypto

open ByteMemory KernelState MemoryWords Syscall

-- a key as crypto_generate_key leaves it: its record in one block, its bytes in another
structure KeyAt (kernel : KernelState) (key : Uint32) (k : CryptoKey) : Prop where
  nonnull : key ≠ 0#32
  record : loadKey kernel.memory key = k
  bytes : ∀ i < k.length.toNat, kernel.memory (k.key_data.toNat + i) = keyByte k.id i
  block : (key,keySize) ∈ kernel.blocks
  data : (k.key_data,k.length) ∈ kernel.blocks
  usable : k.type = cryptoXor ∨ k.type = cryptoCaesar → k.length ≠ 0#32

variable {alloc : Allocator} {s t : CryptoState} {kernel kernel' : KernelState}
  {algorithm key_length key ctx : Uint32} {k : CryptoKey}

theorem KeyAt.extends (h : KeyAt kernel key k) (hext : Extends kernel kernel') :
    KeyAt kernel' key k where
  nonnull := h.nonnull
  record := (loadKey_congr (hext.memory key keySize h.block)).trans h.record
  bytes := fun i hi => (hext.memory _ _ h.data _ (inside_add hi)).trans (h.bytes i hi)
  block := hext.blocks h.block
  data := hext.blocks h.data
  usable := h.usable

theorem kfree_extends (kernel : KernelState) (ptr : Uint32) : Extends kernel (kfree kernel ptr) where
  blocks := by
    rw [kfree_blocks]
    exact List.Subset.refl _
  memory := fun _ _ _ _ _ => congrFun (kfree_memory kernel ptr) _

section Generate

theorem clampLength_ne_zero (h : algorithm = cryptoXor ∨ algorithm = cryptoCaesar)
    (key_length : Uint32) : clampLength algorithm key_length ≠ 0#32 := by
  rcases h with rfl | rfl
  · rw [clampLength,if_neg (by decide),if_pos rfl]
    by_cases hsmall : key_length < 4#32
    · rw [if_pos hsmall]
      decide
    · rw [if_neg hsmall]
      by_cases hlarge : key_length > 32#32
      · rw [if_pos hlarge]
        decide
      · rw [if_neg hlarge]
        rintro rfl
        exact hsmall (by decide)
  · rw [clampLength,if_pos rfl]
    decide

-- the state with the new key, before it is registered
def withKey (s : CryptoState) (kernel : KernelState) : CryptoState :=
  { s with kernel, next_key_id := s.next_key_id + 1#32 }

def Refused (s : CryptoState) (r : CryptoState × Uint32) : Prop :=
  ∃ kernel, Extends s.kernel kernel ∧ r = ({ s with kernel },0#32)

def Made (s : CryptoState) (algorithm key_length : Uint32) (r : CryptoState × Uint32) : Prop :=
  ∃ kernel key_data, Extends s.kernel kernel ∧ (r.2,keySize) ∉ s.kernel.blocks ∧
    KeyAt kernel r.2 ⟨s.next_key_id,algorithm,clampLength algorithm key_length,key_data⟩ ∧
    r.1 = register (withKey s kernel) r.2

theorem register_kernel (s : CryptoState) (key : Uint32) :
    (register s key).kernel = s.kernel := by
  rw [register]
  split <;> rfl

theorem fresh_key (hfresh : FreshBlocks alloc) {blocks : List (Uint32 × Uint32)}
    (hnull : alloc blocks keySize ≠ 0#32) : (alloc blocks keySize,keySize) ∉ blocks := by
  intro hmem
  have hapart := (hfresh blocks keySize hnull).2 _ _ hmem
  unfold Apart at hapart
  have hsize : keySize.toNat = 16 := rfl
  omega

-- the record and the bytes are stored in the two new blocks
theorem keyAt_filled (hfresh : FreshBlocks alloc) {u : CryptoState}
    (hkey : alloc kernel.blocks keySize = key) (hnull : key ≠ 0#32)
    (hdata : alloc ((key,keySize) :: kernel.blocks) k.length = k.key_data)
    (hdnull : k.key_data ≠ 0#32)
    (husable : k.type = cryptoXor ∨ k.type = cryptoCaesar → k.length ≠ 0#32)
    (hblocks : u.kernel.blocks = (k.key_data,k.length) :: (key,keySize) :: kernel.blocks)
    (hmemory : u.kernel.memory = storeKey kernel.memory key k) :
    ∃ memory, fillKey u key k.length = u.setMemory memory ∧
      Extends kernel (u.setMemory memory).kernel ∧ KeyAt (u.setMemory memory).kernel key k := by
  subst hkey
  have hnew := hfresh ((alloc kernel.blocks keySize,keySize) :: kernel.blocks) k.length
    (hdata ▸ hdnull)
  have hapart := (hnew.2 _ keySize List.mem_cons_self).symm
  rw [hdata] at hapart
  have hrecord : loadKey u.kernel.memory (alloc kernel.blocks keySize) = k := by
    rw [hmemory]
    exact loadKey_storeKey kernel.memory _ k
  refine ⟨_,fillKey_eq hrecord hapart,?_⟩
  set t := u.setMemory (ByteMemory.storeLoop (fun _ i => keyByte k.id i) k.key_data.toNat
    k.length.toNat u.kernel.memory)
  let first : KernelState := { kernel with
    blocks := (alloc kernel.blocks keySize,keySize) :: kernel.blocks
    memory := u.kernel.memory }
  have hfirst : Extends kernel first := Extends.stored hfresh hnull rfl fun x hx => by
    change u.kernel.memory x = _
    rw [hmemory]
    exact storeKey_outside hx
  have hsecond : Extends first t.kernel := by
    refine Extends.stored hfresh (hdata ▸ hdnull) (hblocks.trans ?_) fun x hx => ?_
    · rw [← hdata]
    · rw [hdata] at hx
      exact storeLoop_outside _ _ hx
  refine ⟨hfirst.trans hsecond,hnull,?_,fun i hi => ?_,hsecond.blocks List.mem_cons_self,?_,husable⟩
  · refine Eq.trans (loadKey_congr fun x hx => ?_) hrecord
    exact hsecond.memory _ keySize List.mem_cons_self x hx
  · refine (storeLoop_inside _ (keyByte k.id) _ le_rfl (fun _ _ _ _ => rfl)
      (inside_add hi)).trans ?_
    rw [Nat.add_sub_cancel_left]
  · exact hblocks.symm ▸ List.mem_cons_self

theorem cryptoGenerateKey_cases (hfresh : FreshBlocks alloc) (s : CryptoState)
    (algorithm key_length : Uint32) :
    Refused s (cryptoGenerateKey alloc s algorithm key_length) ∨
      Made s algorithm key_length (cryptoGenerateKey alloc s algorithm key_length) := by
  rw [cryptoGenerateKey]
  by_cases hrefused : algorithm = cryptoNone ∨ (algorithm ≥ cryptoAes ∧ algorithm ≠ cryptoSha)
  · rw [if_pos hrefused]
    exact .inl ⟨s.kernel,Extends.refl _,rfl⟩
  rw [if_neg hrefused]
  by_cases hnull : alloc s.kernel.blocks keySize = 0#32
  · simp only [allocate_null alloc s.kernel hnull,if_true]
    exact .inl ⟨s.kernel,Extends.refl _,rfl⟩
  simp only [allocate_block alloc s.kernel hnull,if_neg hnull]
  set key := alloc s.kernel.blocks keySize with hkey
  set kernel : KernelState := { s.kernel with blocks := (key,keySize) :: s.kernel.blocks }
  by_cases hdnull : alloc kernel.blocks (clampLength algorithm key_length) = 0#32
  · simp only [allocate_null alloc kernel hdnull,if_true]
    refine .inl ⟨_,?_,rfl⟩
    refine Extends.trans (Extends.stored hfresh hnull rfl fun x hx => ?_) (kfree_extends _ key)
    exact storeWord_block (i := 12) (by decide) hx
  · simp only [allocate_block alloc kernel hdnull,if_neg hdnull]
    let made : CryptoKey := ⟨s.next_key_id,algorithm,clampLength algorithm key_length,
      alloc kernel.blocks (clampLength algorithm key_length)⟩
    obtain ⟨memory,hfill,hext,hat⟩ := keyAt_filled hfresh (k := made) (u := { s with
      kernel := { s.kernel with
        blocks := (made.key_data,made.length) :: kernel.blocks
        memory := storeKey s.kernel.memory key made }
      next_key_id := s.next_key_id + 1#32 }) hkey.symm hnull rfl hdnull
      (fun h => clampLength_ne_zero h key_length) rfl rfl
    refine .inr ⟨_,_,hext,fresh_key hfresh hnull,hat,?_⟩
    exact congrArg (fun u => register u key) hfill

end Generate

section Context

-- a context that names a key of its own algorithm
structure ContextAt (kernel : KernelState) (ctx key : Uint32) (k : CryptoKey) : Prop where
  nonnull : ctx ≠ 0#32
  record : loadContext kernel.memory ctx = ⟨k.type,key,0#32⟩
  block : (ctx,contextSize) ∈ kernel.blocks
  key : KeyAt kernel key k

theorem ContextAt.extends (h : ContextAt kernel ctx key k) (hext : Extends kernel kernel') :
    ContextAt kernel' ctx key k where
  nonnull := h.nonnull
  record := (loadContext_congr (hext.memory ctx contextSize h.block)).trans h.record
  block := hext.blocks h.block
  key := h.key.extends hext

theorem contextAt_stored (hfresh : FreshBlocks alloc) (hk : KeyAt kernel key k)
    (hnull : alloc kernel.blocks contextSize ≠ 0#32) {t : KernelState}
    (hblocks : t.blocks = (alloc kernel.blocks contextSize,contextSize) :: kernel.blocks)
    (hmemory : t.memory = storeContext kernel.memory (alloc kernel.blocks contextSize)
      ⟨k.type,key,0#32⟩) :
    Extends kernel t ∧ ContextAt t (alloc kernel.blocks contextSize) key k := by
  have hext : Extends kernel t := Extends.stored hfresh hnull hblocks fun x hx => by
    rw [hmemory]
    exact storeContext_outside hx
  refine ⟨hext,hnull,?_,?_,hk.extends hext⟩
  · rw [hmemory]
    exact loadContext_storeContext _ _ _
  · rw [hblocks]
    exact List.mem_cons_self

theorem cryptoCreateContext_made (hfresh : FreshBlocks alloc) (hk : KeyAt s.kernel key k)
    (h : cryptoCreateContext alloc s algorithm key = (t,ctx)) (hctx : ctx ≠ 0#32) :
    Extends s.kernel t.kernel ∧ ContextAt t.kernel ctx key k := by
  rw [cryptoCreateContext,hk.record] at h
  by_cases hrefused : key = 0#32 ∨ k.type ≠ algorithm
  · rw [if_pos hrefused] at h
    cases h
    exact absurd rfl hctx
  rw [if_neg hrefused] at h
  by_cases hnull : alloc s.kernel.blocks contextSize = 0#32
  · simp only [allocate_null alloc s.kernel hnull,if_true] at h
    cases h
    exact absurd rfl hctx
  simp only [allocate_block alloc s.kernel hnull,if_neg hnull] at h
  obtain rfl : k.type = algorithm := not_ne_iff.mp (not_or.mp hrefused).2
  obtain ⟨rfl,rfl⟩ := Prod.mk.inj h
  exact contextAt_stored hfresh hk hnull rfl rfl

end Context

end KluxOS.Crypto
