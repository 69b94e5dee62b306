import KluxOS.Lib.Run
import KluxOS.Security.KeyMemory

namespace KluxOS.Crypto

open CArray Run SwapRemove Syscall

inductive KeyCall where
  | generate (algorithm key_length : Uint32)
  | destroy (key : Uint32)

-- live are the keys made and not destroyed, late the ones generated while the registry was full
structure Registry where
  state : CryptoState
  live : Uint32 → Bool
  late : List Uint32

def keyStep (alloc : Allocator) (r : Registry) : KeyCall → Option Registry
  | .generate algorithm key_length =>
    let made := cryptoGenerateKey alloc r.state algorithm key_length
    if made.2 = 0#32 then some { r with state := made.1 }
    else
      let late := if maxCryptoKeys ≤ r.state.key_count.toNat then made.2 :: r.late else r.late
      some ⟨made.1,Function.update r.live made.2 true,late⟩
  | .destroy key =>
    (cryptoDestroyKey r.state key).map fun state =>
      { r with state, live := Function.update r.live key false }

def registryInit (kernel : KernelState) : Registry :=
  ⟨cryptoInit (CryptoState.boot kernel),fun _ => false,[]⟩

-- key_store[0..key_count)
def registered (s : CryptoState) : List Uint32 := used s.key_store s.key_count.toNat

def Live (r : Registry) (key : Uint32) : Prop := r.live key = true

def NotYetDestroyed (r : Registry) : KeyCall → Prop
  | .destroy key => key = 0#32 ∨ Live r key
  | _ => True

structure NoDeadKeys (r : Registry) : Prop where
  count : r.state.key_count.toNat ≤ maxCryptoKeys
  distinct : (registered r.state).Nodup
  live : ∀ key ∈ registered r.state, Live r key
  null : ∀ i, r.state.key_count.toNat ≤ i → i < maxCryptoKeys →
    get? r.state.key_store i = some 0#32

-- the key leaves the registry if it is there at all, every other key stays as it is
structure RemovesOne (r : Registry) (key : Uint32) (t : Registry) : Prop where
  early : key ∉ r.late → (registered r.state).Perm (key :: registered t.state)
  late : key ∈ r.late → registered t.state = registered r.state
  dead : ¬ Live t key
  others : ∀ other ≠ key, (Live t other ↔ Live r other)
  memory : t.state.kernel.memory = r.state.kernel.memory

def Kept (r : Registry) (c : KeyCall) (result : Option Registry) : Prop :=
  ∃ t, result = some t ∧ NoDeadKeys t ∧
    match c with
    | .destroy key => key ≠ 0#32 → RemovesOne r key t
    | .generate _ _ => True

structure Consistent (r : Registry) : Prop where
  keys : NoDeadKeys r
  blocks : ∀ key, Live r key → key ≠ 0#32 ∧ (key,keySize) ∈ r.state.kernel.blocks
  late : ∀ key ∈ r.late, (key,keySize) ∈ r.state.kernel.blocks
  listed : ∀ key, Live r key → (key ∈ registered r.state ↔ key ∉ r.late)

variable {alloc : Allocator} {r : Registry} {s : CryptoState} {key : Uint32}

theorem live_update (r : Registry) (state : CryptoState) (late : List Uint32) (key other : Uint32)
    (b : Bool) : Live ⟨state,Function.update r.live key b,late⟩ other ↔
      if other = key then b = true else Live r other := by
  change Function.update r.live key b other = true ↔ _
  rw [Function.update_apply]
  split <;> rfl

theorem registryInit_consistent (kernel : KernelState) : Consistent (registryInit kernel) where
  keys :=
    { count := Nat.zero_le _
      distinct := List.nodup_nil
      live := fun _ h => absurd h List.not_mem_nil
      null := fun _ _ hi => get?_replicate _ hi }
  blocks := fun _ h => absurd h Bool.false_ne_true
  late := fun _ h => absurd h List.not_mem_nil
  listed := fun _ h => absurd h Bool.false_ne_true

section Generate

theorem register_full (h : maxCryptoKeys ≤ s.key_count.toNat) (key : Uint32) :
    register s key = s := by
  rw [register,dif_neg (Nat.not_lt.mpr h)]

theorem register_room (h : s.key_count.toNat < maxCryptoKeys) (key : Uint32) :
    (register s key).key_count.toNat = s.key_count.toNat + 1 ∧
      registered (register s key) = registered s ++ [key] ∧
      ∀ i : ℕ, get? (register s key).key_store i =
        if i = s.key_count.toNat then some key else get? s.key_store i := by
  have hcount : (s.key_count + 1#32).toNat = s.key_count.toNat + 1 := by
    rw [BitVec.toNat_add]
    unfold maxCryptoKeys at h
    change (s.key_count.toNat + 1) % 2 ^ 32 = _
    omega
  rw [register,dif_pos h]
  refine ⟨hcount,?_,fun i => get?_set _ _ h i⟩
  rw [registered,hcount]
  exact CArray.take_set _ _ h

-- the block of a key just allocated
structure NewKey (r : Registry) (kernel : KernelState) (key : Uint32) : Prop where
  kept : r.state.kernel.blocks ⊆ kernel.blocks
  block : (key,keySize) ∈ kernel.blocks
  fresh : (key,keySize) ∉ r.state.kernel.blocks
  nonnull : key ≠ 0#32

section Made
variable {kernel : KernelState} (hr : Consistent r) (hnew : NewKey r kernel key)

-- the registry once the key is made
def withLive (r : Registry) (state : CryptoState) (key : Uint32) (late : List Uint32) : Registry :=
  ⟨state,Function.update r.live key true,late⟩

theorem withLive_live (r : Registry) (state : CryptoState) (key other : Uint32)
    (late : List Uint32) : Live (withLive r state key late) other ↔ other = key ∨ Live r other := by
  rw [withLive,live_update]
  by_cases hother : other = key
  · rw [if_pos hother]
    exact iff_of_true rfl (.inl hother)
  · rw [if_neg hother]
    exact (or_iff_right hother).symm

include hr hnew

theorem NewKey.dead : ¬ Live r key := fun hlive => hnew.fresh (hr.blocks key hlive).2

theorem NewKey.unlisted : key ∉ registered r.state := fun hmem =>
  NewKey.dead hr hnew (hr.keys.live key hmem)

theorem NewKey.not_late : key ∉ r.late := fun hmem => hnew.fresh (hr.late key hmem)

theorem NewKey.blocks {other : Uint32} (h : other = key ∨ Live r other) :
    other ≠ 0#32 ∧ (other,keySize) ∈ kernel.blocks := by
  rcases h with rfl | h
  · exact ⟨hnew.nonnull,hnew.block⟩
  · exact ⟨(hr.blocks other h).1,hnew.kept (hr.blocks other h).2⟩

-- a full registry stays as it is, and the new key is late
theorem register_consistent_full (hfull : maxCryptoKeys ≤ r.state.key_count.toNat) :
    Consistent (withLive r (register (withKey r.state kernel) key) key (key :: r.late)) := by
  rw [register_full (s := withKey r.state kernel) hfull]
  have hunlisted := NewKey.unlisted hr hnew
  have hlive := fun other => withLive_live r (withKey r.state kernel) key other (key :: r.late)
  refine ⟨⟨hr.keys.count,hr.keys.distinct,fun other hother => ?_,hr.keys.null⟩,
    fun other hother => NewKey.blocks hr hnew ((hlive other).mp hother),fun other hother => ?_,
    fun other hother => ?_⟩
  · exact (hlive other).mpr (.inr (hr.keys.live other hother))
  · rcases List.mem_cons.mp hother with rfl | hother
    · exact hnew.block
    · exact hnew.kept (hr.late other hother)
  · change other ∈ registered r.state ↔ other ∉ key :: r.late
    rw [List.mem_cons]
    rcases (hlive other).mp hother with rfl | hother
    · exact iff_of_false hunlisted (fun hnot => hnot (.inl rfl))
    · have hne : other ≠ key := fun heq => NewKey.dead hr hnew (heq ▸ hother)
      rw [or_iff_right hne]
      exact hr.listed other hother

-- otherwise it goes to the first place that is not in use
theorem register_consistent_room (hroom : r.state.key_count.toNat < maxCryptoKeys) :
    Consistent (withLive r (register (withKey r.state kernel) key) key r.late) := by
  obtain ⟨hcount,hlist,hget⟩ := register_room (s := withKey r.state kernel) hroom key
  have hlive := fun other =>
    withLive_live r (register (withKey r.state kernel) key) key other r.late
  have hkernel : (register (withKey r.state kernel) key).kernel = kernel := register_kernel _ _
  have hlate := NewKey.not_late hr hnew
  change _ = r.state.key_count.toNat + 1 at hcount
  change _ = registered r.state ++ [key] at hlist
  change ∀ i : ℕ, _ = if i = r.state.key_count.toNat then _ else get? r.state.key_store i at hget
  refine ⟨⟨hcount.trans_le hroom,?_,fun other hother => ?_,fun i hle hi => ?_⟩,
    fun other hother => ?_,fun other hother => ?_,fun other hother => ?_⟩
  · change (registered (register (withKey r.state kernel) key)).Nodup
    rw [hlist]
    exact List.nodup_append_comm.mp
      (List.nodup_cons.mpr ⟨NewKey.unlisted hr hnew,hr.keys.distinct⟩)
  · change other ∈ registered (register (withKey r.state kernel) key) at hother
    rw [hlist,List.mem_append,List.mem_singleton] at hother
    rw [hlive]
    exact hother.symm.imp_right (hr.keys.live other)
  · change (register (withKey r.state kernel) key).key_count.toNat ≤ i at hle
    rw [hcount] at hle
    refine (hget i).trans ?_
    rw [if_neg (Nat.ne_of_gt hle)]
    exact hr.keys.null i (Nat.le_of_lt hle) hi
  · change _ ∧ _ ∈ (register (withKey r.state kernel) key).kernel.blocks
    rw [hkernel]
    exact NewKey.blocks hr hnew ((hlive other).mp hother)
  · change _ ∈ (register (withKey r.state kernel) key).kernel.blocks
    rw [hkernel]
    exact hnew.kept (hr.late other hother)
  · rw [hlive] at hother
    change other ∈ registered (register (withKey r.state kernel) key) ↔ other ∉ r.late
    rw [hlist,List.mem_append,List.mem_singleton]
    rcases hother with rfl | hother
    · exact iff_of_true (.inr rfl) hlate
    · have hne : other ≠ key := fun heq => NewKey.dead hr hnew (heq ▸ hother)
      rw [or_iff_left hne]
      exact hr.listed other hother

end Made

theorem generate_consistent (hfresh : FreshBlocks alloc) (hr : Consistent r)
    (algorithm key_length : Uint32) :
    ∃ t, keyStep alloc r (.generate algorithm key_length) = some t ∧ Consistent t := by
  rw [keyStep]
  rcases cryptoGenerateKey_cases hfresh r.state algorithm key_length with
    ⟨kernel,hext,hrefused⟩ | ⟨kernel,key_data,hext,hfresh',hat,hmade⟩
  · rw [hrefused]
    refine ⟨_,if_pos rfl,?_⟩
    exact ⟨⟨hr.keys.count,hr.keys.distinct,hr.keys.live,hr.keys.null⟩,
      fun key hlive => ⟨(hr.blocks key hlive).1,hext.blocks (hr.blocks key hlive).2⟩,
      fun key hlate => hext.blocks (hr.late key hlate),hr.listed⟩
  · have hnew : NewKey r kernel _ := ⟨hext.blocks,hat.block,hfresh',hat.nonnull⟩
    refine ⟨_,if_neg hat.nonnull,?_⟩
    rw [hmade]
    by_cases hfull : maxCryptoKeys ≤ r.state.key_count.toNat
    · rw [if_pos hfull]
      exact register_consistent_full hr hnew hfull
    · rw [if_neg hfull]
      exact register_consistent_room hr hnew (Nat.lt_of_not_le hfull)

end Generate

section Destroy

-- the last key takes the place of the one destroyed
structure Removed (s : CryptoState) (key : Uint32) (t : CryptoState) : Prop where
  kernel : t.kernel = (free s key).kernel
  count : t.key_count.toNat + 1 = s.key_count.toNat
  perm : (key :: registered t).Perm (registered s)
  store : ∀ i : ℕ, t.key_count.toNat ≤ i → i < maxCryptoKeys → get? t.key_store i =
    if i = t.key_count.toNat then some 0#32 else get? s.key_store i

theorem cryptoDestroyKey_cases (hcount : s.key_count.toNat ≤ maxCryptoKeys) (hkey : key ≠ 0#32) :
    (key ∉ registered s ∧ cryptoDestroyKey s key = some (free s key)) ∨
      ∃ t, cryptoDestroyKey s key = some t ∧ Removed s key t := by
  rw [cryptoDestroyKey,if_neg hkey,storeIndex]
  rcases findUsed_cases s.key_store hcount key with ⟨hfind,hnot⟩ | ⟨i,hi,hfind,hat⟩
  · exact .inl ⟨hnot,by rw [hfind]; rfl⟩
  refine .inr ?_
  have hlast : (s.key_count - 1#32).toNat + 1 = s.key_count.toNat := by
    rw [BitVec.toNat_sub]
    change (2 ^ 32 - 1 + s.key_count.toNat) % 2 ^ 32 + 1 = _
    omega
  set c := (s.key_count - 1#32).toNat with hc
  have hlt : c < maxCryptoKeys := by omega
  have hic : i < c + 1 := by omega
  refine ⟨{ free s key with
    key_store := removed s.key_store 0#32 hlt hic, key_count := s.key_count - 1#32 },?_,rfl,
    hlast,?_,fun m hm _ => get?_removed s.key_store 0#32 hlt hic hm⟩
  · rw [hfind]
    exact remove_bind s.key_store 0#32 hlt hic fun key_store =>
      some { free s key with key_store, key_count := s.key_count - 1#32 }
  · have hperm := removed_perm s.key_store 0#32 hlt hic
    have hused : used s.key_store (c + 1) = registered s := by rw [registered,hlast]
    rw [hat] at hperm
    exact hperm.trans (List.Perm.of_eq hused)

theorem free_blocks (s : CryptoState) (key : Uint32) :
    (free s key).kernel.blocks = s.kernel.blocks :=
  (kfree_blocks _ key).trans (kfree_blocks s.kernel _)

theorem free_memory (s : CryptoState) (key : Uint32) :
    (free s key).kernel.memory = s.kernel.memory :=
  (kfree_memory _ key).trans (kfree_memory s.kernel _)

-- the registry once the key is destroyed
def withoutLive (r : Registry) (state : CryptoState) (key : Uint32) : Registry :=
  { r with state, live := Function.update r.live key false }

theorem withoutLive_live (r : Registry) (state : CryptoState) (key other : Uint32) :
    Live (withoutLive r state key) other ↔ other ≠ key ∧ Live r other := by
  rw [withoutLive,live_update]
  by_cases hother : other = key
  · rw [if_pos hother]
    exact iff_of_false Bool.false_ne_true fun h => h.1 hother
  · rw [if_neg hother]
    exact (and_iff_right hother).symm

theorem withoutLive_others (r : Registry) (state : CryptoState) {key other : Uint32}
    (hother : other ≠ key) : Live (withoutLive r state key) other ↔ Live r other := by
  rw [withoutLive_live,and_iff_right hother]

theorem free_consistent (hr : Consistent r) (hlive : Live r key)
    (hnot : key ∉ registered r.state) : Consistent (withoutLive r (free r.state key) key) ∧
      RemovesOne r key (withoutLive r (free r.state key) key) := by
  have hlate : key ∈ r.late := by
    by_contra hearly
    exact hnot ((hr.listed key hlive).mpr hearly)
  have hothers := withoutLive_live r (free r.state key) key
  refine ⟨⟨⟨hr.keys.count,hr.keys.distinct,fun other hother => ?_,hr.keys.null⟩,
    fun other hother => ?_,fun other hother => ?_,fun other hother => ?_⟩,
    fun hearly => absurd hlate hearly,fun _ => rfl,fun hlive => ((hothers key).mp hlive).1 rfl,
    fun other hne => withoutLive_others r _ hne,free_memory r.state key⟩
  · refine (hothers other).mpr ⟨?_,hr.keys.live other hother⟩
    rintro rfl
    exact hnot hother
  · exact free_blocks r.state key ▸ hr.blocks other ((hothers other).mp hother).2
  · exact free_blocks r.state key ▸ hr.late other hother
  · exact hr.listed other ((hothers other).mp hother).2

theorem removed_consistent (hr : Consistent r) {t : CryptoState} (ht : Removed r.state key t) :
    Consistent (withoutLive r t key) ∧ RemovesOne r key (withoutLive r t key) := by
  have hlisted : key ∈ registered r.state := ht.perm.mem_iff.mp List.mem_cons_self
  have hearly : key ∉ r.late := (hr.listed key (hr.keys.live key hlisted)).mp hlisted
  obtain ⟨hgone,hdistinct⟩ := List.nodup_cons.mp (ht.perm.nodup_iff.mpr hr.keys.distinct)
  have hlive := withoutLive_live r t key
  have hmem : ∀ other ≠ key, other ∈ registered t ↔ other ∈ registered r.state := by
    intro other hne
    rw [← ht.perm.mem_iff,List.mem_cons,or_iff_right hne]
  have hblocks : t.kernel.blocks = r.state.kernel.blocks := by rw [ht.kernel,free_blocks]
  have hmemory : t.kernel.memory = r.state.kernel.memory := by rw [ht.kernel,free_memory]
  have hcount : t.key_count.toNat < maxCryptoKeys :=
    Nat.lt_of_succ_le (ht.count.trans_le hr.keys.count)
  refine ⟨⟨⟨Nat.le_of_lt hcount,hdistinct,fun other hother => ?_,fun i hle hi => ?_⟩,
    fun other hother => ?_,fun other hother => ?_,fun other hother => ?_⟩,
    fun _ => ht.perm.symm,fun hlate => absurd hlate hearly,fun hself => ((hlive key).mp hself).1 rfl,
    fun other hne => withoutLive_others r t hne,hmemory⟩
  · have hne : other ≠ key := fun heq => hgone (heq ▸ hother)
    exact (hlive other).mpr ⟨hne,hr.keys.live other ((hmem other hne).mp hother)⟩
  · refine (ht.store i hle hi).trans ?_
    by_cases hi0 : i = t.key_count.toNat
    · rw [if_pos hi0]
    · rw [if_neg hi0]
      have hlt : t.key_count.toNat < i := Nat.lt_of_le_of_ne hle (Ne.symm hi0)
      exact hr.keys.null i (ht.count.symm.trans_le hlt) hi
  · exact hblocks ▸ hr.blocks other ((hlive other).mp hother).2
  · exact hblocks ▸ hr.late other hother
  · obtain ⟨hne,hother⟩ := (hlive other).mp hother
    exact (hmem other hne).trans (hr.listed other hother)

theorem destroy_consistent (alloc : Allocator) (hr : Consistent r) (hlive : Live r key) :
    ∃ t, keyStep alloc r (.destroy key) = some t ∧ Consistent t ∧ RemovesOne r key t := by
  have hkey := (hr.blocks key hlive).1
  rcases cryptoDestroyKey_cases hr.keys.count hkey with ⟨hnot,hrun⟩ | ⟨t,hrun,ht⟩
  · refine ⟨withoutLive r (free r.state key) key,?_,free_consistent hr hlive hnot⟩
    rw [keyStep,hrun]
    rfl
  · refine ⟨withoutLive r t key,?_,removed_consistent hr ht⟩
    rw [keyStep,hrun]
    rfl

-- NULL was never a live key
theorem destroy_null (alloc : Allocator) (hr : Consistent r) :
    keyStep alloc r (.destroy 0#32) = some r := by
  have hnull : r.live 0#32 = false := by
    by_contra hlive
    exact (hr.blocks 0#32 (Bool.eq_true_of_not_eq_false hlive)).1 rfl
  rw [keyStep,cryptoDestroyKey,if_pos rfl,Option.map_some,← hnull,Function.update_eq_self]

end Destroy

theorem keyStep_kept (hfresh : FreshBlocks alloc) (hr : Consistent r) {c : KeyCall}
    (hc : NotYetDestroyed r c) :
    Kept r c (keyStep alloc r c) ∧ ∀ t, keyStep alloc r c = some t → Consistent t := by
  have hsome : ∀ {t}, keyStep alloc r c = some t → Consistent t →
      ∀ u, keyStep alloc r c = some u → Consistent u := by
    intro t ht hconsistent u hu
    cases ht.symm.trans hu
    exact hconsistent
  cases c with
  | generate algorithm key_length =>
    obtain ⟨t,ht,hconsistent⟩ := generate_consistent hfresh hr algorithm key_length
    exact ⟨⟨t,ht,hconsistent.keys,trivial⟩,hsome ht hconsistent⟩
  | destroy key =>
    rcases hc with rfl | hlive
    · have ht := destroy_null alloc hr
      exact ⟨⟨r,ht,hr.keys,fun hnull => absurd rfl hnull⟩,hsome ht hr⟩
    · obtain ⟨t,ht,hconsistent,hremoves⟩ := destroy_consistent alloc hr hlive
      exact ⟨⟨t,ht,hconsistent.keys,fun _ => hremoves⟩,hsome ht hconsistent⟩

theorem no_dead_keys (alloc : Allocator) (hfresh : FreshBlocks alloc) (kernel : KernelState)
    (cs : List KeyCall)
    (hcalls : Every (keyStep alloc) (fun r c _ => NotYetDestroyed r c) (registryInit kernel) cs) :
    NoDeadKeys (registryInit kernel) ∧
      Every (keyStep alloc) Kept (registryInit kernel) cs := by
  have hinit := registryInit_consistent kernel
  refine ⟨hinit.keys,(every_iff_of hinit hcalls (fun r c hr hc => ?_) ?_).mpr
    (every_of_forall (registryInit kernel) fun c _ => trivial)⟩
  · exact iff_of_true (keyStep_kept hfresh hr hc).1 trivial
  · exact fun r c t hr hc _ ht => (keyStep_kept hfresh hr hc).2 t ht

def swappedKeys : List KeyCall :=
  [.generate cryptoCaesar 0#32,.generate cryptoXor 8#32,.destroy 0x200000#32]

-- two keys, and the first one destroyed: the second takes its place
theorem no_dead_keys_swapped : FreshBlocks bumpAllocator ∧
    Every (keyStep bumpAllocator) Kept (registryInit .boot) swappedKeys ∧
    ∃ t, run (keyStep bumpAllocator) (registryInit .boot) swappedKeys = some t ∧
      registered t.state = [0x200011#32] ∧ t.live 0x200000#32 = false := by
  have hcalls : Every (keyStep bumpAllocator) (fun r c _ => NotYetDestroyed r c)
      (registryInit .boot) swappedKeys := by
    refine ⟨trivial,fun t ht => ⟨trivial,fun u hu => ⟨.inr ?_,fun _ _ => trivial⟩⟩⟩
    cases ht
    cases hu
    rfl
  exact ⟨bumpAllocator_fresh,(no_dead_keys bumpAllocator bumpAllocator_fresh .boot _ hcalls).2,_,
    rfl,rfl,rfl⟩

end KluxOS.Crypto
