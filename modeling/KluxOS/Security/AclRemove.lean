import KluxOS.Kernel.Allocators
import KluxOS.Security.AclEntries

namespace KluxOS.Acl

open Syscall ByteMemory

section Remove

-- found_idx is an int
def findEntry (entries : List AclEntry) (user_id group_id : Uint32) : ℕ → ℕ → Option ℤ
  | 0,_ => some (-1)
  | n + 1,i => do
    let entry ← entries[i]?
    if entry.user_id = user_id ∧ entry.group_id = group_id then some (BitVec.ofNat 32 i).toInt
    else findEntry entries user_id group_id n (i + 1)

def copyOthers (entries : List AclEntry) (found_idx : ℤ) : ℕ → ℕ → Option (List AclEntry)
  | 0,_ => some []
  | n + 1,i =>
    if (i : ℤ) = found_idx then copyOthers entries found_idx n (i + 1)
    else do
      let entry ← entries[i]?
      let copied ← copyOthers entries found_idx n (i + 1)
      some (entry :: copied)

def aclRemoveEntry (alloc : Allocator) (s : KernelState) (resource : Option AclResource)
    (user_id group_id : Uint32) : Option (KernelState × Option AclResource × ℤ) :=
  match resource with
  | none => some (s,none,-1)
  | some resource =>
    if resource.acl = 0#32 ∨ resource.acl_count = 0#32 then some (s,some resource,-1)
    else do
      let found_idx ← findEntry resource.entries user_id group_id resource.acl_count.toNat 0
      if found_idx < 0 then some (s,some resource,-1)
      else if resource.acl_count = 1#32 then
        some (kfree s resource.acl,
          some { resource with acl := 0#32, entries := [], acl_count := 0#32 },0)
      else
        match allocate alloc s ((resource.acl_count - 1#32) * aclEntrySize) with
        | (s,new_acl) =>
          if new_acl = 0#32 then some (s,some resource,-1)
          else do
            let copied ← copyOthers resource.entries found_idx resource.acl_count.toNat 0
            some (kfree s resource.acl,some { resource with
              acl := new_acl
              entries := copied
              acl_count := resource.acl_count - 1#32 },0)

end Remove

section Loops

def IsFor (entry : AclEntry) (u g : Uint32) : Prop := entry.user_id = u ∧ entry.group_id = g

instance (entry : AclEntry) (u g : Uint32) : Decidable (IsFor entry u g) :=
  inferInstanceAs (Decidable (_ ∧ _))

variable {entries : List AclEntry} {u g : Uint32}

-- the first entry for the pair, with what stands on either side of it
theorem first_entry (entries : List AclEntry) (u g : Uint32) :
    (∀ x ∈ entries, ¬ IsFor x u g) ∨ ∃ before e after, entries = before ++ e :: after ∧
      IsFor e u g ∧ ∀ x ∈ before, ¬ IsFor x u g := by
  by_cases h : ∃ x ∈ entries, IsFor x u g
  · obtain ⟨x,hx,hfor⟩ := h
    obtain ⟨e,before,after,hbefore,he,hsplit,-⟩ :=
      List.exists_of_eraseP (p := fun x => decide (IsFor x u g)) hx (by simpa using hfor)
    exact .inr ⟨before,e,after,hsplit,by simpa using he,fun x hx => by simpa using hbefore x hx⟩
  · exact .inl fun x hx hfor => h ⟨x,hx,hfor⟩

theorem findEntry_pass {n : ℕ} (m : ℕ) {i : ℕ} (hn : i + n ≤ entries.length)
    (h : ∀ x ∈ (entries.drop i).take n, ¬ IsFor x u g) :
    findEntry entries u g (n + m) i = findEntry entries u g m (i + n) := by
  induction n generalizing i with
  | zero => rw [Nat.zero_add,Nat.add_zero]
  | succ n ih =>
    have hi : i < entries.length := by omega
    rw [List.drop_eq_getElem_cons hi,List.take_succ_cons,List.forall_mem_cons,IsFor] at h
    rw [Nat.succ_add,findEntry,List.getElem?_eq_getElem hi,Option.bind_eq_bind,Option.bind_some,
      if_neg h.1,ih (by omega) h.2,Nat.add_right_comm,Nat.add_assoc]

theorem findEntry_missing (h : ∀ x ∈ entries, ¬ IsFor x u g) :
    findEntry entries u g entries.length 0 = some (-1) := by
  rw [← Nat.add_zero entries.length,findEntry_pass 0 (by omega)
    (by rwa [List.drop_zero,List.take_length])]
  rfl

variable {before after : List AclEntry} {e : AclEntry}

theorem findEntry_first (hsplit : entries = before ++ e :: after) (he : IsFor e u g)
    (hbefore : ∀ x ∈ before, ¬ IsFor x u g) (hlen : entries.length < 2 ^ 31) :
    findEntry entries u g entries.length 0 = some (before.length : ℤ) := by
  subst hsplit
  obtain ⟨huser,hgroup⟩ := he
  rw [List.length_append,List.length_cons] at hlen ⊢
  rw [findEntry_pass (after.length + 1) (by rw [List.length_append]; omega)
    (by rwa [List.drop_zero,List.take_left]),findEntry,Nat.zero_add,
    List.getElem?_append_right (Nat.le_refl _),Nat.sub_self,List.getElem?_cons_zero,
    Option.bind_eq_bind,Option.bind_some,if_pos ⟨huser,hgroup⟩,BitVec.toInt_ofNat']
  exact congrArg some (Int.bmod_eq_of_le (by omega) (by omega))

theorem copyOthers_range {found_idx : ℤ} {n i : ℕ} (hn : i + n ≤ entries.length)
    (h : ∀ j : ℕ, i ≤ j → j < i + n → (j : ℤ) ≠ found_idx) :
    copyOthers entries found_idx n i = some ((entries.drop i).take n) := by
  induction n generalizing i with
  | zero => rfl
  | succ n ih =>
    have hi : i < entries.length := by omega
    rw [copyOthers,if_neg (h i (by omega) (by omega)),List.getElem?_eq_getElem hi,
      ih (by omega) fun j hj hlt => h j (by omega) (by omega),List.drop_eq_getElem_cons hi,
      List.take_succ_cons]
    rfl

theorem copyOthers_append (found_idx : ℤ) (n m i : ℕ) :
    copyOthers entries found_idx (n + m) i = (copyOthers entries found_idx n i).bind fun xs =>
      (copyOthers entries found_idx m (i + n)).map (xs ++ ·) := by
  induction n generalizing i with
  | zero => simp [copyOthers]
  | succ n ih =>
    rw [Nat.succ_add,copyOthers,copyOthers,ih,Nat.succ_add_eq_add_succ]
    split
    · rfl
    · cases entries[i]? with
      | none => rfl
      | some entry =>
        cases copyOthers entries found_idx n (i + 1) with
        | none => rfl
        | some xs => cases copyOthers entries found_idx m (i + (n + 1)) <;> rfl

theorem copyOthers_first (hsplit : entries = before ++ e :: after) :
    copyOthers entries before.length entries.length 0 = some (before ++ after) := by
  subst hsplit
  have hfront : copyOthers (before ++ e :: after) before.length before.length 0 = some before := by
    rw [copyOthers_range (by simp) fun j _ hlt => by omega,List.drop_zero,List.take_left]
  have hback : copyOthers (before ++ e :: after) before.length after.length (before.length + 1) =
      some after := by
    rw [copyOthers_range (by simp; omega) fun j hj _ => by omega]
    simp
  rw [List.length_append,List.length_cons,Nat.add_comm after.length,copyOthers_append,hfront,
    Option.bind_some,Nat.add_comm 1,copyOthers,Nat.zero_add,if_pos rfl,hback]
  rfl

end Loops

section Invariant

-- the list, its count and the block that holds it agree
structure AclOk (s : KernelState) (resource : AclResource) : Prop where
  length : resource.entries.length = resource.acl_count.toNat
  empty : resource.acl = 0#32 ↔ resource.acl_count = 0#32
  block : resource.acl ≠ 0#32 → ∃ size, (resource.acl,size) ∈ s.blocks ∧
    size.toNat = 12 * resource.entries.length ∧ resource.acl.toNat + size.toNat ≤ 2 ^ 32

def RemovesFirst (resource result : AclResource) (u g : Uint32) : Prop :=
  ∃ before e after, resource.entries = before ++ e :: after ∧ IsFor e u g ∧
    (∀ x ∈ before, ¬ IsFor x u g) ∧ result.entries = before ++ after

def SameTarget (resource result : AclResource) : Prop :=
  result.type = resource.type ∧ result.resource = resource.resource

variable {alloc : Allocator} {s t : KernelState} {resource : AclResource} {u g : Uint32}

theorem aclOk_empty (s : KernelState) (type : AclResourceType) (target : Option NodePtr) :
    AclOk s ⟨type,target,0#32,[],0#32⟩ :=
  ⟨rfl,iff_of_true rfl rfl,fun h => absurd rfl h⟩

theorem AclOk.mono (h : AclOk s resource) (hblocks : ∀ b ∈ s.blocks, b ∈ t.blocks) :
    AclOk t resource := by
  refine ⟨h.length,h.empty,fun hacl => ?_⟩
  obtain ⟨size,hmem,hsize⟩ := h.block hacl
  exact ⟨size,hblocks _ hmem,hsize⟩

theorem AclOk.nil (h : AclOk s resource) : resource.acl = 0#32 ↔ resource.entries = [] := by
  rw [h.empty,← List.length_eq_zero_iff,h.length,← BitVec.toNat_inj]
  rfl

theorem AclOk.bound (h : AclOk s resource) : resource.entries.length ≤ 357913941 := by
  by_cases hacl : resource.acl = 0#32
  · rw [h.nil.mp hacl]
    decide
  · obtain ⟨size,-,hsize,hfits⟩ := h.block hacl
    omega

theorem new_block {size : Uint32} (s : KernelState) (ptr : Uint32)
    (hnew : alloc s.blocks size ≠ 0#32) :
    (∀ b ∈ s.blocks, b ∈ (kfree (allocate alloc s size).1 ptr).blocks) ∧
      (alloc s.blocks size,size) ∈ (kfree (allocate alloc s size).1 ptr).blocks := by
  rw [kfree_blocks,allocate_block alloc s hnew]
  exact ⟨fun _ hb => List.mem_cons_of_mem _ hb,List.mem_cons_self⟩

-- a request that wraps asks for 8 bytes beside a block that fills the memory: none are left
theorem added_size (halloc : FreshBlocks alloc) (h : AclOk s resource)
    (hnew : alloc s.blocks ((resource.acl_count + 1#32) * aclEntrySize) ≠ 0#32) :
    ((resource.acl_count + 1#32) * aclEntrySize).toNat = 12 * (resource.entries.length + 1) := by
  have hbound := h.bound
  have hcount := h.length
  have hsize : ((resource.acl_count + 1#32) * aclEntrySize).toNat =
      (resource.acl_count.toNat + 1) * 12 % 2 ^ 32 := by
    rw [BitVec.toNat_mul,BitVec.toNat_add,← Nat.mul_mod_mod,Nat.mod_mul_mod]
    rfl
  obtain ⟨hfits,hapart⟩ := halloc s.blocks _ hnew
  by_cases hfull : resource.entries.length = 357913941
  · have hacl : resource.acl ≠ 0#32 := fun hnull => by rw [h.nil.mp hnull] at hfull; cases hfull
    obtain ⟨size,hmem,hlen,hend⟩ := h.block hacl
    have hpos : resource.acl.toNat ≠ 0 := fun hzero => hacl (BitVec.eq_of_toNat_eq hzero)
    have hsep := hapart _ _ hmem
    unfold Apart at hsep
    omega
  · omega

theorem aclAddEntry_null (hnull : alloc s.blocks ((resource.acl_count + 1#32) * aclEntrySize) = 0#32)
    (u g perms : Uint32) :
    aclAddEntry alloc s (some resource) u g perms = some (s,some resource,-1) := by
  simp only [aclAddEntry,allocate_null alloc s hnull,if_true]

theorem aclAddEntry_added (halloc : FreshBlocks alloc) (h : AclOk s resource)
    (hnew : alloc s.blocks ((resource.acl_count + 1#32) * aclEntrySize) ≠ 0#32)
    (u g perms : Uint32) : ∃ t result, AclOk t result ∧
      aclAddEntry alloc s (some resource) u g perms = some (t,some result,0) ∧
      result.entries = resource.entries ++ [⟨u,g,perms⟩] ∧ SameTarget resource result := by
  have hsize := added_size halloc h hnew
  have hcopy : copyEntries resource.entries resource.acl_count.toNat = some resource.entries := by
    rw [copyEntries,if_pos h.length.ge,List.take_of_length_le h.length.le]
  obtain ⟨-,hmem⟩ := new_block s resource.acl hnew
  have hbound := h.bound
  have hcount := h.length
  have hgrown : (resource.acl_count + 1#32).toNat = resource.entries.length + 1 := by
    rw [BitVec.toNat_add,← hcount,BitVec.toNat_ofNat,Nat.mod_eq_of_lt (by omega)]
  refine ⟨kfree (allocate alloc s ((resource.acl_count + 1#32) * aclEntrySize)).1 resource.acl,
    { resource with
      acl := alloc s.blocks ((resource.acl_count + 1#32) * aclEntrySize)
      entries := resource.entries ++ [⟨u,g,perms⟩]
      acl_count := resource.acl_count + 1#32 },⟨?_,?_,fun _ => ⟨_,hmem,?_,?_⟩⟩,?_,rfl,rfl,rfl⟩
  · rw [List.length_append]
    exact hgrown.symm
  · refine iff_of_false hnew fun hzero => ?_
    have hzero' : resource.acl_count + 1#32 = 0#32 := hzero
    rw [hzero'] at hgrown
    cases hgrown
  · rw [hsize,List.length_append]
    rfl
  · exact (halloc s.blocks _ hnew).1
  · simp only [aclAddEntry,allocate_block alloc s hnew,if_neg hnew,hcopy]
    rfl

theorem aclRemoveEntry_missing (h : AclOk s resource)
    (hmissing : ∀ x ∈ resource.entries, ¬ IsFor x u g) :
    aclRemoveEntry alloc s (some resource) u g = some (s,some resource,-1) := by
  simp only [aclRemoveEntry]
  split
  · rfl
  · rw [← h.length,findEntry_missing hmissing]
    rfl

variable {before after : List AclEntry} {e : AclEntry}

theorem aclRemoveEntry_found (h : AclOk s resource)
    (hsplit : resource.entries = before ++ e :: after) (he : IsFor e u g)
    (hbefore : ∀ x ∈ before, ¬ IsFor x u g) :
    aclRemoveEntry alloc s (some resource) u g =
      if resource.acl_count = 1#32 then
        some (kfree s resource.acl,
          some { resource with acl := 0#32, entries := [], acl_count := 0#32 },0)
      else if alloc s.blocks ((resource.acl_count - 1#32) * aclEntrySize) = 0#32 then
        some (s,some resource,-1)
      else some (kfree (allocate alloc s ((resource.acl_count - 1#32) * aclEntrySize)).1 resource.acl,
        some { resource with
          acl := alloc s.blocks ((resource.acl_count - 1#32) * aclEntrySize)
          entries := before ++ after
          acl_count := resource.acl_count - 1#32 },0) := by
  have hbound := h.bound
  have hfound := findEntry_first hsplit he hbefore (by omega)
  have hacl : ¬ (resource.acl = 0#32 ∨ resource.acl_count = 0#32) := by
    rw [← h.empty,or_self,h.nil,hsplit]
    exact List.append_ne_nil_of_right_ne_nil _ (List.cons_ne_nil _ _)
  simp only [aclRemoveEntry,if_neg hacl,← h.length,hfound,Option.bind_eq_bind,Option.bind_some]
  rw [if_neg (by omega : ¬ (before.length : ℤ) < 0)]
  refine if_congr Iff.rfl rfl ?_
  by_cases hnull : alloc s.blocks ((resource.acl_count - 1#32) * aclEntrySize) = 0#32
  · rw [allocate_null alloc s hnull,if_pos hnull]
    rfl
  · rw [if_neg hnull,copyOthers_first hsplit]
    simp only [allocate_block alloc s hnull,if_neg hnull]
    rfl

theorem aclRemoveEntry_spec (halloc : FreshBlocks alloc) (h : AclOk s resource) (u g : Uint32) :
    ∃ t result status, aclRemoveEntry alloc s (some resource) u g = some (t,some result,status) ∧
      AclOk t result ∧ SameTarget resource result ∧
      ((status = 0 ∧ RemovesFirst resource result u g) ∨
        (status = -1 ∧ result = resource ∧
          ¬ ∃ perms, resource.entries = [(⟨u,g,perms⟩ : AclEntry)])) := by
  rcases first_entry resource.entries u g with hmissing | ⟨before,e,after,hsplit,he,hbefore⟩
  · refine ⟨s,resource,-1,aclRemoveEntry_missing h hmissing,h,⟨rfl,rfl⟩,.inr ⟨rfl,rfl,?_⟩⟩
    rintro ⟨perms,hone⟩
    exact hmissing _ (hone ▸ List.mem_cons_self) ⟨rfl,rfl⟩
  rw [aclRemoveEntry_found h hsplit he hbefore]
  have hlen : resource.entries.length = before.length + (after.length + 1) := by
    rw [hsplit,List.length_append,List.length_cons]
  have hcount := h.length
  have hbound := h.bound
  by_cases hlast : resource.acl_count = 1#32
  · rw [if_pos hlast]
    have hone : resource.entries.length = 1 := by rw [hcount,hlast]; rfl
    have hbefore0 : before = [] := List.length_eq_zero_iff.mp (by omega)
    have hafter0 : after = [] := List.length_eq_zero_iff.mp (by omega)
    refine ⟨_,_,0,rfl,aclOk_empty _ _ _,⟨rfl,rfl⟩,.inl ⟨rfl,before,e,after,hsplit,he,hbefore,?_⟩⟩
    rw [hbefore0,hafter0]
    rfl
  rw [if_neg hlast]
  have hmany : resource.entries.length ≠ 1 := by
    rw [hcount]
    exact fun hone => hlast (BitVec.eq_of_toNat_eq hone)
  by_cases hnull : alloc s.blocks ((resource.acl_count - 1#32) * aclEntrySize) = 0#32
  · rw [if_pos hnull]
    refine ⟨s,resource,-1,rfl,h,⟨rfl,rfl⟩,.inr ⟨rfl,rfl,?_⟩⟩
    rintro ⟨perms,hone⟩
    rw [hone] at hmany
    exact hmany rfl
  rw [if_neg hnull]
  obtain ⟨-,hmem⟩ := new_block s resource.acl hnull
  have hless : (resource.acl_count - 1#32).toNat = (before ++ after).length := by
    rw [BitVec.toNat_sub,← hcount,hlen,List.length_append,BitVec.toNat_ofNat]
    omega
  refine ⟨_,_,0,rfl,⟨hless.symm,?_,fun _ => ⟨_,hmem,?_,(halloc s.blocks _ hnull).1⟩⟩,⟨rfl,rfl⟩,
    .inl ⟨rfl,before,e,after,hsplit,he,hbefore,rfl⟩⟩
  · refine iff_of_false hnull fun hzero => ?_
    have hzero' : resource.acl_count - 1#32 = 0#32 := hzero
    rw [hzero',List.length_append] at hless
    exact hmany (hlen.trans (by simp at hless; omega))
  · rw [BitVec.toNat_mul,hless]
    rw [List.length_append]
    exact (Nat.mod_eq_of_lt (by simp [aclEntrySize]; omega)).trans (Nat.mul_comm _ _)

end Invariant

section Runs

variable (alloc : Allocator)

-- a resource from the empty list on, through any edits, with anything else the kernel allocates
inductive Reachable : KernelState → AclResource → Prop
  | empty (s : KernelState) (type : AclResourceType) (target : Option NodePtr) :
      Reachable s ⟨type,target,0#32,[],0#32⟩
  | add {s t : KernelState} {resource result : AclResource} {u g perms : Uint32} {status : ℤ} :
      Reachable s resource →
      aclAddEntry alloc s (some resource) u g perms = some (t,some result,status) →
      Reachable t result
  | remove {s t : KernelState} {resource result : AclResource} {u g : Uint32} {status : ℤ} :
      Reachable s resource →
      aclRemoveEntry alloc s (some resource) u g = some (t,some result,status) →
      Reachable t result
  | other {s t : KernelState} {resource : AclResource} : Reachable s resource →
      (∀ b ∈ s.blocks, b ∈ t.blocks) → Reachable t resource

variable {alloc} {s : KernelState} {resource : AclResource}

theorem Reachable.ok (halloc : FreshBlocks alloc) (h : Reachable alloc s resource) :
    AclOk s resource := by
  induction h with
  | empty s type target => exact aclOk_empty s type target
  | @add s t resource result u g perms status _ hcall ih =>
    by_cases hnull : alloc s.blocks ((resource.acl_count + 1#32) * aclEntrySize) = 0#32
    · rw [aclAddEntry_null hnull] at hcall
      cases hcall
      exact ih
    · obtain ⟨t',result',hok,hadded,-⟩ := aclAddEntry_added halloc ih hnull u g perms
      rw [hadded] at hcall
      cases hcall
      exact hok
  | @remove s t resource result u g status _ hcall ih =>
    obtain ⟨t',result',status',hremoved,hok,-⟩ := aclRemoveEntry_spec halloc ih u g
    rw [hremoved] at hcall
    cases hcall
    exact hok
  | other _ hblocks ih => exact ih.mono hblocks

def occurrences (resource : AclResource) (u g : Uint32) : ℕ :=
  resource.entries.countP fun x => decide (IsFor x u g)

theorem removesFirst_complete {result : AclResource} {u g : Uint32}
    (h : RemovesFirst resource result u g) :
    (∀ x ∈ result.entries, ¬ IsFor x u g) ↔ occurrences resource u g = 1 := by
  obtain ⟨before,e,after,hsplit,he,hbefore,hresult⟩ := h
  have hnone : before.countP (fun x => decide (IsFor x u g)) = 0 :=
    List.countP_eq_zero.mpr fun x hx => by simpa using hbefore x hx
  rw [occurrences,hsplit,List.countP_append,hnone,List.countP_cons_of_pos (by simpa using he),
    hresult,Nat.zero_add,Nat.add_eq_right,List.countP_eq_zero]
  constructor
  · exact fun hleft x hx => by simpa using hleft x (List.mem_append_right _ hx)
  · intro hafter x hx
    rcases List.mem_append.mp hx with hx | hx
    · exact hbefore x hx
    · simpa using hafter x hx

theorem remove_entry_revokes_first (alloc : Allocator) (halloc : FreshBlocks alloc)
    (s : KernelState) (resource : AclResource) (h : Reachable alloc s resource) (u g : Uint32) :
    ∃ t result status, aclRemoveEntry alloc s (some resource) u g = some (t,some result,status) ∧
      result.acl_count.toNat = result.entries.length ∧
      (result.acl = 0#32 ↔ result.acl_count = 0#32) ∧ SameTarget resource result ∧
      ((status = 0 ∧ RemovesFirst resource result u g ∧
          ((∀ x ∈ result.entries, ¬ IsFor x u g) ↔ occurrences resource u g = 1)) ∨
        (status = -1 ∧ result = resource)) := by
  obtain ⟨t,result,status,hcall,hok,hsame,hcases⟩ := aclRemoveEntry_spec halloc (h.ok halloc) u g
  refine ⟨t,result,status,hcall,hok.length.symm,hok.empty,hsame,?_⟩
  rcases hcases with ⟨hstatus,hremoved⟩ | ⟨hstatus,hkept,-⟩
  · exact .inl ⟨hstatus,hremoved,removesFirst_complete hremoved⟩
  · exact .inr ⟨hstatus,hkept⟩

-- the second of three entries removed
theorem remove_entry_revokes_second : ∃ s resource t result, Reachable bumpAllocator s resource ∧
    resource.entries.length = 3 ∧
    aclRemoveEntry bumpAllocator s (some resource) 5#32 7#32 = some (t,some result,0) ∧
    RemovesFirst resource result 5#32 7#32 ∧ ∀ x ∈ result.entries, ¬ IsFor x 5#32 7#32 := by
  have hone := @Reachable.add bumpAllocator _ _ _ _ 1#32 2#32 4#32 _ (.empty .boot .file none) rfl
  have htwo := @Reachable.add bumpAllocator _ _ _ _ 5#32 7#32 1#32 _ hone rfl
  have hthree := @Reachable.add bumpAllocator _ _ _ _ 3#32 7#32 2#32 _ htwo rfl
  obtain ⟨t,result,status,hcall,-,-,-,hcases⟩ := remove_entry_revokes_first bumpAllocator
    bumpAllocator_fresh _ _ hthree 5#32 7#32
  have hzero : 0 = status := (Prod.mk.inj (Prod.mk.inj (Option.some.inj hcall)).2).2
  subst hzero
  rcases hcases with ⟨-,hfirst,hcomplete⟩ | ⟨hstatus,-⟩
  · exact ⟨_,_,t,result,hthree,rfl,hcall,hfirst,hcomplete.mpr (by decide)⟩
  · exact absurd hstatus (by decide)

-- the pair (5, 7) added twice and removed once
theorem repeated_entry_left : ∃ s resource t result, Reachable bumpAllocator s resource ∧
    aclRemoveEntry bumpAllocator s (some resource) 5#32 7#32 = some (t,some result,0) ∧
    ∃ x ∈ result.entries, IsFor x 5#32 7#32 := by
  have hone := @Reachable.add bumpAllocator _ _ _ _ 5#32 7#32 1#32 _ (.empty .boot .file none) rfl
  have htwo := @Reachable.add bumpAllocator _ _ _ _ 5#32 7#32 2#32 _ hone rfl
  exact ⟨_,_,_,_,htwo,rfl,_,List.mem_cons_self,by decide⟩

end Runs

end KluxOS.Acl
