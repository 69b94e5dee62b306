import KluxOS.Fs.Nodes
import KluxOS.Syscall.Syscall

namespace KluxOS.Acl

open KernelState Fs Syscall

def aclPermRead : Uint32 := 1#32

def aclPermWrite : Uint32 := 2#32

def aclPermExec : Uint32 := 4#32

def aclPermAll : Uint32 := 7#32

def aclUserRoot : Uint32 := 0#32

structure AclEntry where
  user_id : Uint32
  group_id : Uint32
  permissions : Uint32
deriving DecidableEq

inductive AclResourceType where
  | file
  | process
  | memory
  | network
deriving DecidableEq

-- entries is the block that the pointer acl names
structure AclResource where
  type : AclResourceType
  resource : Option NodePtr
  acl : Uint32
  entries : List AclEntry
  acl_count : Uint32
deriving DecidableEq

section Entries

-- sizeof(acl_entry_t)
def aclEntrySize : Uint32 := 12#32

-- the first n entries of the old block, copied; none reads past its end
def copyEntries (entries : List AclEntry) (n : ℕ) : Option (List AclEntry) :=
  if n ≤ entries.length then some (entries.take n) else none

def aclAddEntry (alloc : Allocator) (s : KernelState) (resource : Option AclResource)
    (user_id group_id perms : Uint32) : Option (KernelState × Option AclResource × ℤ) :=
  match resource with
  | none => some (s,none,-1)
  | some resource =>
    match allocate alloc s ((resource.acl_count + 1#32) * aclEntrySize) with
    | (s,new_acl) =>
      if new_acl = 0#32 then some (s,some resource,-1)
      else do
        let copied ← copyEntries resource.entries resource.acl_count.toNat
        let s := kfree s resource.acl
        let resource := { resource with
          acl := new_acl
          entries := copied ++ [⟨user_id,group_id,perms⟩]
          acl_count := resource.acl_count + 1#32 }
        some (s,some resource,0)

def aclScan (entries : List AclEntry) (user_id group_id perm : Uint32) : ℕ → ℕ → Option ℤ
  | 0,_ => some 0
  | n + 1,i => do
    let entry ← entries[i]?
    if (entry.user_id = user_id ∨ entry.group_id = group_id) ∧ entry.permissions &&& perm = perm
    then some 1
    else aclScan entries user_id group_id perm n (i + 1)

def aclCheckPermission (resource : Option AclResource) (user_id group_id perm : Uint32) :
    Option ℤ :=
  match resource with
  | none => some 0
  | some resource =>
    if resource.acl = 0#32 then some 0
    else if user_id = aclUserRoot then some 1
    else aclScan resource.entries user_id group_id perm resource.acl_count.toNat 0

end Entries

section Protect

-- sizeof(acl_resource_t)
def aclResourceSize : Uint32 := 16#32

def protectedMask (perms : Uint32) : Uint32 :=
  let mask := 0#32
  let mask := if perms &&& aclPermRead ≠ 0#32 then mask ||| fsPermRead else mask
  let mask := if perms &&& aclPermWrite ≠ 0#32 then mask ||| fsPermWrite else mask
  if perms &&& aclPermExec ≠ 0#32 then mask ||| fsPermExec else mask

-- the resource is built in a block nothing else names; it is returned here to be looked at
def aclProtectFile (alloc : Allocator) (s : KernelState) (file : Option NodePtr)
    (user_id group_id perms : Uint32) : Option (KernelState × Option AclResource × ℤ) :=
  match file with
  | none => some (s,none,-1)
  | some p =>
    match allocate alloc s aclResourceSize with
    | (s,block) =>
      if block = 0#32 then some (s,none,-1)
      else do
        let (s,resource,status) ←
          aclAddEntry alloc s (some ⟨.file,file,0#32,[],0#32⟩) user_id group_id perms
        if status < 0 then some (kfree s block,none,-1)
        else
          let node ← s.nodes[p]?
          let s := s.setNode p
            { node with mask := protectedMask perms, uid := user_id, gid := group_id }
          some (s,resource,0)

end Protect

section Mask

def Subset (a perms : Uint32) : Prop := perms &&& a = a

theorem and_bit (x : Uint32) (i : ℕ) :
    x &&& BitVec.twoPow 32 i = if x.getLsbD i then BitVec.twoPow 32 i else 0#32 := by
  rw [BitVec.and_twoPow]

theorem protectedMask_eq (perms : Uint32) : protectedMask perms = perms &&& aclPermAll := by
  have hread : perms &&& aclPermRead = if perms.getLsbD 0 then 1#32 else 0#32 := and_bit perms 0
  have hwrite : perms &&& aclPermWrite = if perms.getLsbD 1 then 2#32 else 0#32 := and_bit perms 1
  have hexec : perms &&& aclPermExec = if perms.getLsbD 2 then 4#32 else 0#32 := and_bit perms 2
  have hall : aclPermAll = aclPermRead ||| aclPermWrite ||| aclPermExec := rfl
  rw [hall,BitVec.and_or_distrib_left,BitVec.and_or_distrib_left]
  simp only [protectedMask,hread,hwrite,hexec]
  cases perms.getLsbD 0 <;> cases perms.getLsbD 1 <;> cases perms.getLsbD 2 <;> rfl

theorem low_subset {perms a : Uint32} (ha : Subset a aclPermAll) :
    protectedMask perms &&& a = a ↔ Subset a perms := by
  have hlow : aclPermAll &&& a = a := ha
  rw [protectedMask_eq,BitVec.and_assoc,hlow]
  rfl

theorem low_shift (perms a : Uint32) {k : ℕ} (hk : 3 ≤ k) :
    protectedMask perms &&& (a <<< k) = 0#32 := by
  have hzero : aclPermAll &&& (a <<< k) = 0#32 := by
    refine BitVec.eq_of_getLsbD_eq fun i hi => ?_
    rw [BitVec.getLsbD_and,BitVec.getLsbD_shiftLeft,BitVec.getLsbD_zero]
    by_cases hik : i < k
    · simp [hik]
    · have hpow : 7 < 2 ^ i := lt_of_lt_of_le (by decide) (Nat.pow_le_pow_right (by decide)
        (hk.trans (Nat.le_of_not_lt hik)))
      have hbit : aclPermAll.getLsbD i = false := Nat.testBit_lt_two_pow hpow
      rw [hbit,Bool.false_and]
  rw [protectedMask_eq,BitVec.and_assoc,hzero,BitVec.and_zero]

theorem toNat_le_of_subset {a : Uint32} (ha : Subset a aclPermAll) : a.toNat ≤ 7 := by
  have hnat := congrArg BitVec.toNat ha
  rw [BitVec.toNat_and] at hnat
  rw [← hnat]
  exact Nat.and_le_left

-- shifted into the owner's or the group's field, what is asked for is never in the mask
theorem shift_subset {perms a : Uint32} (ha : Subset a aclPermAll) {k : ℕ} (hk : 3 ≤ k)
    (hk' : k ≤ 29) : protectedMask perms &&& (a <<< k) = a <<< k ↔ a = 0#32 := by
  rw [low_shift perms a hk,eq_comm]
  constructor
  · intro hzero
    have hnat := congrArg BitVec.toNat hzero
    have hle := toNat_le_of_subset ha
    have hpow : 2 ^ k ≤ 2 ^ 29 := Nat.pow_le_pow_right (by decide) hk'
    have hfit : a.toNat * 2 ^ k < 2 ^ 32 := by
      calc a.toNat * 2 ^ k ≤ 7 * 2 ^ 29 := Nat.mul_le_mul hle hpow
        _ < 2 ^ 32 := by decide
    rw [BitVec.toNat_shiftLeft,Nat.shiftLeft_eq,Nat.mod_eq_of_lt hfit] at hnat
    rcases Nat.mul_eq_zero.mp hnat with ha | hpow
    · exact BitVec.eq_of_toNat_eq ha
    · exact absurd hpow (Nat.two_pow_pos k).ne'
  · rintro rfl
    simp

end Mask

section Agreement

variable {alloc : Allocator} {s t : KernelState} {p : NodePtr} {resource : Option AclResource}

theorem kfree_nodes (ptr : Uint32) : (kfree s ptr).nodes = s.nodes := by
  rw [kfree]
  split <;> rfl

theorem allocate_kept (size : Uint32) : (allocate alloc s size).1.nodes = s.nodes := by
  rw [allocate_nodes]

theorem aclAddEntry_first {s' : KernelState} {p : NodePtr} {u g perms : Uint32} {status : ℤ}
    (h : aclAddEntry alloc s (some ⟨.file,some p,0#32,[],0#32⟩) u g perms =
      some (s',resource,status)) : s'.nodes = s.nodes ∧
    (0 ≤ status → ∃ acl ≠ 0#32, resource = some ⟨.file,some p,acl,[⟨u,g,perms⟩],1#32⟩) := by
  simp only [aclAddEntry] at h
  split at h
  · cases h
    exact ⟨allocate_kept _,fun hpos => absurd hpos (by decide)⟩
  · next hblock =>
    cases h
    exact ⟨(kfree_nodes _).trans (allocate_kept _),fun _ => ⟨_,hblock,rfl⟩⟩

theorem aclProtectFile_success {u g perms : Uint32}
    (h : aclProtectFile alloc s (some p) u g perms = some (t,resource,0)) :
    (∃ acl ≠ 0#32, resource = some ⟨.file,some p,acl,[⟨u,g,perms⟩],1#32⟩) ∧
      ∃ n, t.nodes[p]? = some n ∧ n.mask = protectedMask perms ∧ n.uid = u ∧ n.gid = g := by
  simp only [aclProtectFile] at h
  split at h
  · cases h
  · obtain ⟨⟨s',resource',status⟩,hadd,h⟩ := Option.bind_eq_some_iff.mp h
    simp only at h
    split at h
    · cases h
    · next hstatus =>
      obtain ⟨n,hn,h⟩ := Option.bind_eq_some_iff.mp h
      cases h
      exact ⟨(aclAddEntry_first hadd).2 (Int.not_lt.mp hstatus),_,setNode_self hn,rfl,rfl,rfl⟩

variable {u g perms u' g' a : Uint32}

theorem granted_iff (q : Prop) [Decidable q] :
    (if q then some (1 : ℤ) else some 0) = some 1 ↔ q := by
  split
  · next hq => exact iff_of_true rfl hq
  · next hq => exact iff_of_false (fun h => by cases h) hq

theorem aclCheck_iff {acl : Uint32} (hacl : acl ≠ 0#32) :
    aclCheckPermission (some ⟨.file,some p,acl,[⟨u,g,perms⟩],1#32⟩) u' g' a = some 1 ↔
      u' = 0#32 ∨ (u = u' ∨ g = g') ∧ Subset a perms := by
  simp only [aclCheckPermission,if_neg hacl]
  by_cases hroot : u' = 0#32
  · exact iff_of_true (if_pos hroot) (.inl hroot)
  · have hscan : aclScan [⟨u,g,perms⟩] u' g' a (1#32).toNat 0 =
        if (u = u' ∨ g = g') ∧ perms &&& a = a then some 1 else some 0 := rfl
    have hnot : ¬ u' = aclUserRoot := hroot
    rw [if_neg hnot,hscan,or_iff_right hroot,granted_iff]
    rfl

theorem fsCheck_iff {n : FsNode} (hn : t.nodes[p]? = some n) (hmask : n.mask = protectedMask perms)
    (huid : n.uid = u) (hgid : n.gid = g) (ha : Subset a aclPermAll) :
    fsCheckPermission t (some p) a u' g' = some 1 ↔
      u' = 0#32 ∨ if u = u' ∨ g = g' then a = 0#32 else Subset a perms := by
  subst huid hgid
  simp only [fsCheckPermission,hn,Option.bind_eq_bind,Option.bind_some,hmask]
  by_cases hroot : u' = 0#32
  · exact iff_of_true (if_pos hroot) (.inl hroot)
  · rw [if_neg hroot,or_iff_right hroot]
    by_cases howner : n.uid = u'
    · rw [if_pos howner,if_pos (Or.inl howner),granted_iff]
      exact shift_subset ha (by decide) (by decide)
    · rw [if_neg howner]
      by_cases hgroup : n.gid = g'
      · rw [if_pos hgroup,if_pos (Or.inr hgroup),granted_iff]
        exact shift_subset ha (by decide) (by decide)
      · have hneither : ¬ (n.uid = u' ∨ n.gid = g') := not_or.mpr ⟨howner,hgroup⟩
        rw [if_neg hgroup,if_neg hneither,granted_iff]
        exact low_subset ha

end Agreement

theorem permission_systems_agree (alloc : Allocator) (s t : KernelState) (p : NodePtr)
    (resource : Option AclResource) (u g perms a u' g' : Uint32) (ha : Subset a aclPermAll)
    (h : aclProtectFile alloc s (some p) u g perms = some (t,resource,0)) :
    (fsCheckPermission t (some p) a u' g' = some 1 ↔
        aclCheckPermission resource u' g' a = some 1) ↔
      u' = 0#32 ∨ ¬ Subset a perms ∨ a = 0#32 ∧ (u = u' ∨ g = g') := by
  obtain ⟨⟨acl,hacl,rfl⟩,n,hn,hmask,huid,hgid⟩ := aclProtectFile_success h
  have hnone : a = 0#32 → Subset a perms := by
    rintro rfl
    exact BitVec.and_zero
  rw [aclCheck_iff hacl,fsCheck_iff hn hmask huid hgid ha]
  by_cases hmatch : u = u' ∨ g = g'
  · rw [if_pos hmatch]
    tauto
  · rw [if_neg hmatch]
    tauto

def oneFile : KernelState := { boot with nodes := [{}] }

theorem permission_systems_agree_root : ∃ t resource,
    aclProtectFile constantAllocator oneFile (some 0) 1000#32 1000#32 aclPermRead =
      some (t,resource,0) ∧
    (fsCheckPermission t (some 0) aclPermRead 0#32 0#32 = some 1 ↔
      aclCheckPermission resource 0#32 0#32 aclPermRead = some 1) :=
  ⟨_,_,rfl,(permission_systems_agree constantAllocator oneFile _ 0 _ 1000#32 1000#32 aclPermRead
    aclPermRead 0#32 0#32 (by decide : aclPermAll &&& aclPermRead = aclPermRead) rfl).mpr
    (.inl rfl)⟩

theorem owner_denied : ∃ t resource,
    aclProtectFile constantAllocator oneFile (some 0) 1000#32 1000#32 aclPermRead =
      some (t,resource,0) ∧
    fsCheckPermission t (some 0) aclPermRead 1000#32 1000#32 = some 0 ∧
    aclCheckPermission resource 1000#32 1000#32 aclPermRead = some 1 :=
  ⟨_,_,rfl,by decide,by decide⟩

end KluxOS.Acl
