import KluxOS.Security.AclRemove

namespace KluxOS.Acl

open Syscall

inductive AclEdit where
  | add (user_id group_id perms : Uint32)
  | remove (user_id group_id : Uint32)

namespace AclEdit

def user_id : AclEdit → Uint32
  | add user_id _ _ => user_id
  | remove user_id _ => user_id

def group_id : AclEdit → Uint32
  | add _ group_id _ => group_id
  | remove _ group_id => group_id

def isAdd : AclEdit → Bool
  | add _ _ _ => true
  | remove _ _ => false

end AclEdit

section Edits

variable (alloc : Allocator) (s : KernelState) (resource : AclResource)

def editEntry : AclEdit → Option (KernelState × Option AclResource × ℤ)
  | .add user_id group_id perms => aclAddEntry alloc s (some resource) user_id group_id perms
  | .remove user_id group_id => aclRemoveEntry alloc s (some resource) user_id group_id

-- the edit turns an empty list into a non-empty one, or a list of one entry into an empty one
def Flips : AclEdit → Prop
  | .add _ _ _ => resource.entries = [] ∧ alloc s.blocks aclEntrySize ≠ 0#32
  | .remove user_id group_id => ∃ perms, resource.entries = [(⟨user_id,group_id,perms⟩ : AclEntry)]

-- what an edit can do to the entries: those of other pairs stay, and an add takes none away
structure EditsOnly (edit : AclEdit) (result : AclResource) : Prop where
  others : ∀ x, ¬ IsFor x edit.user_id edit.group_id →
    (x ∈ result.entries ↔ x ∈ resource.entries)
  kept : edit.isAdd = true → ∀ x ∈ resource.entries, x ∈ result.entries
  flips : (result.entries = [] ↔ resource.entries = []) ↔ ¬ Flips alloc s resource edit

variable {alloc s resource}

theorem editsOnly_add (halloc : FreshBlocks alloc) (h : AclOk s resource) (u g perms : Uint32) :
    ∃ t result status, aclAddEntry alloc s (some resource) u g perms =
      some (t,some result,status) ∧ AclOk t result ∧
      EditsOnly alloc s resource (.add u g perms) result := by
  have hfirst : resource.entries = [] →
      (resource.acl_count + 1#32) * aclEntrySize = aclEntrySize := by
    intro hnil
    rw [h.empty.mp (h.nil.mpr hnil)]
    rfl
  by_cases hnull : alloc s.blocks ((resource.acl_count + 1#32) * aclEntrySize) = 0#32
  · refine ⟨s,resource,-1,aclAddEntry_null hnull u g perms,h,
      ⟨fun _ _ => Iff.rfl,fun _ _ hx => hx,iff_of_true Iff.rfl ?_⟩⟩
    rintro ⟨hnil,hnew⟩
    rw [hfirst hnil] at hnull
    exact hnew hnull
  · obtain ⟨t,result,hok,hcall,hentries,-⟩ := aclAddEntry_added halloc h hnull u g perms
    refine ⟨t,result,0,hcall,hok,⟨fun x hx => ?_,fun _ x hx => ?_,?_⟩⟩
    · rw [hentries,List.mem_append,List.mem_singleton]
      refine or_iff_left fun hnew => hx ?_
      rw [hnew]
      exact ⟨rfl,rfl⟩
    · rw [hentries]
      exact List.mem_append_left _ hx
    · rw [hentries,Flips]
      simp only [List.append_eq_nil_iff,List.cons_ne_nil,and_false,false_iff,not_and,not_not]
      refine ⟨fun hne hnil => absurd hnil hne,fun hflip hnil => ?_⟩
      rw [hfirst hnil] at hnull
      exact hnull (hflip hnil)

theorem editsOnly_remove (halloc : FreshBlocks alloc) (h : AclOk s resource) (u g : Uint32) :
    ∃ t result status, aclRemoveEntry alloc s (some resource) u g =
      some (t,some result,status) ∧ AclOk t result ∧
      EditsOnly alloc s resource (.remove u g) result := by
  obtain ⟨t,result,status,hcall,hok,-,hcases⟩ := aclRemoveEntry_spec halloc h u g
  refine ⟨t,result,status,hcall,hok,?_⟩
  rcases hcases with ⟨-,before,e,after,hsplit,he,-,hentries⟩ | ⟨-,rfl,hnot⟩
  · refine ⟨fun x hx => ?_,nofun,?_⟩
    · rw [hsplit,hentries,List.mem_append,List.mem_append,List.mem_cons]
      refine or_congr_right (or_iff_right fun hxe => hx ?_).symm
      rw [hxe]
      exact he
    · rw [hsplit,hentries,Flips,hsplit]
      simp only [List.append_eq_nil_iff,List.cons_ne_nil,and_false,iff_false]
      refine not_congr ⟨?_,?_⟩
      · rintro ⟨rfl,rfl⟩
        exact ⟨e.permissions,by rw [← he.1,← he.2]; rfl⟩
      · rintro ⟨perms,hone⟩
        have hlen := congrArg List.length hone
        rw [List.length_append,List.length_cons,List.length_singleton] at hlen
        exact ⟨List.length_eq_zero_iff.mp (by omega),List.length_eq_zero_iff.mp (by omega)⟩
  · exact ⟨fun _ _ => Iff.rfl,nofun,iff_of_true Iff.rfl hnot⟩

theorem editEntry_spec (halloc : FreshBlocks alloc) (h : AclOk s resource) (edit : AclEdit) :
    ∃ t result status, editEntry alloc s resource edit = some (t,some result,status) ∧
      AclOk t result ∧ EditsOnly alloc s resource edit result := by
  cases edit with
  | add u g perms => exact editsOnly_add halloc h u g perms
  | remove u g => exact editsOnly_remove halloc h u g

end Edits

section Answers

variable {s t : KernelState} {resource result : AclResource} {u g perm : Uint32}

theorem aclScan_answers (entries : List AclEntry) (u g perm : Uint32) {n i : ℕ}
    (hn : i + n ≤ entries.length) : aclScan entries u g perm n i = some 0 ∨
      aclScan entries u g perm n i = some 1 := by
  induction n generalizing i with
  | zero => exact .inl rfl
  | succ n ih =>
    have hget : entries[i]? = some entries[i] := List.getElem?_eq_getElem (by omega)
    simp only [aclScan,hget,Option.bind_eq_bind,Option.bind_some]
    split
    · exact .inr rfl
    · exact ih (by omega)

theorem aclCheck_answers (h : AclOk s resource) (u g perm : Uint32) :
    aclCheckPermission (some resource) u g perm = some 0 ∨ Grants resource u g perm := by
  simp only [Grants,aclCheckPermission]
  split
  · exact .inl rfl
  · split
    · exact .inr rfl
    · exact aclScan_answers _ _ _ _ (by rw [h.length]; omega)

theorem sameAnswer_iff (h : AclOk s resource) (h' : AclOk t result) :
    aclCheckPermission (some result) u g perm = aclCheckPermission (some resource) u g perm ↔
      (Grants result u g perm ↔ Grants resource u g perm) := by
  have hdiffer : (some 0 : Option ℤ) ≠ some 1 := by decide
  rcases aclCheck_answers h u g perm with hr | hr <;>
    rcases aclCheck_answers h' u g perm with hr' | hr' <;>
    · unfold Grants at *
      rw [hr,hr']
      simp [hdiffer]

theorem grants_root (h : AclOk s resource) (g perm : Uint32) :
    Grants resource aclUserRoot g perm ↔ resource.entries ≠ [] := by
  rw [ne_eq,← h.nil,Grants,aclCheckPermission]
  split
  · next hnull => exact iff_of_false (by decide) (not_not.mpr hnull)
  · next hset => exact iff_of_true rfl hset

theorem grants_user (h : AclOk s resource) (huser : u ≠ aclUserRoot) (g perm : Uint32) :
    Grants resource u g perm ↔ ∃ x ∈ resource.entries, Carries x u g perm := by
  rw [grants_iff h.length.ge huser,counted,List.take_of_length_le h.length.le]
  refine and_iff_right_of_imp ?_
  rintro ⟨x,hx,-⟩ hnull
  rw [h.nil.mp hnull] at hx
  cases hx

end Answers

section Frame

variable {alloc : Allocator} {s t : KernelState} {resource result : AclResource} {edit : AclEdit}
  {u g perm : Uint32}

theorem Carries.not_edited {x : AclEntry} (h : Carries x u g perm) (hu : u ≠ edit.user_id)
    (hg : g ≠ edit.group_id) : ¬ IsFor x edit.user_id edit.group_id := by
  rintro ⟨huser,hgroup⟩
  rcases h.1 with hsame | hsame
  · exact hu (hsame.symm.trans huser)
  · exact hg (hsame.symm.trans hgroup)

theorem user_unaffected (h : AclOk s resource) (h' : AclOk t result)
    (hedit : EditsOnly alloc s resource edit result) (hu : u ≠ edit.user_id)
    (hg : g ≠ edit.group_id) (huser : u ≠ aclUserRoot) (perm : Uint32) :
    Grants result u g perm ↔ Grants resource u g perm := by
  rw [grants_user h huser,grants_user h' huser]
  refine exists_congr fun x => and_congr_left fun hcarries => ?_
  exact hedit.others x (hcarries.not_edited hu hg)

theorem root_unaffected (h : AclOk s resource) (h' : AclOk t result)
    (hedit : EditsOnly alloc s resource edit result) (g perm : Uint32) :
    (Grants result aclUserRoot g perm ↔ Grants resource aclUserRoot g perm) ↔
      ¬ Flips alloc s resource edit := by
  rw [grants_root h,grants_root h',ne_eq,ne_eq,not_iff_not]
  exact hedit.flips

theorem add_keeps_grants (h : AclOk s resource) (h' : AclOk t result)
    (hedit : EditsOnly alloc s resource edit result) (hadd : edit.isAdd = true)
    (hgrants : Grants resource u g perm) : Grants result u g perm := by
  have hkept := hedit.kept hadd
  by_cases huser : u = aclUserRoot
  · subst huser
    rw [grants_root h']
    rw [grants_root h] at hgrants
    obtain ⟨x,hx⟩ := List.exists_mem_of_ne_nil _ hgrants
    exact List.ne_nil_of_mem (hkept x hx)
  · rw [grants_user h' huser]
    obtain ⟨x,hx,hcarries⟩ := (grants_user h huser g perm).mp hgrants
    exact ⟨x,hkept x hx,hcarries⟩

theorem edit_affects_matching (alloc : Allocator) (halloc : FreshBlocks alloc) (s : KernelState)
    (resource : AclResource) (h : Reachable alloc s resource) (edit : AclEdit) (u g : Uint32)
    (hu : u ≠ edit.user_id) (hg : g ≠ edit.group_id) :
    ∃ t result status, editEntry alloc s resource edit = some (t,some result,status) ∧
      ((∀ perm, aclCheckPermission (some result) u g perm =
          aclCheckPermission (some resource) u g perm) ↔
        ¬ (u = aclUserRoot ∧ Flips alloc s resource edit)) ∧
      (edit.isAdd = true → ∀ u g perm, Grants resource u g perm → Grants result u g perm) := by
  have hok := h.ok halloc
  obtain ⟨t,result,status,hcall,hok',hedit⟩ := editEntry_spec halloc hok edit
  refine ⟨t,result,status,hcall,?_,fun hadd u g perm => add_keeps_grants hok hok' hedit hadd⟩
  simp only [sameAnswer_iff hok hok']
  by_cases huser : u = aclUserRoot
  · subst huser
    simp only [root_unaffected hok hok' hedit,true_and]
    exact ⟨fun hall => hall 0#32,fun hflip _ => hflip⟩
  · exact iff_of_true (user_unaffected hok hok' hedit hu hg huser) fun hroot => huser hroot.1

def emptyResource : AclResource := ⟨.file,none,0#32,[],0#32⟩

theorem edit_affects_matching_second :
    ∃ t result status, editEntry bumpAllocator .boot emptyResource (.add 5#32 7#32 1#32) =
      some (t,some result,status) ∧ ∀ perm,
        aclCheckPermission (some result) 6#32 8#32 perm =
          aclCheckPermission (some emptyResource) 6#32 8#32 perm := by
  obtain ⟨t,result,status,hcall,hsame,-⟩ := edit_affects_matching bumpAllocator bumpAllocator_fresh
    .boot emptyResource (.empty .boot .file none) (.add 5#32 7#32 1#32) 6#32 8#32 (by decide)
    (by decide)
  exact ⟨t,result,status,hcall,hsame.mpr fun hroot => absurd hroot.1 (by decide)⟩

-- an entry for user 5 lets root in, who was refused while the list was empty
theorem first_entry_admits_root : Reachable bumpAllocator .boot emptyResource ∧
    ∃ t result, editEntry bumpAllocator .boot emptyResource (.add 5#32 7#32 1#32) =
        some (t,some result,0) ∧
      aclCheckPermission (some emptyResource) aclUserRoot 100#32 aclPermRead = some 0 ∧
      aclCheckPermission (some result) aclUserRoot 100#32 aclPermRead = some 1 :=
  ⟨.empty .boot .file none,_,_,rfl,rfl,rfl⟩

end Frame

end KluxOS.Acl
