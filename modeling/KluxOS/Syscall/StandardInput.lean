import KluxOS.Syscall.DescriptorTable

namespace KluxOS.Syscall

open KernelState Fs Run

-- the characters not yet read, oldest first
def unread (s : KernelState) : List Uint8 :=
  s.keyboard_buffer.toList.take s.keyboard_buffer_pos.toNat

def ReadsFifo (hooks : Hooks) (s : KernelState) (count : Uint32) : Prop :=
  ∃ t n data, syscallRead hooks s 0 count = some (t,n,data) ∧
    n.toNat = min count.toNat s.keyboard_buffer_pos.toNat ∧ data.length = n.toNat ∧
    data ++ unread t = unread s ∧
    t.keyboard_buffer_pos.toNat = s.keyboard_buffer_pos.toNat - n.toNat

-- after init_syscalls: calls on descriptors, and steps that leave fd_table as it is (the other
-- system calls, the rest of the kernel and the keyboard)
inductive Reached (hooks : Hooks) (alloc : Allocator) : KernelState → Prop
  | init (s : KernelState) : s.fd_table = Vector.replicate 32 ⟨false,none,0#32⟩ →
      Reached hooks alloc s
  | call (s t : KernelState) (c : FdCall) : Reached hooks alloc s →
      fdStep hooks alloc s c = some t → Reached hooks alloc t
  | other (s t : KernelState) : Reached hooks alloc s → SameTable s t → Reached hooks alloc t

section Shift

variable {s : KernelState} {count : Uint32}

theorem mapM_get? {n k : ℕ} (a : Vector Uint8 n) (hk : k ≤ n) :
    (List.range k).mapM (fun (i : ℕ) => CArray.get? a i) = some (a.toList.take k) := by
  induction k with
  | zero => rfl
  | succ k ih =>
    rw [List.range_succ,List.mapM_append,ih (by omega),List.take_add_one,CArray.toList_get?,
      CArray.get?_eq a (k := k) hk rfl]
    simp [CArray.get?_eq a (k := k) hk rfl]

theorem readStdin_eq (hpos : s.keyboard_buffer_pos.toNat ≤ 256) {n : Uint32}
    (hn : (if count > s.keyboard_buffer_pos then s.keyboard_buffer_pos else count) = n)
    (hle : n ≤ s.keyboard_buffer_pos) : ∃ t, syscallReadStdin s count =
      some (t,n,s.keyboard_buffer.toList.take n.toNat) ∧ unread t = (unread s).drop n.toNat ∧
        t.keyboard_buffer_pos = s.keyboard_buffer_pos - n := by
  have hle' := BitVec.le_def.mp hle
  have hsub := BitVec.toNat_sub_of_le hle
  simp only [syscallReadStdin,hn]
  by_cases hsome : n > 0#32
  · rw [if_pos hsome,mapM_get? _ (hle'.trans hpos)]
    simp only [Option.bind_eq_bind,Option.bind_some]
    by_cases hpart : n < s.keyboard_buffer_pos
    · obtain ⟨b,hb,hget⟩ := CArray.storeLoop_move s.keyboard_buffer (d := n.toNat)
        (k := (s.keyboard_buffer_pos - n).toNat) (by omega)
      simp only [CArray.storeLoop,Int.zero_add,Option.bind_eq_bind] at hb
      rw [if_pos hpart,hb]
      refine ⟨_,rfl,List.ext_getElem? fun m => ?_,rfl⟩
      simp only [unread,List.getElem?_drop,List.getElem?_take,CArray.toList_get?,hget]
      by_cases hm : m < (s.keyboard_buffer_pos - n).toNat
      · rw [if_pos hm,if_pos hm,if_pos (by omega),Nat.add_comm n.toNat m]
      · rw [if_neg hm,if_neg (by omega)]
    · have heq : n = s.keyboard_buffer_pos := BitVec.le_antisymm hle (BitVec.not_lt.mp hpart)
      rw [if_neg hpart]
      refine ⟨_,rfl,?_,?_⟩
      · simp [unread,heq]
      · simp [heq]
  · have hzero : n = 0#32 := by bv_omega
    rw [if_neg hsome,hzero]
    exact ⟨s,rfl,rfl,by simp⟩

theorem readStdin_fifo (hpos : s.keyboard_buffer_pos.toNat ≤ 256) (count : Uint32) : ∃ t n data,
    syscallReadStdin s count = some (t,n,data) ∧
      n.toNat = min count.toNat s.keyboard_buffer_pos.toNat ∧ data.length = n.toNat ∧
      data ++ unread t = unread s ∧
      t.keyboard_buffer_pos.toNat = s.keyboard_buffer_pos.toNat - n.toNat := by
  obtain ⟨n,hn⟩ : ∃ n, (if count > s.keyboard_buffer_pos then s.keyboard_buffer_pos else count) = n :=
    ⟨_,rfl⟩
  have hmin : n.toNat = min count.toNat s.keyboard_buffer_pos.toNat := by
    rw [← hn]
    split
    · next hgt => rw [min_eq_right (BitVec.le_def.mp (BitVec.le_of_lt hgt))]
    · next hle => rw [min_eq_left (BitVec.le_def.mp (BitVec.not_lt.mp hle))]
  have hle : n ≤ s.keyboard_buffer_pos := BitVec.le_def.mpr (hmin ▸ min_le_right _ _)
  obtain ⟨t,ht,hunread,hrest⟩ := readStdin_eq hpos hn hle
  refine ⟨t,n,_,ht,hmin,?_,?_,?_⟩
  · have hle' := BitVec.le_def.mp hle
    rw [List.length_take,Vector.length_toList,min_eq_left (hle'.trans hpos)]
  · have hdata : s.keyboard_buffer.toList.take n.toNat = (unread s).take n.toNat := by
      rw [unread,List.take_take,min_eq_left (BitVec.le_def.mp hle)]
    rw [hdata,hunread,List.take_append_drop]
  · rw [hrest,BitVec.toNat_sub_of_le hle]

end Shift

section Reached

variable {hooks : Hooks} {alloc : Allocator} {s : KernelState} {count : Uint32}

-- find_free_fd starts at 3
theorem not_opens_zero (hkeep : HooksKeep hooks SameTable) (c : FdCall) :
    NotOpened hooks alloc 0 s c := by
  rintro pathname flags u - hcall
  rcases open_table hkeep hcall with ⟨h,-⟩ | ⟨i,p,offset,hfree,hi,-⟩
  · exact absurd h (by decide)
  · have hthree := (findFreeFd_some hfree).1
    omega

theorem reached_unused (hkeep : HooksKeep hooks SameTable) (h : Reached hooks alloc s) :
    Unused 0 s := by
  induction h with
  | init s hzero => rw [Unused,zeroed_entry hzero 0]
  | call s t c _ hstep ih => exact stays_unused hkeep (fdIndex_val 0) ih (not_opens_zero hkeep c) hstep
  | other s t _ hsame ih =>
    rw [Unused,hsame]
    exact ih

theorem readsFifo_iff (hpos : s.keyboard_buffer_pos.toNat ≤ 256) :
    ReadsFifo hooks s count ↔ (s.fd_table.get 0).used = true := by
  have hfd : fdIndex 0 = some 0 := rfl
  cases hused : (s.fd_table.get 0).used with
  | true =>
    refine iff_of_true ?_ rfl
    obtain ⟨t,n,data,hread,hfifo⟩ := readStdin_fifo hpos count
    refine ⟨t,n,data,?_,hfifo⟩
    simp only [syscallRead,hfd,hused,Bool.true_eq_false,if_false,if_true]
    exact hread
  | false =>
    refine iff_of_false ?_ Bool.false_ne_true
    rintro ⟨t,n,data,hread,hmin,-⟩
    simp only [syscallRead,hfd,hused,if_true] at hread
    cases hread
    have hfailed : failed.toNat = 2 ^ 32 - 1 := rfl
    omega

theorem standard_input_unreadable (hkeep : HooksKeep hooks SameTable)
    (hpos : s.keyboard_buffer_pos.toNat ≤ 256) (count : Uint32) :
    (ReadsFifo hooks s count ↔ (s.fd_table.get 0).used = true) ∧
      (Reached hooks alloc s → ¬ ReadsFifo hooks s count) := by
  refine ⟨readsFifo_iff hpos,fun hreached hfifo => ?_⟩
  have hunused : (s.fd_table.get 0).used = false := reached_unused hkeep hreached
  rw [(readsFifo_iff hpos).mp hfifo] at hunused
  cases hunused

end Reached

-- one character waits at the keyboard
def typedRoot : KernelState :=
  { plainRoot with
    keyboard_buffer := plainRoot.keyboard_buffer.set 0 97#8
    keyboard_buffer_pos := 1#32 }

theorem standard_input_unreadable_typed : Reached treeHooks constantAllocator typedRoot ∧
    ¬ ReadsFifo treeHooks typedRoot 1#32 := by
  have hreached : Reached treeHooks constantAllocator typedRoot := .init typedRoot rfl
  exact ⟨hreached,(standard_input_unreadable (treeHooks_keep fun _ => rfl) (by decide) 1#32).2
    hreached⟩

theorem typed_character_refused : Reached treeHooks constantAllocator typedRoot ∧
    unread typedRoot = [97#8] ∧
    ∃ t, syscallRead treeHooks typedRoot 0 1#32 = some (t,failed,[]) ∧ unread t = [97#8] ∧
      ¬ ReadsFifo treeHooks typedRoot 1#32 := by
  refine ⟨.init typedRoot rfl,by decide,_,rfl,by decide,?_⟩
  rintro ⟨t,n,data,hread,hmin,-⟩
  cases hread
  exact absurd hmin (by decide)

end KluxOS.Syscall
