import KluxOS.Memory.FrameBitmap

namespace KluxOS.Memory

def tableSlot (dir address : Uint32) : Uint32 := dir + 4#32 * (address / pageSize / 1024#32)

def pageIndex (address : Uint32) : Uint32 := address / pageSize % 1024#32

def PageAligned (address : Uint32) : Prop := address.toNat % 4096 = 0

instance (address : Uint32) : Decidable (PageAligned address) := Nat.decEq _ _

section Lookup

variable (image : KernelImage) {s : MemoryState} {dir address : Uint32}

theorem getPage_present (hpresent : s.words (tableSlot dir address) ≠ 0#32) (make : Bool) :
    getPage image s address make dir =
      (s,s.words (tableSlot dir address) + 4#32 * pageIndex address) := by
  rw [getPage]
  dsimp only
  rw [if_neg fun h => hpresent h.2]
  exact if_pos hpresent

variable (s dir address) in
-- get_page with make returns an entry of the table the directory then has
theorem getPage_entry : (getPage image s address true dir).2 =
    (getPage image s address true dir).1.words (tableSlot dir address) +
      4#32 * pageIndex address := by
  by_cases hpresent : s.words (tableSlot dir address) ≠ 0#32
  · rw [getPage_present image hpresent]
  · rw [getPage]
    dsimp only
    rw [if_pos ⟨rfl,not_not.mp hpresent⟩]
    rfl

theorem page_toNat : (address / pageSize).toNat = address.toNat / 4096 := by
  rw [BitVec.toNat_udiv]
  rfl

variable (address) in
theorem pageIndex_toNat : (pageIndex address).toNat = address.toNat / 4096 % 1024 := by
  rw [pageIndex,BitVec.toNat_umod,page_toNat]
  rfl

variable (dir) in
-- the next page has the next 32-bit entry of the same table
theorem next_page (haligned : PageAligned address) (hlast : (pageIndex address).toNat < 1023) :
    PageAligned (address + 4096#32) ∧
      tableSlot dir (address + 4096#32) = tableSlot dir address ∧
      pageIndex (address + 4096#32) = pageIndex address + 1#32 := by
  rw [pageIndex_toNat] at hlast
  unfold PageAligned at haligned ⊢
  have hlt := address.isLt
  have hnext : (address + 4096#32).toNat = address.toNat + 4096 :=
    BitVec.toNat_add_of_lt (by change _ + 4096 < _; omega)
  refine ⟨by omega,?_,?_⟩
  · have htable : (address + 4096#32) / pageSize / 1024#32 = address / pageSize / 1024#32 := by
      refine BitVec.eq_of_toNat_eq ?_
      have hsize : pageSize.toNat = 4096 := rfl
      have htables : (1024#32).toNat = 1024 := rfl
      simp only [BitVec.toNat_udiv,hnext,hsize,htables]
      omega
    rw [tableSlot,htable,tableSlot]
  · refine BitVec.eq_of_toNat_eq ?_
    rw [BitVec.toNat_add,pageIndex_toNat,pageIndex_toNat,hnext,BitVec.toNat_ofNat]
    omega

end Lookup

section Independent

variable (image : KernelImage) {s t : MemoryState} {dir a frame : Uint32}
  {is_kernel is_writeable : Bool}

-- alloc_frame on the descriptor of a keeps both words of every other descriptor of the
-- directory, and writes inside the table of a only
def Independent (s : MemoryState) (dir a : Uint32) (is_kernel is_writeable : Bool) : Prop :=
  ∃ s' page t, getPage image s a true dir = (s',page) ∧
    allocFrame image s' page is_kernel is_writeable = some t ∧
    (∀ b other, PageAligned b → b ≠ a → getPage image s' b true dir = (s',other) →
      t.words other = s'.words other ∧ t.words (other + 4#32) = s'.words (other + 4#32)) ∧
    ∀ x, t.words x ≠ s'.words x → (x - s'.words (tableSlot dir a)).toNat < 4096

theorem allocWords_used (s : MemoryState) (frame : Uint32) (is_kernel is_writeable : Bool) :
    (allocWords image s frame is_kernel is_writeable (flagsAddress frame)).getLsbD 0 = true := by
  rw [allocWords]
  by_cases hentry : flagsAddress frame = entryAddress image frame
  · rw [hentry,Function.update_self]
    simp
  · rw [Function.update_of_ne hentry,Function.update_self,allocFlags]
    simp [setField]

theorem allocFrame_changes (hunused : used s frame = false)
    (h : allocFrame image s frame is_kernel is_writeable = some t) :
    t.words (frame + 4#32) ≠ s.words (frame + 4#32) := by
  rw [allocFrame_unused image hunused] at h
  cases h
  intro hsame
  have hset := allocWords_used image s frame is_kernel is_writeable
  have hflags : allocWords image s frame is_kernel is_writeable (flagsAddress frame) =
      s.words (flagsAddress frame) := hsame
  rw [hflags] at hset
  cases hset.symm.trans hunused

theorem independent_used (haligned : PageAligned a)
    (htable : (getPage image s a true dir).1.words (tableSlot dir a) ≠ 0#32)
    (h : Independent image s dir a is_kernel is_writeable) :
    used (getPage image s a true dir).1 (getPage image s a true dir).2 = true := by
  obtain ⟨s',page,t,hpage,halloc,hother,hinside⟩ := h
  have hentry := getPage_entry image s dir a
  rw [hpage] at htable hentry ⊢
  dsimp only at htable hentry ⊢
  by_contra hunused
  have hchange := allocFrame_changes image (Bool.eq_false_iff.mpr hunused) halloc
  by_cases hlast : (pageIndex a).toNat < 1023
  · obtain ⟨hnext,hslot,hindex⟩ := next_page dir haligned hlast
    have hne : a + 4096#32 ≠ a := by
      intro heq
      bv_omega
    have hget : getPage image s' (a + 4096#32) true dir = (s',page + 4#32) := by
      rw [← hslot] at htable
      rw [getPage_present image htable,hslot,hindex,hentry,BitVec.mul_add,BitVec.add_assoc]
      rfl
    exact hchange (hother _ _ hnext hne hget).1
  · have hbeyond := hinside _ hchange
    have hindex := pageIndex_toNat a
    have hend : pageIndex a = 1023#32 := BitVec.eq_of_toNat_eq (by
      rw [BitVec.toNat_ofNat]
      omega)
    rw [hentry,hend] at hbeyond
    have hdiff : s'.words (tableSlot dir a) + 4#32 * 1023#32 + 4#32 -
        s'.words (tableSlot dir a) = 4096#32 := by
      bv_omega
    rw [hdiff] at hbeyond
    exact absurd hbeyond (by decide)

theorem page_descriptors_independent (haligned : PageAligned a)
    (htable : (getPage image s a true dir).1.words (tableSlot dir a) ≠ 0#32) :
    Independent image s dir a is_kernel is_writeable ↔
      used (getPage image s a true dir).1 (getPage image s a true dir).2 = true := by
  refine ⟨independent_used image haligned htable,fun hused => ?_⟩
  exact ⟨_,_,_,rfl,allocFrame_used image hused _ _,fun _ _ _ _ _ => ⟨rfl,rfl⟩,
    fun x hx => absurd rfl hx⟩

end Independent

section Example

-- page 0 has its table at 2 MB, and the word after its entry says it is used
def usedPage : MemoryState :=
  { bootState with words := fun x =>
      if x = 0x100000#32 then 0x200000#32 else if x = 0x200004#32 then 0x7#32 else 0#32 }

theorem page_descriptors_independent_used :
    Independent bootImage usedPage 0x100000#32 0#32 true false :=
  (page_descriptors_independent bootImage (by decide) (by decide)).mpr (by decide)

-- get_page makes the first table, and page 1 has the word after page 0
theorem page_descriptors_collide :
    ¬ Independent bootImage bootState 0x100000#32 0#32 true false := by
  intro h
  have hused := independent_used bootImage (by decide) (by decide) h
  exact absurd hused (by decide)

end Example

end KluxOS.Memory
