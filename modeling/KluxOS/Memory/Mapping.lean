import KluxOS.Memory.PageDescriptors
import KluxOS.Memory.Paging

namespace KluxOS.Memory

section Directory

variable (image : KernelImage) (s : MemoryState) (page_directory : Uint32)

def directoryEntry (i : Fin 1024) : Uint32 := page_directory + 4#32 * BitVec.ofNat 32 i.val

-- page_directory points into memory: a call reads the entries that are there then
def withDirectory : KernelImage :=
  { image with page_directory := fun i => s.words (directoryEntry page_directory i) }

def translate (virtualaddr : Uint32) : Uint32 :=
  getPhysaddr (withDirectory image s page_directory) s virtualaddr

def mapInto (physaddr virtualaddr flags : Uint32) : MemoryState :=
  mapPage (withDirectory image s page_directory) s physaddr virtualaddr flags

def PresentTable (i : Fin 1024) : Prop :=
  s.words (directoryEntry page_directory i) &&& 1#32 ≠ 0#32

instance (i : Fin 1024) : Decidable (PresentTable s page_directory i) :=
  inferInstanceAs (Decidable (_ ≠ _))

def tableBase (i : Fin 1024) : Uint32 :=
  s.words (directoryEntry page_directory i) &&& ~~~0xFFF#32

def tableEntry (i k : Fin 1024) : Uint32 :=
  tableBase s page_directory i + 4#32 * BitVec.ofNat 32 k.val

structure SeparateTables : Prop where
  distinct : ∀ i j, PresentTable s page_directory i → PresentTable s page_directory j →
    tableBase s page_directory i = tableBase s page_directory j → i = j
  apart : ∀ i k j, PresentTable s page_directory i →
    tableEntry s page_directory i k ≠ directoryEntry page_directory j

def writeEntry (i k : Fin 1024) (word : Uint32) : MemoryState :=
  { s with words := Function.update s.words (tableEntry s page_directory i k) word }

def SamePage (a b : Uint32) : Prop := a.toNat / 4096 = b.toNat / 4096

-- the page of virtualaddr translates to physaddr, and one entry of a present table was written
structure Mapped (t : MemoryState) (physaddr virtualaddr : Uint32) : Prop where
  mapped : ∀ v, SamePage v virtualaddr →
    translate image t page_directory v = physaddr + (v &&& 0xFFF#32)
  kept : ∀ v, ¬ SamePage v virtualaddr →
    translate image t page_directory v = translate image s page_directory v
  written : ∃ i k word, PresentTable s page_directory i ∧ t = writeEntry s page_directory i k word

end Directory

section Entry

variable (image : KernelImage) {s t : MemoryState} {page_directory a b : Uint32}

def ptIndex (virtualaddr : Uint32) : Fin 1024 := ⟨virtualaddr.toNat / 4096 % 1024,by omega⟩

theorem pdIndex_val (v : Uint32) : (pdIndex v).val = v.toNat / 4096 / 1024 := by
  have hshift : (pdIndex v).val = v.toNat / 2 ^ 22 := by
    rw [← Nat.shiftRight_eq_div_pow,← BitVec.toNat_ushiftRight]
    rfl
  exact hshift.trans (by omega)

theorem samePage_iff : SamePage a b ↔ pdIndex a = pdIndex b ∧ ptIndex a = ptIndex b := by
  rw [SamePage,Fin.ext_iff,Fin.ext_iff,pdIndex_val,pdIndex_val,ptIndex,ptIndex]
  dsimp only
  omega

theorem ptIndex_eq (v : Uint32) : v >>> 12 &&& 0x03FF#32 = BitVec.ofNat 32 (ptIndex v).val := by
  apply BitVec.eq_of_toNat_eq
  have hmask : ∀ n : ℕ, n &&& 1023 = n % 1024 := fun n => Nat.and_two_pow_sub_one_eq_mod n 10
  rw [BitVec.toNat_and,BitVec.toNat_ushiftRight,Nat.shiftRight_eq_div_pow,BitVec.toNat_ofNat,
    BitVec.toNat_ofNat,ptIndex]
  change v.toNat / 4096 &&& 1023 = v.toNat / 4096 % 1024 % 2 ^ 32
  rw [hmask]
  omega

theorem entryAddress_eq (v : Uint32) : entryAddress (withDirectory image s page_directory) v =
    tableEntry s page_directory (pdIndex v) (ptIndex v) := by
  rw [entryAddress,ptIndex_eq]
  rfl

theorem tableBase_toNat (s : MemoryState) (page_directory : Uint32) (i : Fin 1024) :
    (tableBase s page_directory i).toNat =
      (s.words (directoryEntry page_directory i)).toNat / 4096 * 4096 := page_base _

theorem tableEntry_toNat (i k : Fin 1024) : (tableEntry s page_directory i k).toNat =
    (tableBase s page_directory i).toNat + 4 * k.val := by
  have hbase := tableBase_toNat s page_directory i
  have hlt := (tableBase s page_directory i).isLt
  have hk := k.isLt
  rw [tableEntry,BitVec.toNat_add,BitVec.toNat_mul,BitVec.toNat_ofNat,BitVec.toNat_ofNat]
  omega

-- tables are page aligned, so an entry tells its table and its place
theorem tableEntry_inj (h : SeparateTables s page_directory) {i j k l : Fin 1024}
    (hi : PresentTable s page_directory i) (hj : PresentTable s page_directory j)
    (heq : tableEntry s page_directory i k = tableEntry s page_directory j l) : i = j ∧ k = l := by
  have hsum := congrArg BitVec.toNat heq
  rw [tableEntry_toNat,tableEntry_toNat] at hsum
  have hbi := tableBase_toNat s page_directory i
  have hbj := tableBase_toNat s page_directory j
  have hk := k.isLt
  have hl := l.isLt
  exact ⟨h.distinct i j hi hj (BitVec.eq_of_toNat_eq (by omega)),Fin.ext (by omega)⟩

theorem translate_absent {v : Uint32} (h : ¬ PresentTable s page_directory (pdIndex v)) :
    translate image s page_directory v = 0#32 :=
  getPhysaddr_absent _ (not_not.mp h)

theorem translate_present {v : Uint32} (h : PresentTable s page_directory (pdIndex v)) :
    translate image s page_directory v =
      if s.words (tableEntry s page_directory (pdIndex v) (ptIndex v)) &&& 1#32 = 0#32 then 0#32
      else (s.words (tableEntry s page_directory (pdIndex v) (ptIndex v)) &&& ~~~0xFFF#32) +
        (v &&& 0xFFF#32) := by
  have hpresent : (withDirectory image s page_directory).page_directory (pdIndex v) &&& 1#32 ≠
      0#32 := h
  rw [translate,getPhysaddr,if_neg hpresent]
  dsimp only
  rw [entryAddress_eq]

end Entry

section Written

variable (image : KernelImage) {s : MemoryState} {page_directory word physaddr virtualaddr : Uint32}
  {i k : Fin 1024}

theorem mapInto_eq (s : MemoryState) (page_directory physaddr virtualaddr flags : Uint32) :
    mapInto image s page_directory physaddr virtualaddr flags =
      writeEntry s page_directory (pdIndex virtualaddr) (ptIndex virtualaddr)
        (physaddr ||| (flags &&& 0xFFF#32) ||| 1#32) := by
  rw [mapInto,mapPage,entryAddress_eq]
  rfl

-- no table overlaps the directory, so a write to a table leaves the directory alone
theorem writeEntry_directory (h : SeparateTables s page_directory)
    (hi : PresentTable s page_directory i) (j : Fin 1024) :
    (writeEntry s page_directory i k word).words (directoryEntry page_directory j) =
      s.words (directoryEntry page_directory j) :=
  Function.update_of_ne (h.apart i k j hi).symm _ _

theorem writeEntry_present (h : SeparateTables s page_directory)
    (hi : PresentTable s page_directory i) (j : Fin 1024) :
    PresentTable (writeEntry s page_directory i k word) page_directory j ↔
      PresentTable s page_directory j := by
  rw [PresentTable,PresentTable,writeEntry_directory h hi]

theorem writeEntry_tableEntry (h : SeparateTables s page_directory)
    (hi : PresentTable s page_directory i) (j l : Fin 1024) :
    tableEntry (writeEntry s page_directory i k word) page_directory j l =
      tableEntry s page_directory j l := by
  rw [tableEntry,tableBase,writeEntry_directory h hi,tableEntry,tableBase]

theorem writeEntry_kept (h : SeparateTables s page_directory)
    (hi : PresentTable s page_directory i) {v : Uint32}
    (hv : ¬ (pdIndex v = i ∧ ptIndex v = k)) :
    translate image (writeEntry s page_directory i k word) page_directory v =
      translate image s page_directory v := by
  by_cases hpresent : PresentTable s page_directory (pdIndex v)
  · have hother : tableEntry s page_directory (pdIndex v) (ptIndex v) ≠
        tableEntry s page_directory i k := fun heq => hv (tableEntry_inj h hpresent hi heq)
    have hword : (writeEntry s page_directory i k word).words
        (tableEntry s page_directory (pdIndex v) (ptIndex v)) =
          s.words (tableEntry s page_directory (pdIndex v) (ptIndex v)) :=
      Function.update_of_ne hother _ _
    rw [translate_present image hpresent,
      translate_present image ((writeEntry_present h hi _).mpr hpresent),
      writeEntry_tableEntry h hi,hword]
  · rw [translate_absent image hpresent,
      translate_absent image (mt (writeEntry_present h hi _).mp hpresent)]

theorem writeEntry_mapped (h : SeparateTables s page_directory)
    (hi : PresentTable s page_directory i) {v : Uint32} (hpd : pdIndex v = i)
    (hpt : ptIndex v = k) (hword : word &&& 1#32 ≠ 0#32) :
    translate image (writeEntry s page_directory i k word) page_directory v =
      (word &&& ~~~0xFFF#32) + (v &&& 0xFFF#32) := by
  subst hpd hpt
  have hself : (writeEntry s page_directory (pdIndex v) (ptIndex v) word).words
      (tableEntry s page_directory (pdIndex v) (ptIndex v)) = word :=
    Function.update_self _ _ _
  rw [translate_present image ((writeEntry_present h hi _).mpr hi),writeEntry_tableEntry h hi,hself,
    if_neg hword]

end Written

section Map

variable (image : KernelImage) {s : MemoryState} {page_directory physaddr virtualaddr : Uint32}

theorem page_or_flags (h : PageAligned physaddr) (flags : Uint32) :
    (physaddr ||| (flags &&& 0xFFF#32) ||| 1#32) &&& ~~~0xFFF#32 = physaddr := by
  have hlow : physaddr &&& ~~~0xFFF#32 = physaddr := by
    apply BitVec.eq_of_toNat_eq
    rw [page_base]
    unfold PageAligned at h
    omega
  conv_rhs => rw [← hlow]
  apply BitVec.eq_of_getLsbD_eq
  intro i hi
  rw [BitVec.getLsbD_and,BitVec.getLsbD_and,BitVec.getLsbD_or,BitVec.getLsbD_or,BitVec.getLsbD_and,
    BitVec.getLsbD_not,low_mask_getLsbD i hi,BitVec.getLsbD_one]
  by_cases h12 : i < 12
  · simp [h12]
  · have hzero : i ≠ 0 := by omega
    simp [h12,hzero]

theorem map_page_present (hphys : PageAligned physaddr) (h : SeparateTables s page_directory)
    (hpresent : PresentTable s page_directory (pdIndex virtualaddr)) (flags : Uint32) :
    Mapped image s page_directory (mapInto image s page_directory physaddr virtualaddr flags)
      physaddr virtualaddr := by
  rw [mapInto_eq]
  refine ⟨fun v hv => ?_,fun v hv => ?_,_,_,_,hpresent,rfl⟩
  · obtain ⟨hpd,hpt⟩ := samePage_iff.mp hv
    rw [writeEntry_mapped image h hpresent hpd hpt (mapped_word_present _ _),
      page_or_flags hphys flags]
  · exact writeEntry_kept image h hpresent (mt samePage_iff.mpr hv)

-- whatever entry was written, a page of an absent table still translates to NULL
theorem mapped_present {t : MemoryState} (h : SeparateTables s page_directory)
    (hmapped : Mapped image s page_directory t physaddr virtualaddr) :
    PresentTable s page_directory (pdIndex virtualaddr) := by
  obtain ⟨hmap,-,i,k,word,hi,rfl⟩ := hmapped
  by_contra habsent
  have hnull : ∀ v, SamePage v virtualaddr → physaddr + (v &&& 0xFFF#32) = 0#32 := by
    intro v hv
    rw [← hmap v hv]
    refine translate_absent image (mt (writeEntry_present h hi _).mp ?_)
    rw [(samePage_iff.mp hv).1]
    exact habsent
  have hbase := page_base virtualaddr
  have hlt := virtualaddr.isLt
  have hfirst := hnull (virtualaddr &&& ~~~0xFFF#32) (by unfold SamePage; omega)
  have hnext : ((virtualaddr &&& ~~~0xFFF#32) + 1#32).toNat =
      virtualaddr.toNat / 4096 * 4096 + 1 := by
    rw [BitVec.toNat_add,hbase,BitVec.toNat_ofNat]
    omega
  have hsecond := hnull ((virtualaddr &&& ~~~0xFFF#32) + 1#32) (by unfold SamePage; omega)
  have hoffset : (virtualaddr &&& ~~~0xFFF#32) &&& 0xFFF#32 =
      ((virtualaddr &&& ~~~0xFFF#32) + 1#32) &&& 0xFFF#32 :=
    (BitVec.add_right_inj physaddr).mp (hfirst.trans hsecond.symm)
  have hnat := congrArg BitVec.toNat hoffset
  rw [page_offset,page_offset,hnext,hbase] at hnat
  omega

theorem map_page_agrees (hphys : PageAligned physaddr) (h : SeparateTables s page_directory)
    (flags : Uint32) : Mapped image s page_directory
      (mapInto image s page_directory physaddr virtualaddr flags) physaddr virtualaddr ↔
        PresentTable s page_directory (pdIndex virtualaddr) :=
  ⟨mapped_present image h,fun hpresent => map_page_present image hphys h hpresent flags⟩

end Map

section Example

-- the directory at 3 MB has one table, at 4 MB
def oneTable : MemoryState :=
  { bootState with words := fun x => if x = 0x300000#32 then 0x400001#32 else 0#32 }

theorem oneTable_present {i : Fin 1024} : PresentTable oneTable 0x300000#32 i ↔ i = 0 := by
  have hentry : (directoryEntry 0x300000#32 i).toNat = 0x300000 + 4 * i.val := by
    have hi := i.isLt
    rw [directoryEntry,BitVec.toNat_add,BitVec.toNat_mul,BitVec.toNat_ofNat,BitVec.toNat_ofNat,
      BitVec.toNat_ofNat]
    omega
  constructor
  · intro h
    by_contra hne
    have hother : directoryEntry 0x300000#32 i ≠ 0x300000#32 := by
      intro heq
      have hnat := congrArg BitVec.toNat heq
      rw [hentry,BitVec.toNat_ofNat] at hnat
      exact hne (Fin.ext (by change i.val = 0; omega))
    exact h (by rw [oneTable]; dsimp only; rw [if_neg hother]; decide)
  · rintro rfl
    decide

theorem oneTable_separate : SeparateTables oneTable 0x300000#32 := by
  refine ⟨fun i j hi hj _ => ?_,fun i k j hi heq => ?_⟩
  · rw [oneTable_present.mp hi,oneTable_present.mp hj]
  · have hbase : (tableBase oneTable 0x300000#32 i).toNat = 0x400000 := by
      rw [oneTable_present.mp hi]
      decide
    have hnat := congrArg BitVec.toNat heq
    have hj := j.isLt
    rw [tableEntry_toNat,hbase,directoryEntry,BitVec.toNat_add,BitVec.toNat_mul,BitVec.toNat_ofNat,
      BitVec.toNat_ofNat,BitVec.toNat_ofNat] at hnat
    omega

theorem map_page_agrees_present : Mapped bootImage oneTable 0x300000#32
    (mapInto bootImage oneTable 0x300000#32 0x5000#32 0x1000#32 0x3#32) 0x5000#32 0x1000#32 :=
  (map_page_agrees bootImage (by decide) oneTable_separate 0x3#32).mpr
    (oneTable_present.mpr (by decide))

-- the address lies in the second table, which is absent: map_page writes to address 0x4
theorem map_page_writes_absent_table : SeparateTables oneTable 0x300000#32 ∧
    ¬ Mapped bootImage oneTable 0x300000#32
      (mapInto bootImage oneTable 0x300000#32 0x5000#32 0x401000#32 0x3#32) 0x5000#32 0x401000#32 := by
  refine ⟨oneTable_separate,fun h => ?_⟩
  have hpresent := oneTable_present.mp (mapped_present bootImage oneTable_separate h)
  exact absurd hpresent (by decide)

end Example

end KluxOS.Memory
