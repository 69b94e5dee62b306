import Mathlib.Data.Set.Insert
import KluxOS.Lib.Run
import KluxOS.Memory.Paging

namespace KluxOS.Memory

open Bitmap

section Flags

theorem allocFlags_used (word : Uint32) (is_kernel : Bool) :
    (allocFlags word is_kernel).getLsbD 0 = true := by
  cases is_kernel <;> simp [allocFlags,setField]

theorem freeFlags_used (word : Uint32) : (freeFlags word).getLsbD 0 = false := by
  simp [freeFlags,setField]

end Flags

section Ledger

structure Ledger where
  state : MemoryState
  frame_of : Uint32 → ℕ
  mapped : Uint32 → Option Uint32

inductive FrameCall where
  | alloc (frame : Uint32) (is_kernel is_writeable : Bool)
  | free (frame : Uint32)

def FrameCall.frame : FrameCall → Uint32
  | .alloc frame _ _ => frame
  | .free frame => frame

variable (image : KernelImage)

-- frame_of and mapped are history: the frame of the last allocation, the last one to map an entry
def ledgerStep (l : Ledger) : FrameCall → Option Ledger
  | .alloc frame is_kernel is_writeable =>
    (allocFrame image l.state frame is_kernel is_writeable).map fun t =>
      if used l.state frame then { l with state := t }
      else
        { state := t
          frame_of := Function.update l.frame_of frame (firstFreeFrame l.state).toNat
          mapped := Function.update l.mapped (entryAddress image frame) (some frame) }
  | .free frame => some { l with state := freeFrame image l.state frame }

structure Accounted (pages : Set Uint32) (l : Ledger) : Prop where
  set_bits : ∀ j < l.state.nframes.toNat, bit l.state.frames j = true ↔
    j < 256 ∨ ∃ p ∈ pages, used l.state p = true ∧ l.frame_of p = j
  in_range : ∀ p ∈ pages, used l.state p = true →
    256 ≤ l.frame_of p ∧ l.frame_of p < l.state.nframes.toNat
  distinct : ∀ p ∈ pages, ∀ q ∈ pages, used l.state p = true → used l.state q = true →
    l.frame_of p = l.frame_of q → p = q

def Releases (pages : Set Uint32) (l : Ledger) (c : FrameCall) (result : Option Ledger) : Prop :=
  ∀ t, result = some t → Accounted pages t ∧
    ∀ frame, c = .free frame → used l.state frame = true →
      bit l.state.frames (l.frame_of frame) = true ∧
      ∀ j, bit t.state.frames j = (bit l.state.frames j && !decide (j = l.frame_of frame))

def Matched (l : Ledger) (c : FrameCall) (_ : Option Ledger) : Prop :=
  match c with
  | .alloc frame _ _ => used l.state frame = true ∨ FreeFrame l.state
  | .free frame => used l.state frame = true →
      image.page_directory (pdIndex frame) &&& 1#32 ≠ 0#32 ∧
      l.mapped (entryAddress image frame) = some frame

structure Tracked (pages : Set Uint32) (l : Ledger) : Prop where
  accounted : Accounted pages l
  size : l.state.nframes = 32768#32
  entry : ∀ e q, l.mapped e = some q → q ∈ pages ∧ e = entryAddress image q ∧
    l.state.words e &&& 1#32 ≠ 0#32 ∧ (l.state.words e).toNat / 4096 = l.frame_of q
  owner : ∀ p ∈ pages, used l.state p = true → ∃ q, l.mapped (entryAddress image p) = some q ∧
    (q ≠ p → l.frame_of q ≠ l.frame_of p)

-- page_frame_t objects are not words of the page tables
def Separate (pages : Set Uint32) : Prop :=
  ∀ p ∈ pages, ∀ q ∈ pages, entryAddress image p ≠ flagsAddress q

theorem tracked_init (pages : Set Uint32) (s : MemoryState)
    (hunused : ∀ p ∈ pages, used s p = false) :
    Tracked image pages ⟨initFrames image s,fun _ => 0,fun _ => none⟩ := by
  have hfilled := initFrames_filled image s
  have hu : ∀ p ∈ pages, used (initFrames image s) p ≠ true := by
    intro p hp
    have hs : used (initFrames image s) p = used s p := by rw [used,used,initFrames]
    rw [hs,hunused p hp]
    exact Bool.false_ne_true
  refine ⟨⟨?_,?_,?_⟩,hfilled.1,?_,?_⟩
  · intro j hj
    rw [hfilled.2 j (by simpa [hfilled.1] using hj),decide_eq_true_iff]
    constructor
    · exact .inl
    · rintro (hlt | ⟨p,hp,hused,-⟩)
      · exact hlt
      · exact absurd hused (hu p hp)
  · intro p hp hused
    exact absurd hused (hu p hp)
  · intro p hp q hq hused
    exact absurd hused (hu p hp)
  · intro e q he
    cases he
  · intro p hp hused
    exact absurd hused (hu p hp)

section Alloc

variable {pages : Set Uint32} (hsep : Separate image pages) (s : MemoryState)
  (frame : Uint32) (is_kernel is_writeable : Bool)

theorem flagsAddress_injective {p q : Uint32} (h : flagsAddress p = flagsAddress q) : p = q := by
  unfold flagsAddress at h
  exact (BitVec.add_left_inj _).mp h

theorem allocWords_entry :
    allocWords image s frame is_kernel is_writeable (entryAddress image frame) &&& 1#32 ≠ 0#32 ∧
    (allocWords image s frame is_kernel is_writeable (entryAddress image frame)).toNat / 4096 =
      (firstFreeFrame s).toNat := by
  rw [allocWords]
  simp only [Function.update_self]
  exact ⟨mapped_word_present _ _,mapped_word_page (firstFreeFrame_lt s) _⟩

include hsep

theorem allocWords_flags (hp : frame ∈ pages) :
    (allocWords image s frame is_kernel is_writeable (flagsAddress frame)).getLsbD 0 = true := by
  rw [allocWords]
  simp only [Function.update_of_ne (hsep frame hp frame hp).symm,Function.update_self]
  exact allocFlags_used _ _

theorem allocWords_other_flags {q : Uint32} (hp : frame ∈ pages) (hq : q ∈ pages)
    (hne : q ≠ frame) : allocWords image s frame is_kernel is_writeable (flagsAddress q) =
      s.words (flagsAddress q) := by
  have hflags : flagsAddress q ≠ flagsAddress frame := fun h => hne (flagsAddress_injective h)
  rw [allocWords]
  simp only [Function.update_of_ne (hsep frame hp q hq).symm,Function.update_of_ne hflags]

theorem allocWords_other_entry {q : Uint32} (hp : frame ∈ pages) (hq : q ∈ pages)
    (hne : entryAddress image q ≠ entryAddress image frame) :
    allocWords image s frame is_kernel is_writeable (entryAddress image q) =
      s.words (entryAddress image q) := by
  rw [allocWords]
  simp only [Function.update_of_ne hne,Function.update_of_ne (hsep q hq frame hp)]

end Alloc

def allocated (l : Ledger) (frame : Uint32) (is_kernel is_writeable : Bool) : Ledger where
  state := { l.state with
    frames := setFrame l.state.frames (firstFreeFrame l.state * pageSize)
    words := allocWords image l.state frame is_kernel is_writeable }
  frame_of := Function.update l.frame_of frame (firstFreeFrame l.state).toNat
  mapped := Function.update l.mapped (entryAddress image frame) (some frame)

def freed (l : Ledger) (frame : Uint32) : Ledger :=
  { l with state := { l.state with
    frames := clearFrame l.state.frames (getPhysaddr image l.state frame)
    words := Function.update l.state.words (flagsAddress frame)
      (freeFlags (l.state.words (flagsAddress frame))) } }

theorem ledgerStep_alloc_used {l : Ledger} {frame : Uint32} (h : used l.state frame = true)
    (is_kernel is_writeable : Bool) :
    ledgerStep image l (.alloc frame is_kernel is_writeable) = some l := by
  rw [ledgerStep,allocFrame_used image h,Option.map_some,if_pos h]

theorem ledgerStep_alloc {l : Ledger} {frame : Uint32} (h : used l.state frame = false)
    (is_kernel is_writeable : Bool) :
    ledgerStep image l (.alloc frame is_kernel is_writeable) =
      some (allocated image l frame is_kernel is_writeable) := by
  rw [ledgerStep,allocFrame_unused image h,Option.map_some,h]
  rfl

theorem ledgerStep_free_unused {l : Ledger} {frame : Uint32} (h : used l.state frame = false) :
    ledgerStep image l (.free frame) = some l := by
  rw [ledgerStep,freeFrame,h]
  rfl

theorem ledgerStep_free {l : Ledger} {frame : Uint32} (h : used l.state frame = true) :
    ledgerStep image l (.free frame) = some (freed image l frame) := by
  rw [ledgerStep,freeFrame,h]
  rfl

section Step

variable {pages : Set Uint32} (hsep : Separate image pages) {l : Ledger}
  (h : Tracked image pages l) {frame : Uint32} (hp : frame ∈ pages)

include h

theorem Tracked.nframes : l.state.nframes.toNat = 32768 := by
  rw [h.size]
  rfl

-- a free frame is neither reserved nor held by a used descriptor
theorem Tracked.fresh (hfree : FreeFrame l.state) :
    256 ≤ (firstFreeFrame l.state).toNat ∧ (firstFreeFrame l.state).toNat < 32768 ∧
    ∀ q ∈ pages, used l.state q = true → l.frame_of q ≠ (firstFreeFrame l.state).toNat := by
  obtain ⟨hlt,hclear,-⟩ := firstFreeFrame_free hfree
  have hn := h.nframes
  have hset := h.accounted.set_bits (firstFreeFrame l.state).toNat (by omega)
  have hnot : ¬ ((firstFreeFrame l.state).toNat < 256 ∨ ∃ p ∈ pages,
      used l.state p = true ∧ l.frame_of p = (firstFreeFrame l.state).toNat) := by
    intro hheld
    rw [hset.mpr hheld] at hclear
    cases hclear
  refine ⟨Nat.le_of_not_lt fun hlow => hnot (.inl hlow),by omega,fun q hq hused heq => ?_⟩
  exact hnot (.inr ⟨q,hq,hused,heq⟩)

include hsep hp

omit h in
variable (l) in
theorem allocated_used_iff (is_kernel is_writeable : Bool) {q : Uint32} (hq : q ∈ pages) :
    used (allocated image l frame is_kernel is_writeable).state q = true ↔
      q = frame ∨ used l.state q = true := by
  by_cases hne : q = frame
  · subst hne
    exact iff_of_true (allocWords_flags image hsep l.state q is_kernel is_writeable hp) (.inl rfl)
  · have hother := allocWords_other_flags image hsep l.state frame is_kernel is_writeable hp hq hne
    simp only [hne,false_or,used,allocated,hother]

theorem accounted_allocated (hu : used l.state frame = false) (hfree : FreeFrame l.state)
    (is_kernel is_writeable : Bool) :
    Accounted pages (allocated image l frame is_kernel is_writeable) := by
  obtain ⟨hge,hlt,hnew⟩ := h.fresh image hfree
  have hused := fun q (hq : q ∈ pages) =>
    allocated_used_iff image hsep l hp is_kernel is_writeable hq
  have hself : (allocated image l frame is_kernel is_writeable).frame_of frame =
      (firstFreeFrame l.state).toNat := Function.update_self ..
  have hkeep : ∀ q, used l.state q = true →
      (allocated image l frame is_kernel is_writeable).frame_of q = l.frame_of q := by
    intro q hq
    apply Function.update_of_ne
    rintro rfl
    rw [hu] at hq
    cases hq
  refine ⟨?_,?_,?_⟩
  · intro j hj
    have hbit := bit_setFrame l.state.frames (firstFreeFrame_lt l.state) j
    have hold := h.accounted.set_bits j hj
    refine (Bool.coe_iff_coe.mpr hbit).trans ?_
    rw [Bool.or_eq_true,hold,decide_eq_true_iff]
    constructor
    · rintro ((hlow | ⟨q,hq,hqu,rfl⟩) | rfl)
      · exact .inl hlow
      · exact .inr ⟨q,hq,(hused q hq).mpr (.inr hqu),hkeep q hqu⟩
      · exact .inr ⟨frame,hp,(hused frame hp).mpr (.inl rfl),hself⟩
    · rintro (hlow | ⟨q,hq,hqu,rfl⟩)
      · exact .inl (.inl hlow)
      · rcases (hused q hq).mp hqu with rfl | hold
        · exact .inr hself
        · exact .inl (.inr ⟨q,hq,hold,(hkeep q hold).symm⟩)
  · intro q hq hqu
    rcases (hused q hq).mp hqu with rfl | hold
    · rw [hself]
      exact ⟨hge,hlt.trans_eq h.nframes.symm⟩
    · rw [hkeep q hold]
      exact h.accounted.in_range q hq hold
  · intro p hp' q hq hpu hqu heq
    rcases (hused p hp').mp hpu with rfl | hpold <;> rcases (hused q hq).mp hqu with rfl | hqold
    · rfl
    · rw [hself,hkeep q hqold] at heq
      exact absurd heq.symm (hnew q hq hqold)
    · rw [hself,hkeep p hpold] at heq
      exact absurd heq (hnew p hp' hpold)
    · rw [hkeep p hpold,hkeep q hqold] at heq
      exact h.accounted.distinct p hp' q hq hpold hqold heq

theorem tracked_allocated (hu : used l.state frame = false) (hfree : FreeFrame l.state)
    (is_kernel is_writeable : Bool) :
    Tracked image pages (allocated image l frame is_kernel is_writeable) := by
  obtain ⟨-,-,hnew⟩ := h.fresh image hfree
  refine ⟨accounted_allocated image hsep h hp hu hfree is_kernel is_writeable,h.size,?_,?_⟩
  · intro e q he
    by_cases hentry : e = entryAddress image frame
    · subst hentry
      rw [allocated] at he
      simp only [Function.update_self,Option.some.injEq] at he
      subst he
      refine ⟨hp,rfl,?_⟩
      simp only [allocated,Function.update_self]
      exact allocWords_entry image l.state frame is_kernel is_writeable
    · rw [allocated] at he
      simp only [Function.update_of_ne hentry] at he
      obtain ⟨hq,rfl,hpresent,hpage⟩ := h.entry e q he
      have hne : q ≠ frame := fun heq => hentry (by rw [heq])
      refine ⟨hq,rfl,?_⟩
      simp only [allocated,Function.update_of_ne hne,
        allocWords_other_entry image hsep l.state frame is_kernel is_writeable hp hq hentry]
      exact ⟨hpresent,hpage⟩
  · intro q hq hqu
    rcases (allocated_used_iff image hsep l hp is_kernel is_writeable hq).mp hqu with rfl | hold
    · exact ⟨q,Function.update_self ..,fun hne => absurd rfl hne⟩
    · have hne : q ≠ frame := by
        rintro rfl
        rw [hu] at hold
        cases hold
      by_cases hentry : entryAddress image q = entryAddress image frame
      · refine ⟨frame,by simp only [allocated,hentry,Function.update_self],fun _ => ?_⟩
        simp only [allocated,Function.update_self,Function.update_of_ne hne]
        exact (hnew q hq hold).symm
      · obtain ⟨r,hr,hdiff⟩ := h.owner q hq hold
        have hrne : r ≠ frame := fun heq => hentry (by rw [(h.entry _ r hr).2.1,heq])
        refine ⟨r,by simp only [allocated,Function.update_of_ne hentry,hr],fun hrq => ?_⟩
        simp only [allocated,Function.update_of_ne hrne,Function.update_of_ne hne]
        exact hdiff hrq

omit hsep h hp in
variable (l frame) in
theorem freed_used_iff (q : Uint32) : used (freed image l frame).state q = true ↔
    q ≠ frame ∧ used l.state q = true := by
  by_cases hne : q = frame
  · subst hne
    have hclear : used (freed image l q).state q = false := by
      simp only [used,freed,Function.update_self]
      exact freeFlags_used _
    simp [hclear]
  · have hflags : flagsAddress q ≠ flagsAddress frame := fun he => hne (flagsAddress_injective he)
    simp only [used,freed,Function.update_of_ne hflags,ne_eq,hne,not_false_eq_true,true_and]

omit hsep h hp in
theorem freed_bit (hpage : (getPhysaddr image l.state frame).toNat / 4096 = l.frame_of frame)
    (j : ℕ) : bit (freed image l frame).state.frames j =
      (bit l.state.frames j && !decide (j = l.frame_of frame)) := by
  rw [← hpage]
  exact bit_clearFrame _ _ j

omit hsep in
theorem accounted_freed (hu : used l.state frame = true)
    (hpage : (getPhysaddr image l.state frame).toNat / 4096 = l.frame_of frame) :
    Accounted pages (freed image l frame) := by
  have hused := fun q : Uint32 => freed_used_iff image l frame q
  refine ⟨?_,?_,?_⟩
  · intro j hj
    have hold := h.accounted.set_bits j hj
    rw [freed_bit image hpage,Bool.and_eq_true,hold]
    simp only [Bool.not_eq_true',decide_eq_false_iff_not]
    constructor
    · rintro ⟨hlow | ⟨q,hq,hqu,rfl⟩,hne⟩
      · exact .inl hlow
      · exact .inr ⟨q,hq,(hused q).mpr ⟨fun heq => hne (by rw [heq]),hqu⟩,rfl⟩
    · rintro (hlow | ⟨q,hq,hqu,rfl⟩)
      · have hge := (h.accounted.in_range frame hp hu).1
        exact ⟨.inl hlow,by omega⟩
      · obtain ⟨hne,hold⟩ := (hused q).mp hqu
        refine ⟨.inr ⟨q,hq,hold,rfl⟩,fun heq => hne ?_⟩
        exact h.accounted.distinct q hq frame hp hold hu heq
  · intro q hq hqu
    exact h.accounted.in_range q hq ((hused q).mp hqu).2
  · intro p hp' q hq hpu hqu
    exact h.accounted.distinct p hp' q hq ((hused p).mp hpu).2 ((hused q).mp hqu).2

theorem tracked_freed (hu : used l.state frame = true)
    (hpage : (getPhysaddr image l.state frame).toNat / 4096 = l.frame_of frame) :
    Tracked image pages (freed image l frame) := by
  refine ⟨accounted_freed image h hp hu hpage,h.size,?_,?_⟩
  · intro e q he
    obtain ⟨hq,rfl,hword⟩ := h.entry e q he
    refine ⟨hq,rfl,?_⟩
    simp only [freed,Function.update_of_ne (hsep q hq frame hp)]
    exact hword
  · intro q hq hqu
    exact h.owner q hq ((freed_used_iff image l frame q).mp hqu).2

omit hsep hp in
-- the entry of a used descriptor holds the frame of the last descriptor mapped through it
theorem translated (hpd : image.page_directory (pdIndex frame) &&& 1#32 ≠ 0#32) {q : Uint32}
    (hq : l.mapped (entryAddress image frame) = some q) :
    (getPhysaddr image l.state frame).toNat / 4096 = l.frame_of q := by
  obtain ⟨-,-,hpresent,hpage⟩ := h.entry _ q hq
  rw [getPhysaddr_page image hpd hpresent,hpage]

omit hsep in
theorem releases_free_iff (hu : used l.state frame = true) :
    Releases pages l (.free frame) (ledgerStep image l (.free frame)) ↔
      Matched image l (.free frame) (ledgerStep image l (.free frame)) := by
  have hn := h.nframes
  have hrange := h.accounted.in_range frame hp hu
  have hset : bit l.state.frames (l.frame_of frame) = true :=
    (h.accounted.set_bits _ hrange.2).mpr (.inr ⟨frame,hp,hu,rfl⟩)
  rw [ledgerStep_free image hu]
  constructor
  · intro hrel hused
    obtain ⟨haccounted,hclears⟩ := hrel _ rfl
    obtain ⟨-,hbits⟩ := hclears frame rfl hu
    have hcode : ∀ j, bit (freed image l frame).state.frames j = (bit l.state.frames j &&
        !decide (j = (getPhysaddr image l.state frame).toNat / 4096)) := bit_clearFrame _ _
    by_cases hpd : image.page_directory (pdIndex frame) &&& 1#32 = 0#32
    · have hzero := hcode 0
      rw [getPhysaddr_absent image hpd] at hzero
      have hsize : (freed image l frame).state.nframes.toNat = 32768 := hn
      have hres := (haccounted.set_bits 0 (by omega)).mpr (.inl (by decide))
      rw [hzero] at hres
      simp at hres
    · obtain ⟨q,hq,hdiff⟩ := h.owner frame hp hu
      refine ⟨hpd,?_⟩
      by_cases hqf : q = frame
      · rw [hq,hqf]
      · have hsame := (hbits (l.frame_of frame)).symm.trans (hcode (l.frame_of frame))
        rw [translated image h hpd hq,hset] at hsame
        simp at hsame
        exact absurd hsame.symm (hdiff hqf)
  · intro hmatched t ht
    cases ht
    obtain ⟨hpd,hq⟩ := hmatched hu
    have hpage := translated image h hpd hq
    refine ⟨accounted_freed image h hp hu hpage,fun p hpeq _ => ?_⟩
    cases hpeq
    exact ⟨hset,freed_bit image hpage⟩

theorem releases_alloc_iff (hu : used l.state frame = false) (is_kernel is_writeable : Bool) :
    Releases pages l (.alloc frame is_kernel is_writeable)
        (ledgerStep image l (.alloc frame is_kernel is_writeable)) ↔
      Matched image l (.alloc frame is_kernel is_writeable)
        (ledgerStep image l (.alloc frame is_kernel is_writeable)) := by
  rw [ledgerStep_alloc image hu]
  constructor
  · intro hrel
    obtain ⟨haccounted,-⟩ := hrel _ rfl
    by_contra hnot
    have hfull : ¬ FreeFrame l.state := fun hfree => hnot (.inr hfree)
    have hused := (allocated_used_iff image hsep l hp is_kernel is_writeable hp).mpr (.inl rfl)
    have hge := (haccounted.in_range frame hp hused).1
    rw [allocated] at hge
    simp [firstFreeFrame_full hfull] at hge
  · intro hmatched t ht
    cases ht
    have hfree : FreeFrame l.state := by
      rcases hmatched with hused | hfree
      · rw [hu] at hused
        cases hused
      · exact hfree
    refine ⟨accounted_allocated image hsep h hp hu hfree is_kernel is_writeable,?_⟩
    intro q hq
    cases hq

end Step

section Run

variable {pages : Set Uint32} (hsep : Separate image pages)

include hsep

theorem releases_iff {l : Ledger} {c : FrameCall} (h : Tracked image pages l)
    (hc : c.frame ∈ pages) :
    Releases pages l c (ledgerStep image l c) ↔ Matched image l c (ledgerStep image l c) := by
  have hstay : Releases pages l c (some l) ↔ (∀ p, c = .free p → used l.state p = true →
      bit l.state.frames (l.frame_of p) = true ∧
      ∀ j, bit l.state.frames j = (bit l.state.frames j && !decide (j = l.frame_of p))) := by
    constructor
    · intro hrel
      exact (hrel l rfl).2
    · intro hfree t ht
      cases ht
      exact ⟨h.accounted,hfree⟩
  cases c with
  | alloc frame is_kernel is_writeable =>
    cases hu : used l.state frame with
    | true =>
      rw [ledgerStep_alloc_used image hu,hstay]
      exact iff_of_true (fun p hp => by cases hp) (.inl hu)
    | false => exact releases_alloc_iff image hsep h hc hu is_kernel is_writeable
  | free frame =>
    cases hu : used l.state frame with
    | true => exact releases_free_iff image h hc hu
    | false =>
      rw [ledgerStep_free_unused image hu,hstay]
      refine iff_of_true (fun p hp hpu => ?_) (fun hpu => ?_)
      · cases hp
        rw [hu] at hpu
        cases hpu
      · rw [hu] at hpu
        cases hpu

theorem tracked_step {l t : Ledger} {c : FrameCall} (h : Tracked image pages l)
    (hc : c.frame ∈ pages) (hm : Matched image l c (ledgerStep image l c))
    (ht : ledgerStep image l c = some t) : Tracked image pages t := by
  cases c with
  | alloc frame is_kernel is_writeable =>
    cases hu : used l.state frame with
    | true =>
      rw [ledgerStep_alloc_used image hu] at ht
      cases ht
      exact h
    | false =>
      rw [ledgerStep_alloc image hu] at ht
      cases ht
      have hfree : FreeFrame l.state := hm.resolve_left (by rw [hu]; exact Bool.false_ne_true)
      exact tracked_allocated image hsep h hc hu hfree is_kernel is_writeable
  | free frame =>
    cases hu : used l.state frame with
    | true =>
      rw [ledgerStep_free image hu] at ht
      cases ht
      obtain ⟨hpd,hq⟩ := hm hu
      exact tracked_freed image hsep h hc hu (translated image h hpd hq)
    | false =>
      rw [ledgerStep_free_unused image hu] at ht
      cases ht
      exact h

def initLedger (s : MemoryState) : Ledger := ⟨initFrames image s,fun _ => 0,fun _ => none⟩

theorem every_releases_iff (s : MemoryState) (hunused : ∀ p ∈ pages, used s p = false)
    (calls : List FrameCall) (hcalls : ∀ c ∈ calls, c.frame ∈ pages) :
    Run.Every (ledgerStep image) (Releases pages) (initLedger image s) calls ↔
      Run.Every (ledgerStep image) (Matched image) (initLedger image s) calls :=
  Run.every_iff (tracked_init image pages s hunused) hcalls
    (fun _ _ h hc => releases_iff image hsep h hc)
    (fun _ _ _ h hc hm ht => tracked_step image hsep h hc hm ht)

theorem free_frame_releases_alloc (s : MemoryState) (hunused : ∀ p ∈ pages, used s p = false)
    (calls : List FrameCall) (hcalls : ∀ c ∈ calls, c.frame ∈ pages) :
    Run.Every (ledgerStep image) (Releases pages) (initLedger image s) calls ↔
      Run.Every (ledgerStep image) (Matched image) (initLedger image s) calls :=
  every_releases_iff image hsep s hunused calls hcalls

end Run

section SharedPage

def sharedPage : Set Uint32 := {0x300000#32,0x300010#32}

theorem sharedPage_separate : Separate bootImage sharedPage := by
  intro p hp q hq
  rcases hp with rfl | rfl <;> rcases hq with rfl | rfl <;> decide

theorem bootState_unused (p : Uint32) : used bootState p = false := by
  simp [used,bootState]

theorem initLedger_unused (p : Uint32) : used (initLedger bootImage bootState).state p = false := by
  rw [← bootState_unused p,used,used,initLedger,initFrames]

theorem free_frame_releases_alloc_freed : Run.Every (ledgerStep bootImage) (Releases sharedPage)
    (initLedger bootImage bootState) [.alloc 0x300000#32 true true,.free 0x300000#32] := by
  refine (free_frame_releases_alloc bootImage sharedPage_separate bootState
    (fun p _ => bootState_unused p) _ (by simp [FrameCall.frame,sharedPage])).mpr
      ⟨.inr ?_,fun t ht => ⟨fun _ => ?_,fun _ _ => trivial⟩⟩
  · exact (initFrames_filled bootImage bootState).free_iff.mpr (by decide)
  · rw [ledgerStep_alloc bootImage (initLedger_unused 0x300000#32)] at ht
    obtain rfl := Option.some.inj ht
    refine ⟨by decide,?_⟩
    simp only [allocated,Function.update_self]

-- the second allocation overwrites the page-table entry that the release of the first one reads
theorem free_frame_clears_other_frame : ¬ Run.Every (ledgerStep bootImage) (Releases sharedPage)
    (initLedger bootImage bootState)
    [.alloc 0x300000#32 true true,.alloc 0x300010#32 true true,.free 0x300000#32] := by
  rw [every_releases_iff bootImage sharedPage_separate bootState (fun p _ => bootState_unused p) _
    (by simp [FrameCall.frame,sharedPage])]
  rintro ⟨-,hrest⟩
  have hp : 0x300000#32 ∈ sharedPage := .inl rfl
  have hq : 0x300010#32 ∈ sharedPage := .inr rfl
  have hfirst := ledgerStep_alloc bootImage (initLedger_unused 0x300000#32) true true
  have hother : used (allocated bootImage (initLedger bootImage bootState) 0x300000#32 true
      true).state 0x300010#32 = false := by
    rw [Bool.eq_false_iff,ne_eq,allocated_used_iff bootImage sharedPage_separate _ hp true true hq,
      initLedger_unused]
    decide
  have hsecond := ledgerStep_alloc bootImage hother true true
  obtain ⟨hfree,-⟩ := (hrest _ hfirst).2 _ hsecond
  have hused := (allocated_used_iff bootImage sharedPage_separate
    (allocated bootImage (initLedger bootImage bootState) 0x300000#32 true true) hq true true
    hp).mpr (.inr ((allocated_used_iff bootImage sharedPage_separate _ hp true true hp).mpr
      (.inl rfl)))
  have hmapped := (hfree hused).2
  have hentry : entryAddress bootImage 0x300000#32 = entryAddress bootImage 0x300010#32 := by decide
  rw [hentry,allocated] at hmapped
  simp at hmapped

end SharedPage

end Ledger

end KluxOS.Memory
