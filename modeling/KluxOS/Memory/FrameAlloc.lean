import Mathlib.Data.List.Range
import KluxOS.Lib.Run
import KluxOS.Memory.FrameBitmap

namespace KluxOS.Memory

open Bitmap

section Call

variable (image : KernelImage)

-- none is the out-of-memory halt
def Exclusive (s : MemoryState) (result : Option MemoryState) : Prop :=
  ∀ t, result = some t → ∃ f < s.nframes.toNat, bit s.frames f = false ∧
    ∀ j, bit t.frames j = (bit s.frames j || decide (j = f))

theorem bit_eq_of_set {a b : Frames} {f g : ℕ} (hf : bit a f = false)
    (hbf : ∀ j, bit b j = (bit a j || decide (j = f)))
    (hbg : ∀ j, bit b j = (bit a j || decide (j = g))) : f = g := by
  have hset := (hbg f).symm.trans (hbf f)
  simpa [hf] using hset

theorem exclusive_iff {s : MemoryState} {frame : Uint32} (h : used s frame = false)
    (is_kernel is_writeable : Bool) :
    Exclusive s (allocFrame image s frame is_kernel is_writeable) ↔
      FreeFrame s ∨ (0 < s.nframes.toNat ∧ bit s.frames 0 = false) := by
  rw [allocFrame_unused image h]
  have hbit := bit_setFrame s.frames (firstFreeFrame_lt s)
  constructor
  · intro hex
    obtain ⟨f,hf,hclear,hset⟩ := hex _ rfl
    have heq : f = (firstFreeFrame s).toNat := bit_eq_of_set hclear hset hbit
    by_cases hfree : FreeFrame s
    · exact .inl hfree
    · rw [firstFreeFrame_full hfree] at heq
      subst heq
      exact .inr ⟨hf,hclear⟩
  · intro hcond t ht
    cases ht
    refine ⟨(firstFreeFrame s).toNat,?_,?_,hbit⟩
    · by_cases hfree : FreeFrame s
      · have hlt := (firstFreeFrame_free hfree).1
        omega
      · rw [firstFreeFrame_full hfree]
        exact (hcond.resolve_left hfree).1
    · by_cases hfree : FreeFrame s
      · exact (firstFreeFrame_free hfree).2.1
      · rw [firstFreeFrame_full hfree]
        exact (hcond.resolve_left hfree).2

end Call

section Run

-- other stands for any code between two calls: the bitmap and nframes are static to the file
inductive FrameEvent where
  | alloc (frame : Uint32) (is_kernel is_writeable : Bool)
  | other (heap_end : Uint32) (words : Uint32 → Uint32)

variable (image : KernelImage)

def frameStep (s : MemoryState) : FrameEvent → Option MemoryState
  | .alloc frame is_kernel is_writeable => allocFrame image s frame is_kernel is_writeable
  | .other heap_end words => some { s with heap_end := heap_end, words := words }

def requests (s : MemoryState) : List FrameEvent → ℕ
  | [] => 0
  | e :: es =>
    (match e with
      | .alloc frame _ _ => if used s frame then 0 else 1
      | .other _ _ => 0) +
    (match frameStep image s e with
      | some t => requests t es
      | none => 0)

def granted (s : MemoryState) : FrameEvent → List ℕ
  | .alloc frame _ _ => if used s frame then [] else [(firstFreeFrame s).toNat]
  | .other _ _ => []

def grants (s : MemoryState) : List FrameEvent → List ℕ
  | [] => []
  | e :: es => granted s e ++ (match frameStep image s e with
    | some t => grants t es
    | none => [])

theorem filled_grant {s : MemoryState} {m : ℕ} (h : Filled s (min m 32768)) :
    (firstFreeFrame s).toNat = if m < 32768 then m else 0 := by
  split
  · next hm =>
    rw [Nat.min_eq_left (by omega)] at h
    exact h.first hm
  · next hm =>
    rw [Nat.min_eq_right (by omega)] at h
    rw [firstFreeFrame_full (fun hf => absurd (h.free_iff.mp hf) (by omega))]
    rfl

theorem allocFrame_filled {s : MemoryState} {m : ℕ} (h : Filled s (min m 32768)) {frame : Uint32}
    (hu : used s frame = false) (is_kernel is_writeable : Bool) :
    ∃ t, allocFrame image s frame is_kernel is_writeable = some t ∧
      Filled t (min (m + 1) 32768) := by
  refine ⟨_,allocFrame_unused image hu _ _,h.1,fun j hj => ?_⟩
  rw [bit_setFrame _ (firstFreeFrame_lt s),h.2 j hj,filled_grant h,← Bool.decide_or]
  refine decide_eq_decide.mpr ?_
  split <;> omega

-- k successful searches after the reserved frames hand out m, m + 1, .. and, once full, frame 0
theorem grants_filled {s : MemoryState} {m : ℕ} (h : Filled s (min m 32768))
    (es : List FrameEvent) : grants image s es =
      (List.range' m (requests image s es)).map fun f => if f < 32768 then f else 0 := by
  induction es generalizing s m with
  | nil => rfl
  | cons e es ih =>
    cases e with
    | other heap_end words =>
      rw [grants,requests,frameStep,granted]
      simp only [List.nil_append,Nat.zero_add]
      exact ih (s := { s with heap_end := heap_end, words := words }) h
    | alloc frame is_kernel is_writeable =>
      rw [grants,requests,frameStep,granted]
      cases hu : used s frame with
      | true =>
        rw [allocFrame_used image hu]
        simpa using ih h
      | false =>
        obtain ⟨t,ht,hfilled⟩ := allocFrame_filled image h hu is_kernel is_writeable
        rw [ht]
        simp only [Bool.false_eq_true,if_false]
        rw [ih hfilled,filled_grant h,Nat.add_comm 1,List.range'_succ,List.map_cons,
          List.singleton_append]

theorem grants_exclusive_iff (s : MemoryState) (es : List FrameEvent) :
    ((grants image (initFrames image s) es).Nodup ∧
      ∀ f ∈ grants image (initFrames image s) es, 256 ≤ f) ↔
    requests image (initFrames image s) es ≤ 32512 := by
  rw [grants_filled image (m := 256) (initFrames_filled image s)]
  constructor
  · rintro ⟨-,hge⟩
    by_contra hmany
    have hzero := hge 0 (List.mem_map.mpr ⟨32768,by rw [List.mem_range'_1]; omega,rfl⟩)
    omega
  · intro hfew
    have hid : ∀ f ∈ List.range' 256 (requests image (initFrames image s) es),
        (if f < 32768 then f else 0) = f := by
      intro f hf
      rw [List.mem_range'_1] at hf
      exact if_pos (by omega)
    rw [List.map_congr_left hid,List.map_id']
    exact ⟨List.nodup_range',fun f hf => (List.mem_range'_1.mp hf).1⟩

theorem frameStep_other {s t : MemoryState} (hf : t.frames = s.frames) (hn : t.nframes = s.nframes) :
    frameStep image s (.other t.heap_end t.words) = some t := by
  cases s
  cases t
  cases hf
  cases hn
  rfl

theorem kmallocInternal_frames (s : MemoryState) (size : Uint32) (align phys : Bool) :
    (kmallocInternal image s size align phys).1.frames = s.frames ∧
      (kmallocInternal image s size align phys).1.nframes = s.nframes := ⟨rfl,rfl⟩

theorem getPage_frames (s : MemoryState) (address : Uint32) (make : Bool) (dir : Uint32) :
    (getPage image s address make dir).1.frames = s.frames ∧
      (getPage image s address make dir).1.nframes = s.nframes := by
  have hframes := kmallocInternal_frames image s 4096#32 true true
  rw [← kmallocAlignedPhysical] at hframes
  unfold getPage
  cases hk : kmallocAlignedPhysical image s 4096#32 with
  | mk s' out =>
    rw [hk] at hframes
    simp only
    split
    · exact hframes
    · split <;> exact ⟨rfl,rfl⟩

-- each page costs one step of other code (get_page) and one alloc_frame
theorem initPages_events (s : MemoryState) (kernel_directory : Uint32) (l : List ℕ) :
    ∃ es t, l.foldlM (initPage image kernel_directory) s = some t ∧
      Run.run (frameStep image) s es = some t := by
  induction l generalizing s with
  | nil => exact ⟨[],s,List.foldlM_nil,rfl⟩
  | cons i l ih =>
    have hother := getPage_frames image s (BitVec.ofNat 32 i * pageSize) true kernel_directory
    cases hpage : getPage image s (BitVec.ofNat 32 i * pageSize) true kernel_directory with
    | mk s' page =>
      rw [hpage] at hother
      obtain ⟨u,hu,_⟩ := allocFrame_returns image s' page true false
      obtain ⟨es,t,hfold,hrun⟩ := ih u
      refine ⟨.other s'.heap_end s'.words :: .alloc page true false :: es,t,?_,?_⟩
      · rw [List.foldlM_cons,initPage,hpage]
        simp only [hu]
        exact hfold
      · rw [Run.run,frameStep_other image hother.1 hother.2,Option.bind_some,Run.run,frameStep,hu]
        exact hrun

theorem initPaging_events (s : MemoryState) : ∃ es t, initPaging image s = some t ∧
    Run.run (frameStep image) s es = some t := by
  rw [initPaging]
  cases hdir : kmallocAligned image s pageDirectorySize with
  | mk s' out =>
    have hother := kmallocInternal_frames image s pageDirectorySize true false
    rw [← kmallocAligned,hdir] at hother
    obtain ⟨es,t,hfold,hrun⟩ := initPages_events image
      { s' with words := memsetZero s'.words out.1 pageDirectorySize.toNat } out.1 (List.range 1024)
    refine ⟨.other s'.heap_end (memsetZero s'.words out.1 pageDirectorySize.toNat) :: es,t,hfold,?_⟩
    rw [Run.run,frameStep_other image (t :=
      { s' with words := memsetZero s'.words out.1 pageDirectorySize.toNat }) hother.1 hother.2]
    exact hrun

theorem alloc_frame_exclusive :
    (∀ (s : MemoryState) (frame : Uint32) (is_kernel is_writeable : Bool), used s frame = false →
      (Exclusive s (allocFrame image s frame is_kernel is_writeable) ↔
        FreeFrame s ∨ (0 < s.nframes.toNat ∧ bit s.frames 0 = false))) ∧
    ∀ s : MemoryState,
      (∃ es t, initMemory image s = some t ∧
        Run.run (frameStep image) (initFrames image s) es = some t) ∧
      ∀ es : List FrameEvent,
        ((grants image (initFrames image s) es).Nodup ∧
          ∀ f ∈ grants image (initFrames image s) es, 256 ≤ f) ↔
        requests image (initFrames image s) es ≤ 32512 :=
  ⟨fun _ _ is_kernel is_writeable h => exclusive_iff image h is_kernel is_writeable,
    fun s => ⟨initPaging_events image (initFrames image s),grants_exclusive_iff image s⟩⟩

end Run

section Full

def fullState : MemoryState :=
  { bootState with frames := Vector.replicate 32768 0xFFFFFFFF#32 }

theorem alloc_frame_fresh : Exclusive bootState (allocFrame bootImage bootState 0x300000#32 true false) :=
  ((alloc_frame_exclusive bootImage).1 bootState 0x300000#32 true false (by decide)).mpr
    (.inr ⟨by decide,by rw [bootState,bit_replicate _ (by decide)]; decide⟩)

theorem alloc_frame_reuses_frame_zero : used fullState 0x300000#32 = false ∧
    ¬ Exclusive fullState (allocFrame bootImage fullState 0x300000#32 true false) := by
  have hfull : ∀ f < 32768, bit fullState.frames f = true := by
    intro f hf
    rw [fullState,bit_replicate _ (by omega)]
    have hall : 0xFFFFFFFF#32 = BitVec.allOnes 32 := by decide
    rw [hall,BitVec.getLsbD_allOnes]
    simp [Nat.mod_lt]
  refine ⟨by decide,?_⟩
  rw [exclusive_iff bootImage (by decide)]
  rintro (⟨f,hf,hclear⟩ | ⟨-,hclear⟩)
  · rw [hfull f hf] at hclear
    cases hclear
  · rw [hfull 0 (by decide)] at hclear
    cases hclear

end Full

end KluxOS.Memory
