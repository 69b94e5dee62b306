import KluxOS.Memory.Memory

namespace KluxOS.Memory

open Bitmap

theorem setFrame_eq (frames : Frames) (frame_addr : Uint32) :
    setFrame frames frame_addr = setBit frames (frame_addr.toNat / 4096) := by
  rw [setBit,Bitmap.modify,dif_pos (frame_word_lt frame_addr)]
  rfl

theorem clearFrame_eq (frames : Frames) (frame_addr : Uint32) :
    clearFrame frames frame_addr = clearBit frames (frame_addr.toNat / 4096) := by
  rw [clearBit,Bitmap.modify,dif_pos (frame_word_lt frame_addr)]
  rfl

theorem frame_addr_div {idx : Uint32} (h : idx.toNat < 1048576) :
    (idx * pageSize).toNat / 4096 = idx.toNat := by
  rw [BitVec.toNat_mul,pageSize,BitVec.toNat_ofNat]
  omega

theorem bit_setFrame (frames : Frames) {idx : Uint32} (h : idx.toNat < 1048576) (j : ℕ) :
    bit (setFrame frames (idx * pageSize)) j = (bit frames j || decide (j = idx.toNat)) := by
  rw [setFrame_eq,frame_addr_div h]
  exact bit_setBit frames (by decide) (by omega) j

theorem bit_clearFrame (frames : Frames) (frame_addr : Uint32) (j : ℕ) :
    bit (clearFrame frames frame_addr) j =
      (bit frames j && !decide (j = frame_addr.toNat / 4096)) := by
  rw [clearFrame_eq]
  exact bit_clearBit frames (by decide) _ j

def FreeFrame (s : MemoryState) : Prop :=
  ∃ f < s.nframes.toNat / 32 * 32, bit s.frames f = false

theorem firstFreeFrame_eq (s : MemoryState) : firstFreeFrame s =
    match firstClear s.frames (s.nframes.toNat / 32) s.words_le with
    | some frame => BitVec.ofNat 32 frame
    | none => 0#32 := by
  have hword : ∀ (word : Uint32) (i : ℕ), (firstClearIn word).map (i * 32 + ·) =
      (List.range 32).findSome? fun j =>
        if word &&& 1#32 <<< j = 0#32 then some (i * 32 + j) else none := by
    intro word i
    rw [firstClearIn,List.map_findSome?]
    congr 1
    funext j
    simp only [Function.comp_apply]
    split <;> rfl
  unfold firstFreeFrame firstClear
  simp only [hword]
  rfl

theorem firstFreeFrame_full {s : MemoryState} (h : ¬ FreeFrame s) : firstFreeFrame s = 0#32 := by
  rw [firstFreeFrame_eq]
  cases hk : firstClear s.frames (s.nframes.toNat / 32) s.words_le with
  | none => rfl
  | some k =>
    obtain ⟨hlt,hclear,_⟩ := firstClear_some (by decide) hk
    exact absurd ⟨k,hlt,hclear⟩ h

theorem firstFreeFrame_free {s : MemoryState} (h : FreeFrame s) :
    (firstFreeFrame s).toNat < s.nframes.toNat / 32 * 32 ∧
      bit s.frames (firstFreeFrame s).toNat = false ∧
      ∀ j < (firstFreeFrame s).toNat, bit s.frames j = true := by
  obtain ⟨f,hf,hclear⟩ := h
  rw [firstFreeFrame_eq]
  cases hk : firstClear s.frames (s.nframes.toNat / 32) s.words_le with
  | none => simp [firstClear_none (by decide) hk hf] at hclear
  | some k =>
    have hspec := firstClear_some (by decide) hk
    have hle := s.nframes_le
    have hnat : (BitVec.ofNat 32 k).toNat = k := by
      rw [BitVec.toNat_ofNat]
      omega
    simpa only [hnat] using hspec

theorem firstFreeFrame_lt (s : MemoryState) : (firstFreeFrame s).toNat < 1048576 := by
  by_cases h : FreeFrame s
  · have hlt := (firstFreeFrame_free h).1
    have hle := s.nframes_le
    omega
  · rw [firstFreeFrame_full h]
    decide

section Alloc

variable (image : KernelImage)

def allocWords (s : MemoryState) (frame : Uint32) (is_kernel is_writeable : Bool) :
    Uint32 → Uint32 :=
  let flags := memoryPresent
  let flags := if is_writeable then flags ||| memoryReadwrite else flags
  let flags := if is_kernel then flags else flags ||| memoryUser
  Function.update (Function.update s.words (flagsAddress frame)
    (allocFlags (s.words (flagsAddress frame)) is_kernel)) (entryAddress image frame)
    ((firstFreeFrame s * pageSize) ||| (flags &&& 0xFFF#32) ||| 1#32)

theorem allocFrame_used {s : MemoryState} {frame : Uint32} (h : used s frame = true)
    (is_kernel is_writeable : Bool) :
    allocFrame image s frame is_kernel is_writeable = some s := by
  rw [allocFrame,if_pos h]

-- the sentinel is never met: the search returns a frame number below 2^20
theorem allocFrame_unused {s : MemoryState} {frame : Uint32} (h : used s frame = false)
    (is_kernel is_writeable : Bool) : allocFrame image s frame is_kernel is_writeable =
      some { s with
        frames := setFrame s.frames (firstFreeFrame s * pageSize)
        words := allocWords image s frame is_kernel is_writeable } := by
  have hidx : firstFreeFrame s ≠ 0xFFFFFFFF#32 := by
    intro he
    have hlt := firstFreeFrame_lt s
    rw [he] at hlt
    exact absurd hlt (by decide)
  rw [allocFrame,h]
  simp only [Bool.false_eq_true,if_false,hidx]
  rfl

theorem allocFrame_returns (s : MemoryState) (frame : Uint32) (is_kernel is_writeable : Bool) :
    ∃ t, allocFrame image s frame is_kernel is_writeable = some t ∧ t.nframes = s.nframes := by
  cases h : used s frame with
  | true => exact ⟨s,allocFrame_used image h _ _,rfl⟩
  | false => exact ⟨_,allocFrame_unused image h _ _,rfl⟩

end Alloc

section Init

def Filled (s : MemoryState) (m : ℕ) : Prop :=
  s.nframes = 32768#32 ∧ ∀ j < 32768, bit s.frames j = decide (j < m)

theorem foldl_zero {m : ℕ} (hm : m ≤ 32768) (l : List (Fin m)) (frames : Frames) (j : Fin 32768) :
    (l.foldl (fun (frames : Frames) (i : Fin m) => frames.set i 0#32 (by omega)) frames).get j =
      if ∃ i ∈ l, i.val = j.val then 0#32 else frames.get j := by
  induction l generalizing frames with
  | nil => simp
  | cons i l ih =>
    rw [List.foldl_cons,ih,CArray.get_set frames ⟨i,by omega⟩]
    by_cases hj : i.val = j.val
    · rw [if_pos (Fin.ext hj.symm),ite_self,if_pos ⟨i,List.mem_cons_self,hj⟩]
    · have hji : j ≠ ⟨i.val,by omega⟩ := fun he => hj (congrArg Fin.val he).symm
      simp [hj,hji]

theorem foldl_setFrame (frames : Frames) {n : ℕ} (hn : n ≤ 1048576) (j : ℕ) :
    bit ((List.range n).foldl
      (fun frames (i : ℕ) => setFrame frames (BitVec.ofNat 32 i * pageSize)) frames) j =
      (bit frames j || decide (j < n)) := by
  induction n with
  | zero => simp
  | succ n ih =>
    have hnat : (BitVec.ofNat 32 n).toNat = n := by
      rw [BitVec.toNat_ofNat]
      omega
    rw [List.range_succ,List.foldl_append,List.foldl_cons,List.foldl_nil,
      bit_setFrame _ (by omega),ih (by omega),hnat,Bool.or_assoc]
    congr 1
    rw [← Bool.decide_or]
    exact decide_eq_decide.mpr (by omega)

theorem initFrames_filled (image : KernelImage) (s : MemoryState) :
    Filled (initFrames image s) 256 := by
  refine ⟨rfl,fun j hj => ?_⟩
  rw [initFrames]
  simp only
  rw [foldl_setFrame _ (by decide),bit,dif_pos (by omega),
    foldl_zero (m := (totalMemory * 1024#32 / pageSize).toNat / 32) (by decide),if_pos]
  · simp
  · exact ⟨⟨j / 32,by simp [totalMemory,pageSize]; omega⟩,List.mem_finRange _,rfl⟩

theorem Filled.free_iff {s : MemoryState} {m : ℕ} (h : Filled s m) :
    FreeFrame s ↔ m < 32768 := by
  have hn : s.nframes.toNat / 32 * 32 = 32768 := by
    rw [h.1]
    rfl
  rw [FreeFrame,hn]
  constructor
  · rintro ⟨f,hf,hclear⟩
    rw [h.2 f hf] at hclear
    have hge := of_decide_eq_false hclear
    omega
  · intro hm
    exact ⟨m,hm,by rw [h.2 m hm]; simp⟩

theorem Filled.first {s : MemoryState} {m : ℕ} (h : Filled s m) (hm : m < 32768) :
    (firstFreeFrame s).toNat = m := by
  obtain ⟨hlt,hclear,hset⟩ := firstFreeFrame_free (h.free_iff.mpr hm)
  have hn : s.nframes.toNat / 32 * 32 = 32768 := by
    rw [h.1]
    rfl
  rw [hn] at hlt
  rw [h.2 _ hlt] at hclear
  have hge := of_decide_eq_false hclear
  by_contra hne
  have hm' := hset m (by omega)
  rw [h.2 m hm] at hm'
  simp at hm'

end Init

end KluxOS.Memory
