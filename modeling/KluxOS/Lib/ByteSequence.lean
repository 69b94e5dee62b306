import KluxOS.Lib.ByteMemory

namespace ByteSequence

open ByteMemory

variable {α : Type}

-- data written at off: it replaces or extends the bytes, and a gap before it is filled with zero
def overwrite (zero : α) (bytes : List α) (off : ℕ) (data : List α) : List α :=
  bytes.take off ++ List.replicate (off - bytes.length) zero ++ data ++
    bytes.drop (off + data.length)

def slice (bytes : List α) (off n : ℕ) : List α := (bytes.drop off).take n

section Overwrite

variable (zero : α) {bytes data : List α} {off : ℕ}

theorem overwrite_get (h : off ≤ bytes.length) (i : ℕ) : (overwrite zero bytes off data)[i]? =
    if off ≤ i ∧ i < off + data.length then data[i - off]? else bytes[i]? := by
  rw [overwrite,Nat.sub_eq_zero_of_le h,List.replicate_zero,List.append_nil]
  by_cases hlow : i < off
  · rw [if_neg (by omega),List.append_assoc,
      List.getElem?_append_left (by simpa using ⟨hlow,hlow.trans_le h⟩),
      List.getElem?_take_of_lt hlow]
  · have htake : (bytes.take off).length = off := List.length_take_of_le h
    by_cases hmid : i < off + data.length
    · rw [if_pos ⟨by omega,hmid⟩,List.getElem?_append_left (by simp [htake,hmid]),
        List.getElem?_append_right (by omega),htake]
    · rw [if_neg (by omega),List.getElem?_append_right (by simp [htake]; omega),
        List.getElem?_drop,List.length_append,htake]
      congr 1
      omega

theorem overwrite_length : (overwrite zero bytes off data).length =
    max bytes.length (off + data.length) := by
  simp only [overwrite,List.length_append,List.length_take,List.length_replicate,List.length_drop]
  omega

theorem overwrite_append (h : off ≤ bytes.length) (hend : data = [] ∨ off = bytes.length) :
    overwrite zero bytes off data = bytes ++ data := by
  rcases hend with rfl | rfl
  · simp [overwrite,Nat.sub_eq_zero_of_le h]
  · simp [overwrite]

theorem overwrite_short (h : off ≤ bytes.length) (hend : ¬ (data = [] ∨ off = bytes.length)) :
    (overwrite zero bytes off data).length < (bytes ++ data).length := by
  obtain ⟨hdata,hoff⟩ := not_or.mp hend
  have hpos := List.length_pos_iff.mpr hdata
  rw [overwrite_length,List.length_append]
  omega

end Overwrite

section Load

variable {m : Memory α} {base n : ℕ} {bytes : List α}

theorem loadBytes_get (i : ℕ) (h : i < n) : (loadBytes m base n)[i]? = some (m (base + i)) := by
  rw [loadBytes,List.getElem?_map,List.getElem?_range h,Option.map_some]

theorem loadBytes_length : (loadBytes m base n).length = n := by
  rw [loadBytes,List.length_map,List.length_range]

theorem loadBytes_eq_iff : loadBytes m base n = bytes ↔
    bytes.length = n ∧ ∀ i < n, bytes[i]? = some (m (base + i)) := by
  constructor
  · rintro rfl
    exact ⟨loadBytes_length,fun i hi => loadBytes_get i hi⟩
  · rintro ⟨rfl,hget⟩
    refine List.ext_getElem? fun i => ?_
    by_cases hi : i < bytes.length
    · rw [loadBytes_get i hi,hget i hi]
    · rw [List.getElem?_eq_none (by rw [loadBytes_length]; omega),
        List.getElem?_eq_none (by omega)]

theorem loadBytes_congr {m' : Memory α} (h : ∀ x, Inside base n x → m' x = m x) :
    loadBytes m' base n = loadBytes m base n :=
  List.map_congr_left fun i hi =>
    h (base + i) ⟨by omega,by have := List.mem_range.mp hi; omega⟩

theorem loadBytes_slice (h : loadBytes m base n = bytes) {off k : ℕ} (hk : off + k ≤ n) :
    loadBytes m (base + off) k = slice bytes off k := by
  obtain ⟨hlen,hget⟩ := loadBytes_eq_iff.mp h
  refine loadBytes_eq_iff.mpr ⟨by simp [slice]; omega,fun i hi => ?_⟩
  rw [slice,List.getElem?_take_of_lt hi,List.getElem?_drop,hget _ (by omega),Nat.add_assoc]

-- the bytes after a store are the overwritten ones as far as the rest was in place
theorem loadBytes_overwrite (m : Memory α) (base : ℕ) (zero : α) (buf : ℕ → α) {off : ℕ} (count : ℕ)
    (hoff : off ≤ bytes.length) :
    loadBytes (storeLoop (fun _ i => buf i) (base + off) count m) base
      (max bytes.length (off + count)) =
      overwrite zero bytes off ((List.range count).map buf) ↔
    ∀ i < bytes.length, ¬ (off ≤ i ∧ i < off + count) → bytes[i]? = some (m (base + i)) := by
  have hstore : ∀ i, storeLoop (fun _ i => buf i) (base + off) count m (base + i) =
      if off ≤ i ∧ i < off + count then buf (i - off) else m (base + i) := by
    intro i
    rw [storeLoop_apply _ buf _ _ _ (fun _ _ _ _ => rfl)]
    have hinside : Inside (base + off) count (base + i) ↔ off ≤ i ∧ i < off + count := by
      unfold Inside
      omega
    rw [if_congr hinside rfl rfl,Nat.add_sub_add_left]
  have hdata : ((List.range count).map buf).length = count := by
    rw [List.length_map,List.length_range]
  rw [loadBytes_eq_iff,overwrite_length,hdata,and_iff_right rfl]
  constructor
  · intro hget i hi hout
    have hi' := hget i (lt_of_lt_of_le hi (le_max_left _ _))
    rw [overwrite_get zero hoff,hdata,if_neg hout,hstore,if_neg hout] at hi'
    exact hi'
  · intro hget i hi
    rw [overwrite_get zero hoff,hdata,hstore]
    by_cases hin : off ≤ i ∧ i < off + count
    · rw [if_pos hin,if_pos hin,List.getElem?_map,List.getElem?_range (by omega),Option.map_some]
    · rw [if_neg hin,if_neg hin]
      exact hget i (by omega) hin

end Load

end ByteSequence
