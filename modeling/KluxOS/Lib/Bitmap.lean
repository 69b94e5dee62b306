import Mathlib.Data.Set.Insert
import Mathlib.Order.Bounds.Defs
import KluxOS.Lib.CArray

namespace Bitmap

variable {w n : ℕ}

def bit (a : Vector (BitVec w) n) (k : ℕ) : Bool :=
  if h : k / w < n then (a.get ⟨k / w,h⟩).getLsbD (k % w) else false

def modify (a : Vector (BitVec w) n) (k : ℕ) (f : BitVec w → BitVec w) : Vector (BitVec w) n :=
  if h : k / w < n then a.set (k / w) (f (a.get ⟨k / w,h⟩)) h else a

def setBit (a : Vector (BitVec w) n) (k : ℕ) : Vector (BitVec w) n :=
  modify a k fun x => x ||| 1#w <<< (k % w)

def clearBit (a : Vector (BitVec w) n) (k : ℕ) : Vector (BitVec w) n :=
  modify a k fun x => x &&& ~~~(1#w <<< (k % w))

def firstClearIn (x : BitVec w) : Option ℕ :=
  (List.range w).findSome? fun j => if x &&& 1#w <<< j = 0#w then some j else none

def firstClear (a : Vector (BitVec w) n) (words : ℕ) (h : words ≤ n) : Option ℕ :=
  (List.finRange words).findSome? fun (i : Fin words) =>
    if a.get (i.castLE h) ≠ BitVec.allOnes w
    then (firstClearIn (a.get (i.castLE h))).map (i * w + ·) else none

theorem mask_getLsbD {i j : ℕ} (hi : i < w) : (1#w <<< j).getLsbD i = decide (i = j) := by
  rw [← BitVec.twoPow_eq,BitVec.getLsbD_twoPow]
  by_cases h : i = j
  · subst h
    simp [hi]
  · simp [h,eq_comm]

theorem mask_clear {x : BitVec w} {j : ℕ} (hj : j < w) :
    x &&& 1#w <<< j = 0#w ↔ x.getLsbD j = false := by
  constructor
  · intro h
    have hbit := congrArg (fun y => BitVec.getLsbD y j) h
    simpa [mask_getLsbD hj] using hbit
  · intro h
    apply BitVec.eq_of_getLsbD_eq
    intro i hi
    rw [BitVec.getLsbD_and,mask_getLsbD hi]
    by_cases hij : i = j
    · subst hij
      simp [h]
    · simp [hij]

theorem eq_allOnes_iff {x : BitVec w} :
    x = BitVec.allOnes w ↔ ∀ j < w, x.getLsbD j = true := by
  constructor
  · rintro rfl j hj
    simp [hj]
  · intro h
    apply BitVec.eq_of_getLsbD_eq
    intro i hi
    simp [h i hi,hi]

theorem get_modify (a : Vector (BitVec w) n) (k : ℕ) (f : BitVec w → BitVec w) (i : Fin n) :
    (modify a k f).get i = if i.val = k / w then f (a.get i) else a.get i := by
  unfold modify
  split
  · next h =>
    rw [CArray.get_set a ⟨k / w,h⟩]
    by_cases hi : i = ⟨k / w,h⟩
    · subst hi
      simp
    · rw [if_neg hi,if_neg (fun he => hi (Fin.ext he))]
  · next h => rw [if_neg (by omega)]

theorem same_bit {j k : ℕ} (h : j / w = k / w) : j % w = k % w ↔ j = k := by
  constructor
  · intro hm
    rw [← Nat.div_add_mod j w,← Nat.div_add_mod k w,h,hm]
  · rintro rfl
    rfl

theorem bit_modify (a : Vector (BitVec w) n) (k j : ℕ) (f : BitVec w → BitVec w)
    (g : ℕ → Bool → Bool) (hf : ∀ x i, i < w → (f x).getLsbD i = g i (x.getLsbD i)) (hw : 0 < w)
    (hj : j / w < n) :
    bit (modify a k f) j = if j / w = k / w then g (j % w) (bit a j) else bit a j := by
  rw [bit,bit,dif_pos hj,dif_pos hj,get_modify]
  split
  · exact hf _ _ (Nat.mod_lt _ hw)
  · rfl

theorem bit_setBit (a : Vector (BitVec w) n) {k : ℕ} (hw : 0 < w) (hk : k / w < n) (j : ℕ) :
    bit (setBit a k) j = (bit a j || decide (j = k)) := by
  by_cases hj : j / w < n
  · rw [setBit,bit_modify a k j _ (fun i b => b || decide (i = k % w))
      (fun x i hi => by rw [BitVec.getLsbD_or,mask_getLsbD hi]) hw hj]
    split
    · next h => simp only [same_bit h]
    · next h =>
      have hne : j ≠ k := fun he => h (congrArg (· / w) he)
      simp [hne]
  · have hne : j ≠ k := fun he => hj (he ▸ hk)
    simp [bit,hj,hne]

theorem bit_clearBit (a : Vector (BitVec w) n) (hw : 0 < w) (k j : ℕ) :
    bit (clearBit a k) j = (bit a j && !decide (j = k)) := by
  by_cases hj : j / w < n
  · rw [clearBit,bit_modify a k j _ (fun i b => b && !decide (i = k % w))
      (fun x i hi => by simp only [BitVec.getLsbD_and,BitVec.getLsbD_not,mask_getLsbD hi,hi,
        decide_true,Bool.true_and]) hw hj]
    split
    · next h => simp only [same_bit h]
    · next h =>
      have hne : j ≠ k := fun he => h (congrArg (· / w) he)
      simp [hne]
  · simp [bit,hj]

theorem bit_replicate (x : BitVec w) {k : ℕ} (hk : k / w < n) :
    bit (Vector.replicate n x) k = x.getLsbD (k % w) := by
  rw [bit,dif_pos hk,CArray.get_eq_getElem]
  simp

theorem findSome?_finRange {α : Type} {m : ℕ} {f : Fin m → Option α} {x : α}
    (h : (List.finRange m).findSome? f = some x) :
    ∃ i, f i = some x ∧ ∀ j < i, f j = none := by
  obtain ⟨l,i,r,hl,hi,hbefore⟩ := List.findSome?_eq_some_iff.mp h
  refine ⟨i,hi,fun j hj => hbefore j ?_⟩
  have hsorted : (l ++ i :: r).Pairwise (· < ·) := hl ▸ List.pairwise_lt_finRange m
  have hmem : j ∈ l ++ i :: r := hl ▸ List.mem_finRange j
  rcases List.mem_append.mp hmem with hm | hm
  · exact hm
  · rcases List.mem_cons.mp hm with rfl | hm
    · exact absurd hj (lt_irrefl _)
    · have hij := (List.pairwise_cons.mp (List.pairwise_append.mp hsorted).2.1).1 j hm
      exact absurd hj (not_lt_of_gt hij)

theorem findSome?_range {α : Type} {m : ℕ} {f : ℕ → Option α} {x : α}
    (h : (List.range m).findSome? f = some x) :
    ∃ i < m, f i = some x ∧ ∀ j < i, f j = none := by
  rw [← List.map_coe_finRange_eq_range,List.findSome?_map] at h
  obtain ⟨i,hi,hbefore⟩ := findSome?_finRange h
  exact ⟨i,i.isLt,hi,fun j hj => hbefore ⟨j,hj.trans i.isLt⟩ hj⟩

theorem firstClearIn_some {x : BitVec w} {j : ℕ} (h : firstClearIn x = some j) :
    j < w ∧ x.getLsbD j = false ∧ ∀ i < j, x.getLsbD i = true := by
  obtain ⟨i,hi,hx,hbefore⟩ := findSome?_range h
  obtain ⟨hclear,heq⟩ := Option.ite_none_right_eq_some.mp hx
  cases heq
  refine ⟨hi,(mask_clear hi).mp hclear,fun k hk => ?_⟩
  have hk' := hbefore k hk
  by_contra hb
  rw [if_pos ((mask_clear (hk.trans hi)).mpr (by simpa using hb))] at hk'
  cases hk'

theorem firstClearIn_none {x : BitVec w} (h : firstClearIn x = none) : x = BitVec.allOnes w := by
  rw [eq_allOnes_iff]
  intro j hj
  by_contra hb
  have hj' := List.findSome?_eq_none_iff.mp h j (List.mem_range.mpr hj)
  rw [if_pos ((mask_clear hj).mpr (by simpa using hb))] at hj'
  cases hj'

theorem firstClear_word {a : Vector (BitVec w) n} {i : Fin n}
    (h : (if a.get i ≠ BitVec.allOnes w then (firstClearIn (a.get i)).map (i * w + ·) else none) =
      none) : a.get i = BitVec.allOnes w := by
  by_contra hne
  rw [if_pos hne,Option.map_eq_none_iff] at h
  exact hne (firstClearIn_none h)

theorem bit_word {a : Vector (BitVec w) n} {k : ℕ} {i : Fin n} (hw : 0 < w) (hi : k / w = i)
    (h : a.get i = BitVec.allOnes w) : bit a k = true := by
  have hk : k / w < n := hi ▸ i.isLt
  have hget : a.get ⟨k / w,hk⟩ = BitVec.allOnes w := by
    rw [← h]
    congr 1
    exact Fin.ext hi
  rw [bit,dif_pos hk,hget]
  simp [Nat.mod_lt _ hw]

-- words before the first one with a clear bit are all ones; inside it the lower bits are set
theorem firstClear_some {a : Vector (BitVec w) n} {words : ℕ} {h : words ≤ n} {k : ℕ} (hw : 0 < w)
    (hk : firstClear a words h = some k) :
    k < words * w ∧ bit a k = false ∧ ∀ j < k, bit a j = true := by
  obtain ⟨i,hi,hbefore⟩ := findSome?_finRange hk
  obtain ⟨hne,hi⟩ := Option.ite_none_right_eq_some.mp hi
  obtain ⟨j,hj,rfl⟩ := Option.map_eq_some_iff.mp hi
  obtain ⟨hjw,hclear,hset⟩ := firstClearIn_some hj
  have hdiv : ∀ j < w, (i * w + j) / w = i := fun j hj => by
    rw [Nat.mul_comm,Nat.mul_add_div hw,Nat.div_eq_of_lt hj,Nat.add_zero]
  have hmod : ∀ j < w, (i * w + j) % w = j := fun j hj => by
    rw [Nat.mul_comm,Nat.mul_add_mod,Nat.mod_eq_of_lt hj]
  have hbit : ∀ j < w, bit a (i * w + j) = (a.get (i.castLE h)).getLsbD j := fun j hj => by
    have hin : (i * w + j) / w < n := by
      rw [hdiv j hj]
      exact i.isLt.trans_le h
    rw [bit,dif_pos hin,hmod j hj]
    congr 2
    exact Fin.ext (hdiv j hj)
  refine ⟨?_,(hbit j hjw).trans hclear,fun m hm => ?_⟩
  · have hmul : (i + 1) * w ≤ words * w := Nat.mul_le_mul_right w i.isLt
    rw [Nat.succ_mul] at hmul
    omega
  · rcases Nat.lt_or_ge m (i * w) with hlt | hge
    · have hlow : m / w < i := Nat.div_lt_of_lt_mul (by rwa [Nat.mul_comm])
      exact bit_word hw (i := (⟨m / w,hlow.trans i.isLt⟩ : Fin words).castLE h) rfl
        (firstClear_word (hbefore ⟨m / w,hlow.trans i.isLt⟩ hlow))
    · obtain ⟨d,rfl⟩ := Nat.exists_eq_add_of_le hge
      rw [hbit d (by omega)]
      exact hset d (by omega)

theorem firstClear_none {a : Vector (BitVec w) n} {words : ℕ} {h : words ≤ n} (hw : 0 < w)
    (hk : firstClear a words h = none) {j : ℕ} (hj : j < words * w) : bit a j = true := by
  have hlow : j / w < words := Nat.div_lt_of_lt_mul (by rwa [Nat.mul_comm])
  exact bit_word hw (i := (⟨j / w,hlow⟩ : Fin words).castLE h) rfl
    (firstClear_word (List.findSome?_eq_none_iff.mp hk _ (List.mem_finRange _)))

section Members

def members (a : Vector (BitVec w) n) : Set ℕ := {k | bit a k = true}

variable (a : Vector (BitVec w) n) {k : ℕ}

theorem mem_members : k ∈ members a ↔ bit a k = true := Iff.rfl

theorem not_mem_members : k ∉ members a ↔ bit a k = false := by
  rw [mem_members,Bool.not_eq_true]

theorem members_setBit (hw : 0 < w) (hk : k / w < n) :
    members (setBit a k) = insert k (members a) := by
  ext j
  rw [mem_members,bit_setBit a hw hk,Bool.or_eq_true,decide_eq_true_iff,Set.mem_insert_iff,
    mem_members,or_comm]

theorem members_clearBit (hw : 0 < w) (k : ℕ) :
    members (clearBit a k) = members a \ {k} := by
  ext j
  rw [mem_members,bit_clearBit a hw,Bool.and_eq_true,Bool.not_eq_true',decide_eq_false_iff_not,
    Set.mem_sdiff,Set.mem_singleton_iff,mem_members]

theorem masked_iff (hw : 0 < w) (hk : k / w < n) :
    a.get ⟨k / w,hk⟩ &&& 1#w <<< (k % w) ≠ 0#w ↔ k ∈ members a := by
  rw [ne_eq,mask_clear (Nat.mod_lt k hw),Bool.not_eq_false,mem_members,bit,dif_pos hk]

theorem isLeast_clear {m : ℕ} (hlt : k < m) (hclear : bit a k = false)
    (hset : ∀ j < k, bit a j = true) : IsLeast {j | j < m ∧ j ∉ members a} k := by
  refine ⟨⟨hlt,(not_mem_members a).mpr hclear⟩,fun j hj => ?_⟩
  by_contra hlow
  exact hj.2 (hset j (Nat.lt_of_not_le hlow))

end Members

end Bitmap
