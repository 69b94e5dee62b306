import Mathlib.Data.Fintype.Basic
import Mathlib.Data.List.FinRange

namespace CArray

variable {α : Type} {n : ℕ}

def get? (a : Vector α n) (i : ℤ) : Option α :=
  if h : 0 ≤ i ∧ i < n then some (a.get ⟨i.toNat,by omega⟩) else none

def set? (a : Vector α n) (i : ℤ) (v : α) : Option (Vector α n) :=
  if h : 0 ≤ i ∧ i < n then some (a.set i.toNat v (by omega)) else none

def load (f : Fin n → Option α) : Option (Vector α n) :=
  if h : ∀ i, (f i).isSome then some (Vector.ofFn fun i => (f i).get (h i)) else none

def forEach (f : Fin n → α → α) (a : Vector α n) : Vector α n :=
  (List.finRange n).foldl (fun s (i : Fin n) => s.set i (f i (s.get i)) i.isLt) a

def storeLoop (src : Vector α n → ℕ → Option α) (base : ℤ) (k : ℕ) (a : Vector α n) :
    Option (Vector α n) :=
  (List.range k).foldlM (fun a (j : ℕ) => do
    let v ← src a j
    set? a (base + j) v) a

theorem ext_get {a b : Vector α n} (h : ∀ i, a.get i = b.get i) : a = b :=
  Vector.ext fun i hi => h ⟨i,hi⟩

theorem get_eq_getElem (a : Vector α n) (i : Fin n) : a.get i = a[i.val] := rfl

@[simp] theorem get_ofFn (f : Fin n → α) (i : Fin n) : (Vector.ofFn f).get i = f i :=
  Vector.getElem_ofFn i.isLt

theorem get_set (a : Vector α n) (i j : Fin n) (v : α) :
    (a.set i v i.isLt).get j = if j = i then v else a.get j := by
  have h : (a.set i v i.isLt).get j = if i.val = j.val then v else a.get j :=
    Vector.getElem_set i.isLt j.isLt
  simp only [Fin.ext_iff,eq_comm (a := j.val)]
  exact h

theorem get?_eq (a : Vector α n) {i : ℤ} {k : ℕ} (hk : k < n) (hi : i = k) :
    get? a i = some (a.get ⟨k,hk⟩) := by
  subst hi
  simp [get?,hk]

theorem set?_eq (a : Vector α n) (v : α) {i : ℤ} {k : ℕ} (hk : k < n) (hi : i = k) :
    set? a i v = some (a.set k v hk) := by
  subst hi
  simp [set?,hk]

theorem get?_set (a : Vector α n) (v : α) {k : ℕ} (hk : k < n) (m : ℕ) :
    get? (a.set k v hk) m = if m = k then some v else get? a m := by
  by_cases hm : m < n
  · rw [get?_eq _ hm rfl,get?_eq _ hm rfl,get_set a ⟨k,hk⟩ ⟨m,hm⟩ v]
    simp only [Fin.mk.injEq]
    split <;> rfl
  · rw [if_neg (by omega)]
    simp [get?,hm]

theorem load_eq_some {f : Fin n → Option α} {g : Vector α n} :
    load f = some g ↔ ∀ i, f i = some (g.get i) := by
  unfold load
  split
  · next h =>
    rw [Option.some.injEq]
    constructor
    · rintro rfl i
      simp
    · intro hg
      apply ext_get
      intro i
      rw [get_ofFn]
      exact Option.get_of_eq_some _ (hg i)
  · next h =>
    refine iff_of_false (by simp) (fun hg => h (fun i => by simp [hg i]))

theorem load_some {f : Fin n → Option α} {g : Fin n → α} (h : ∀ i, f i = some (g i)) :
    load f = some (Vector.ofFn g) :=
  load_eq_some.mpr fun i => by rw [h,get_ofFn]

-- src may read the array under way where the loop has not stored yet
theorem storeLoop_unstored (src : Vector α n → ℕ → Option α) (val : ℕ → α) (base : ℕ)
    (a : Vector α n) (k : ℕ) (hk : base + k ≤ n)
    (hsrc : ∀ j < k, ∀ b : Vector α n,
      (∀ m : ℕ, m < base ∨ base + j ≤ m → get? b m = get? a m) → src b j = some (val j)) :
    ∃ b, storeLoop src base k a = some b ∧ ∀ m : ℕ, get? b m =
      if base ≤ m ∧ m < base + k then some (val (m - base)) else get? a m := by
  induction k with
  | zero => exact ⟨a,rfl,fun m => by rw [if_neg (by omega)]⟩
  | succ k ih =>
    obtain ⟨b,hb,hget⟩ := ih (by omega) fun j hj => hsrc j (by omega)
    have hunstored : ∀ m : ℕ, m < base ∨ base + k ≤ m → get? b m = get? a m := fun m hm => by
      rw [hget,if_neg (by omega)]
    have hset := set?_eq b (val k) (i := (base : ℤ) + k) (k := base + k) (by omega) (by simp)
    refine ⟨b.set (base + k) (val k) (by omega),?_,fun m => ?_⟩
    · rw [storeLoop] at hb ⊢
      rw [List.range_succ,List.foldlM_append,hb]
      simp [hsrc k (by omega) b hunstored,hset]
    · rw [get?_set,hget]
      rcases Nat.lt_trichotomy m (base + k) with hm | hm | hm
      · rw [if_neg (by omega)]
        exact if_congr (by omega) rfl rfl
      · subst hm
        simp
      · rw [if_neg (by omega),if_neg (by omega),if_neg (by omega)]

theorem storeLoop_spec (src : Vector α n → ℕ → Option α) (val : ℕ → α) (base : ℕ) (a : Vector α n)
    (k : ℕ) (hk : base + k ≤ n)
    (hsrc : ∀ b : Vector α n, (∀ m : ℕ, m < base → get? b m = get? a m) →
      ∀ j < k, src b j = some (val j)) :
    ∃ b, storeLoop src base k a = some b ∧ ∀ m : ℕ, get? b m =
      if base ≤ m ∧ m < base + k then some (val (m - base)) else get? a m :=
  storeLoop_unstored src val base a k hk fun j hj b hb => hsrc b (fun m hm => hb m (.inl hm)) j hj

theorem storeLoop_ahead (src : Vector α n → ℕ → Option α) (val : ℕ → α) (base : ℕ)
    (a : Vector α n) (k : ℕ) (hk : base + k ≤ n)
    (hsrc : ∀ j < k, ∀ b : Vector α n, (∀ m : ℕ, base + j ≤ m → get? b m = get? a m) →
      src b j = some (val j)) :
    ∃ b, storeLoop src base k a = some b ∧ ∀ m : ℕ, get? b m =
      if base ≤ m ∧ m < base + k then some (val (m - base)) else get? a m :=
  storeLoop_unstored src val base a k hk fun j hj b hb => hsrc j hj b fun m hm => hb m (.inr hm)

theorem toList_get? (a : Vector α n) (m : ℕ) : a.toList[m]? = get? a m := by
  by_cases hm : m < n
  · rw [get?_eq a hm rfl,List.getElem?_eq_getElem (by simpa using hm)]
    simp [get_eq_getElem]
  · rw [List.getElem?_eq_none (by simpa using hm),get?,dif_neg (by omega)]

theorem take_set (a : Vector α n) (v : α) {k : ℕ} (hk : k < n) :
    (a.set k v hk).toList.take (k + 1) = a.toList.take k ++ [v] := by
  rw [Vector.toList_set,List.take_add_one,List.take_set_of_le (Nat.le_refl k),
    List.getElem?_set_self (by simpa using hk)]
  rfl

-- a prefix of the array grows by the cell stored behind it
theorem prefix_set {kept : List α} {a : Vector α n} (hkept : kept <+: a.toList)
    (hroom : kept.length < n) (v : α) :
    ∃ b, set? a kept.length v = some b ∧ kept ++ [v] <+: b.toList := by
  refine ⟨_,set?_eq a v hroom rfl,?_⟩
  obtain ⟨tail,htail⟩ := hkept
  rw [Vector.toList_set,← htail,List.set_append_right _ _ (Nat.le_refl _),Nat.sub_self]
  cases tail with
  | nil =>
    have hlen := congrArg List.length htail
    rw [List.append_nil,Vector.length_toList] at hlen
    omega
  | cons x tail =>
    refine ⟨tail,?_⟩
    rw [List.set_cons_zero,List.append_assoc,List.singleton_append]

theorem set?_full {i : ℕ} (hi : n ≤ i) (a : Vector α n) (v : α) : set? a i v = none :=
  dif_neg (by omega)

theorem prefix_get? {kept : List α} {a : Vector α n} {c : α} (h : kept ++ [c] <+: a.toList) :
    get? a kept.length = some c := by
  obtain ⟨tail,htail⟩ := h
  rw [← toList_get?,← htail,List.append_assoc,List.getElem?_append_right (Nat.le_refl _),
    Nat.sub_self]
  rfl

theorem drop_toList (a : Vector α n) {k : ℕ} (hk : k < n) :
    a.toList.drop k = a.get ⟨k,hk⟩ :: a.toList.drop (k + 1) := by
  rw [List.drop_eq_getElem_cons (by simpa using hk),Vector.getElem_toList]
  rfl

theorem storeLoop_move (a : Vector α n) {d k : ℕ} (hk : k + d ≤ n) :
    ∃ b, storeLoop (fun a j => get? a (j + d)) 0 k a = some b ∧
      ∀ m : ℕ, get? b m = if m < k then get? a ((m + d : ℕ) : ℤ) else get? a m := by
  rcases Nat.eq_zero_or_pos n with hn | hn
  · refine ⟨a,by simp [storeLoop,show k = 0 by omega],fun m => by rw [if_neg (by omega)]⟩
  obtain ⟨b,hb,hget⟩ := storeLoop_ahead (fun a (j : ℕ) => get? a (j + d))
    (fun j => a.get ⟨(j + d) % n,Nat.mod_lt _ hn⟩) 0 a k (by omega) fun j hj b hb => by
      have hread : get? b ((j + d : ℕ) : ℤ) = get? a ((j + d : ℕ) : ℤ) := hb (j + d) (by omega)
      push_cast at hread
      rw [hread]
      exact get?_eq a (Nat.mod_lt _ hn) (by rw [Nat.mod_eq_of_lt (by omega)]; push_cast; rfl)
  refine ⟨b,hb,fun m => ?_⟩
  rw [hget]
  refine if_ctx_congr (by omega) (fun hm => ?_) fun _ => rfl
  exact (get?_eq a (Nat.mod_lt _ hn) (by rw [Nat.mod_eq_of_lt (by omega)]; rfl)).symm

theorem storeLoop_shift (a : Vector α n) {k : ℕ} (hk : k < n) :
    ∃ b, storeLoop (fun a j => get? a (j + 1)) 0 k a = some b ∧
      b.toList.take k = (a.toList.take (k + 1)).tail := by
  obtain ⟨b,hb,hget⟩ := storeLoop_move a (d := 1) (k := k) hk
  refine ⟨b,hb,List.ext_getElem? fun m => ?_⟩
  rw [List.getElem?_tail,List.getElem?_take,List.getElem?_take,toList_get?,toList_get?,hget]
  by_cases hm : m < k
  · rw [if_pos hm,if_pos hm,if_pos (by omega)]
  · rw [if_neg hm,if_neg (by omega)]

theorem storeLoop_fill (v : α) (base : ℕ) (a : Vector α n) {k : ℕ} (hk : base + k ≤ n) :
    ∃ b, storeLoop (fun _ _ => some v) base k a = some b ∧
      ∀ m : ℕ, get? b m = if base ≤ m ∧ m < base + k then some v else get? a m :=
  storeLoop_spec _ (fun _ => v) base a k hk fun _ _ _ _ => rfl

theorem get?_replicate (v : α) {m : ℕ} (hm : m < n) : get? (Vector.replicate n v) m = some v := by
  rw [get?_eq _ hm rfl]
  exact congrArg some (Vector.getElem_replicate hm)

theorem ext_get? {a b : Vector α n} (h : ∀ m : ℕ, m < n → get? a m = get? b m) : a = b := by
  refine ext_get fun i => Option.some.inj ?_
  have hi := h i i.isLt
  rwa [get?_eq a i.isLt rfl,get?_eq b i.isLt rfl] at hi

theorem concat_cases {l : List α} {a b : α} {i : ℕ} (h : (l ++ [a])[i]? = some b) :
    l[i]? = some b ∨ i = l.length ∧ b = a := by
  rcases Nat.lt_or_ge i l.length with hlt | hge
  · rw [List.getElem?_append_left hlt] at h
    exact .inl h
  · rw [List.getElem?_append_right hge,List.getElem?_singleton] at h
    split at h
    · cases h
      exact .inr ⟨by omega,rfl⟩
    · cases h

theorem foldl_set (f : Fin n → α → α) (l : List (Fin n)) (hl : l.Nodup) (a : Vector α n)
    (j : Fin n) :
    (l.foldl (fun s (i : Fin n) => s.set i (f i (s.get i)) i.isLt) a).get j =
      if j ∈ l then f j (a.get j) else a.get j := by
  induction l generalizing a with
  | nil => simp
  | cons i l ih =>
    obtain ⟨hi,hl⟩ := List.nodup_cons.mp hl
    rw [List.foldl_cons,ih hl]
    by_cases hj : j = i
    · subst hj
      simp [hi,get_set]
    · simp [hj,get_set]

@[simp] theorem forEach_get (f : Fin n → α → α) (a : Vector α n) (j : Fin n) :
    (forEach f a).get j = f j (a.get j) := by
  rw [forEach,foldl_set f _ (List.nodup_finRange n)]
  simp

theorem foldlM_some {σ ι : Type} (f : σ → ι → Option σ) (g : σ → ι → σ) (l : List ι)
    (h : ∀ s, ∀ i ∈ l, f s i = some (g s i)) (s : σ) : l.foldlM f s = some (l.foldl g s) := by
  induction l generalizing s with
  | nil => rfl
  | cons i l ih =>
    rw [List.foldlM_cons,h s i (by simp),List.foldl_cons]
    exact ih (fun s j hj => h s j (by simp [hj])) (g s i)

end CArray
