import KluxOS.Lib.Newest
import Mathlib.Data.List.Induction

namespace TextRows

open Newest

variable {α : Type}

structure Log (α : Type) where
  completed : List (List α)
  current : List α

def Log.rows (l : Log α) : List (List α) := l.completed ++ [l.current]

def Log.put [DecidableEq α] (w : ℕ) (newline : α) (l : Log α) (c : α) : Log α :=
  if c = newline then ⟨l.rows,[]⟩
  else if l.current.length + 1 = w then ⟨l.completed ++ [l.current ++ [c]],[]⟩
  else ⟨l.completed,l.current ++ [c]⟩

def wrap [DecidableEq α] (w : ℕ) (newline : α) (s : List α) : Log α :=
  s.foldl (Log.put w newline) ⟨[],[]⟩

def cell (blank : α) (rows : List (List α)) (y x : ℕ) : α :=
  ((rows[y]?.getD [])[x]?).getD blank

-- rows written one below the other on a screen of h lines, from the top again after the last line
def overlay (h : ℕ) (blank : α) (rows : List (List α)) (y x : ℕ) : α :=
  rows.zipIdx.foldl (fun v r => if r.2 % h = y then (r.1[x]?).getD v else v) blank

-- what the rows before it left on the line of row j lies under row j or is blank
def Covers (w h : ℕ) (blank : α) (rows : List (List α)) (j : ℕ) : Prop :=
  ∀ x < w, (rows[j]?.getD []).length ≤ x → ∀ i < j, i % h = j % h →
    (∀ k, i < k → k < j → k % h = j % h → (rows[k]?.getD []).length ≤ x) →
      ∀ c, (rows[i]?.getD [])[x]? = some c → c = blank

variable {blank : α} {rows : List (List α)} {w h : ℕ}

theorem cell_nil_row (rows : List (List α)) (y x : ℕ) :
    cell blank (rows ++ [[]]) y x = cell blank rows y x := by
  rw [cell,cell]
  rcases Nat.lt_trichotomy y rows.length with hy | hy | hy
  · rw [List.getElem?_append_left hy]
  · subst hy
    simp
  · have hnone : (rows ++ [[]])[y]? = none := List.getElem?_eq_none (by simp; omega)
    rw [hnone,List.getElem?_eq_none (Nat.le_of_lt hy)]

theorem cell_tail (rows : List (List α)) (y x : ℕ) :
    cell blank rows.tail y x = cell blank rows (y + 1) x := by
  rw [cell,cell,List.getElem?_tail]

theorem cell_beyond {y : ℕ} (h : rows.length ≤ y) (x : ℕ) : cell blank rows y x = blank := by
  rw [cell,List.getElem?_eq_none h]
  rfl

theorem cell_concat (rows : List (List α)) (r : List α) (c : α) (y x : ℕ) :
    cell blank (rows ++ [r ++ [c]]) y x =
      if y = rows.length ∧ x = r.length then c else cell blank (rows ++ [r]) y x := by
  rw [cell,cell]
  rcases Nat.lt_trichotomy y rows.length with hy | hy | hy
  · rw [if_neg (by omega),List.getElem?_append_left hy,List.getElem?_append_left hy]
  · subst hy
    simp only [List.getElem?_concat_length,Option.getD_some,true_and]
    rcases Nat.lt_trichotomy x r.length with hx | hx | hx
    · rw [if_neg (by omega),List.getElem?_append_left hx]
    · subst hx
      simp
    · have hnone : (r ++ [c])[x]? = none := List.getElem?_eq_none (by simp; omega)
      rw [if_neg (by omega),hnone,List.getElem?_eq_none (Nat.le_of_lt hx)]
  · have hnone : ∀ r : List α, (rows ++ [r])[y]? = none := fun r =>
      List.getElem?_eq_none (by simp; omega)
    rw [if_neg (by omega),hnone,hnone]

theorem overlay_concat (rows : List (List α)) (r : List α) (y x : ℕ) :
    overlay h blank (rows ++ [r]) y x =
      if rows.length % h = y then (r[x]?).getD (overlay h blank rows y x)
      else overlay h blank rows y x := by
  rw [overlay,List.zipIdx_append,List.foldl_append]
  simp only [List.zipIdx_singleton,List.foldl_cons,List.foldl_nil,Nat.zero_add]
  rfl

theorem overlay_nil_row (rows : List (List α)) (y x : ℕ) :
    overlay h blank (rows ++ [[]]) y x = overlay h blank rows y x := by
  rw [overlay_concat]
  split <;> rfl

theorem overlay_put (rows : List (List α)) (r : List α) (c : α) (y x : ℕ) :
    overlay h blank (rows ++ [r ++ [c]]) y x =
      if y = rows.length % h ∧ x = r.length then c else overlay h blank (rows ++ [r]) y x := by
  rw [overlay_concat,overlay_concat]
  by_cases hy : rows.length % h = y
  · rw [if_pos hy,if_pos hy]
    rcases Nat.lt_trichotomy x r.length with hx | hx | hx
    · rw [if_neg (by omega),List.getElem?_append_left hx]
    · subst hx
      simp [hy]
    · have hnone : (r ++ [c])[x]? = none := List.getElem?_eq_none (by simp; omega)
      rw [if_neg (by omega),hnone,List.getElem?_eq_none (Nat.le_of_lt hx)]
  · rw [if_neg hy,if_neg hy,if_neg (fun hat => hy hat.1.symm)]

theorem overlay_last {j y : ℕ} (x : ℕ) (hj : j < rows.length) (hy : j % h = y)
    (hlast : ∀ k, j < k → k < rows.length → k % h ≠ y) : overlay h blank rows y x =
      ((rows[j]?.getD [])[x]?).getD (overlay h blank (rows.take j) y x) := by
  induction rows using List.reverseRecOn with
  | nil => cases hj
  | append_singleton l r ih =>
    rw [List.length_append,List.length_singleton] at hj hlast
    rw [overlay_concat]
    rcases Nat.lt_succ_iff_lt_or_eq.mp hj with hlt | rfl
    · rw [if_neg (hlast l.length hlt (by omega)),ih hlt fun k hk hkl => hlast k hk (by omega),
        List.getElem?_append_left hlt,List.take_append_of_le_length (Nat.le_of_lt hlt)]
    · rw [if_pos hy,List.getElem?_concat_length,List.take_left]
      rfl

-- the last row that reaches x on the line y is blank there
def Blanked (h : ℕ) (blank : α) (rows : List (List α)) (y x : ℕ) : Prop :=
  ∀ i < rows.length, i % h = y →
    (∀ k, i < k → k < rows.length → k % h = y → (rows[k]?.getD []).length ≤ x) →
      ∀ c, (rows[i]?.getD [])[x]? = some c → c = blank

section Concat

variable (l : List (List α)) (r : List α)

theorem row_old {i : ℕ} (hi : i < l.length) : (l ++ [r])[i]?.getD [] = l[i]?.getD [] := by
  rw [List.getElem?_append_left hi]

theorem row_new : (l ++ [r])[l.length]?.getD [] = r := by
  rw [List.getElem?_concat_length]
  rfl

variable {l r}

theorem blanked_reached {y x : ℕ} (hy : l.length % h = y) (hx : x < r.length) :
    Blanked h blank (l ++ [r]) y x ↔ r[x] = blank := by
  rw [Blanked,List.length_append,List.length_singleton]
  constructor
  · intro hall
    refine hall l.length (by omega) hy (fun k _ _ => by omega) _ ?_
    rw [row_new,List.getElem?_eq_getElem hx]
  · intro heq i hi hiy hk c hc
    rcases Nat.lt_succ_iff_lt_or_eq.mp hi with hlt | rfl
    · have hreach := hk l.length hlt (by omega) hy
      rw [row_new] at hreach
      omega
    · rw [row_new,List.getElem?_eq_getElem hx] at hc
      exact (Option.some.inj hc).symm.trans heq

theorem blanked_skipped {y x : ℕ} (hskip : ¬ (l.length % h = y ∧ x < r.length)) :
    Blanked h blank (l ++ [r]) y x ↔ Blanked h blank l y x := by
  rw [Blanked,Blanked,List.length_append,List.length_singleton]
  constructor
  · intro hall i hi hiy hk c hc
    refine hall i (by omega) hiy (fun k hik hkl hky => ?_) c (by rw [row_old l r hi]; exact hc)
    rcases Nat.lt_succ_iff_lt_or_eq.mp hkl with hlt | rfl
    · rw [row_old l r hlt]
      exact hk k hik hlt hky
    · rw [row_new]
      exact Nat.le_of_not_lt fun hx => hskip ⟨hky,hx⟩
  · intro hall i hi hiy hk c hc
    rcases Nat.lt_succ_iff_lt_or_eq.mp hi with hlt | rfl
    · rw [row_old l r hlt] at hc
      refine hall i hlt hiy (fun k hik hkl hky => ?_) c hc
      rw [← row_old l r hkl]
      exact hk k hik (by omega) hky
    · rw [row_new] at hc
      exact absurd ⟨hiy,(List.getElem?_eq_some_iff.mp hc).1⟩ hskip

end Concat

theorem overlay_blank_iff (rows : List (List α)) (y x : ℕ) :
    overlay h blank rows y x = blank ↔ Blanked h blank rows y x := by
  induction rows using List.reverseRecOn with
  | nil => simp [overlay,Blanked]
  | append_singleton l r ih =>
    rw [overlay_concat]
    by_cases hreach : l.length % h = y ∧ x < r.length
    · obtain ⟨hy,hx⟩ := hreach
      rw [blanked_reached hy hx,if_pos hy,List.getElem?_eq_getElem hx,Option.getD_some]
    · rw [blanked_skipped hreach,← ih]
      by_cases hy : l.length % h = y
      · rw [if_pos hy,List.getElem?_eq_none (Nat.le_of_not_lt fun hx => hreach ⟨hy,hx⟩),
          Option.getD_none]
      · rw [if_neg hy]

theorem covers_iff {j : ℕ} (hj : j < rows.length) : Covers w h blank rows j ↔ ∀ x < w,
    (rows[j]?.getD []).length ≤ x → overlay h blank (rows.take j) (j % h) x = blank := by
  have hlen : (rows.take j).length = j := List.length_take_of_le (Nat.le_of_lt hj)
  refine forall_congr' fun x => imp_congr_right fun _ => imp_congr_right fun _ => ?_
  rw [overlay_blank_iff,Blanked,hlen]
  refine forall_congr' fun i => imp_congr_right fun hi => imp_congr_right fun _ => ?_
  rw [List.getElem?_take_of_lt hi]
  refine imp_congr (forall_congr' fun k => imp_congr_right fun _ =>
    forall_congr' fun hk => ?_) Iff.rfl
  rw [List.getElem?_take_of_lt hk]

theorem overlay_short {y : ℕ} (hy : y < h) (x : ℕ) (hrows : rows.length ≤ h) :
    overlay h blank rows y x = cell blank rows y x := by
  induction rows using List.reverseRecOn with
  | nil => simp [overlay,cell]
  | append_singleton l r ih =>
    rw [List.length_append,List.length_singleton] at hrows
    rw [overlay_concat,ih (by omega),Nat.mod_eq_of_lt (by omega)]
    rcases Nat.lt_trichotomy y l.length with hlt | rfl | hgt
    · rw [if_neg (by omega),cell,cell,List.getElem?_append_left hlt]
    · rw [if_pos rfl,cell_beyond (Nat.le_refl _),cell,List.getElem?_concat_length]
      rfl
    · have hnone : (l ++ [r])[y]? = none := List.getElem?_eq_none (by simp; omega)
      rw [if_neg (by omega),cell,cell,hnone,List.getElem?_eq_none (Nat.le_of_lt hgt)]

theorem newest_cell {y : ℕ} (x : ℕ) : cell blank (newest h rows) y x =
    ((rows[rows.length - h + y]?.getD [])[x]?).getD blank := by
  rw [cell,newest,List.getElem?_drop]

theorem newest_overlay_iff (hdiv : h ∣ rows.length) :
    (∀ y < h, ∀ x < w, cell blank (newest h rows) y x = overlay h blank rows y x) ↔
      ∀ j < rows.length, rows.length ≤ j + h → Covers w h blank rows j := by
  have hline : ∀ d < h, (rows.length - h + d) % h = d := fun d hd => by
    rw [Nat.add_mod,Nat.mod_eq_zero_of_dvd (Nat.dvd_sub hdiv (Nat.dvd_refl h)),Nat.zero_add,
      Nat.mod_mod,Nat.mod_eq_of_lt hd]
  have hlast : ∀ y < h, ∀ k, rows.length - h + y < k → k < rows.length → k % h ≠ y :=
    fun y _ k hk hkl hky => by
      have := hline (k - (rows.length - h)) (by omega)
      rw [Nat.add_sub_cancel' (by omega)] at this
      omega
  have hcell : ∀ y < h, ∀ x, rows.length - h + y < rows.length →
      (cell blank (newest h rows) y x = overlay h blank rows y x ↔
        ((rows[rows.length - h + y]?.getD []).length ≤ x →
          overlay h blank (rows.take (rows.length - h + y)) y x = blank)) := fun y hy x hj => by
    rw [newest_cell,overlay_last x hj (hline y hy) (hlast y hy)]
    rcases Nat.lt_or_ge x (rows[rows.length - h + y]?.getD []).length with hx | hx
    · rw [List.getElem?_eq_getElem hx]
      exact iff_of_true rfl fun hle => by omega
    · rw [List.getElem?_eq_none hx]
      exact ⟨fun heq _ => heq.symm,fun heq => (heq hx).symm⟩
  constructor
  · intro hall j hj hjh
    obtain ⟨y,rfl⟩ : ∃ y, j = rows.length - h + y := ⟨j - (rows.length - h),by omega⟩
    rw [covers_iff hj,hline y (by omega)]
    exact fun x hx => (hcell y (by omega) x hj).mp (hall y (by omega) x hx)
  · intro hall y hy x hx
    rcases Nat.eq_zero_or_pos rows.length with hzero | hpos
    · simp [List.length_eq_zero_iff.mp hzero,cell,newest,overlay]
    · have hle := Nat.le_of_dvd hpos hdiv
      have hcov := hall (rows.length - h + y) (by omega) (by omega)
      rw [covers_iff (by omega),hline y hy] at hcov
      exact (hcell y hy x (by omega)).mpr (hcov x hx)

end TextRows
