import KluxOS.Lib.CArray

namespace Reversal

open CArray

variable {α : Type} {k i m : ℕ}

def swap (a : Vector α k) (p q : ℕ) : Option (Vector α k) := do
  let x ← get? a p
  let y ← get? a q
  let a ← set? a p y
  set? a q x

-- m turns of the loop that reverses the first i cells in place
def swapTurns (i m : ℕ) (a : Vector α k) : Option (Vector α k) :=
  (List.range m).foldlM (fun a j => swap a j (i - j - 1)) a

def reverseFront (i : ℕ) (a : Vector α k) : Option (Vector α k) := swapTurns i (i / 2) a

theorem swap_spec (a : Vector α k) {p q : ℕ} (hp : p < k) (hq : q < k) :
    ∃ b, swap a p q = some b ∧ ∀ r : ℕ,
      get? b r = if r = q then get? a p else if r = p then get? a q else get? a r := by
  have hx := get?_eq a hp rfl
  have hy := get?_eq a hq rfl
  refine ⟨(a.set p (a.get ⟨q,hq⟩) hp).set q (a.get ⟨p,hp⟩) hq,?_,fun r => ?_⟩
  · rw [swap,hx,hy]
    change (set? a p _).bind _ = _
    rw [set?_eq a _ hp rfl]
    exact set?_eq _ _ hq rfl
  · rw [get?_set,get?_set,hx,hy]

-- the outer m cells on each side hold what stood opposite to them
theorem swapTurns_spec (a : Vector α k) (hi : i ≤ k) (hm : 2 * m ≤ i) :
    ∃ b, swapTurns i m a = some b ∧ ∀ r : ℕ, get? b r =
      if r < m ∨ (i - m ≤ r ∧ r < i) then get? a (i - 1 - r : ℕ) else get? a r := by
  induction m with
  | zero => exact ⟨a,rfl,fun r => by rw [if_neg (by omega)]⟩
  | succ m ih =>
    obtain ⟨b,hb,hget⟩ := ih (by omega)
    have hp : m < k := by omega
    have hq : i - m - 1 < k := by omega
    obtain ⟨c,hc,hswap⟩ := swap_spec b hp hq
    refine ⟨c,?_,fun r => ?_⟩
    · rw [swapTurns] at hb ⊢
      rw [List.range_succ,List.foldlM_append,hb]
      change (swap b m (i - m - 1)).bind some = _
      rw [hc]
      rfl
    · have hl : get? b m = get? a m := by rw [hget,if_neg (by omega)]
      have hr : get? b (i - m - 1 : ℕ) = get? a (i - m - 1 : ℕ) := by rw [hget,if_neg (by omega)]
      rw [hswap,hl,hr]
      by_cases hright : r = i - m - 1
      · rw [if_pos hright,if_pos (by omega)]
        exact congrArg (fun p : ℕ => get? a p) (by omega)
      · rw [if_neg hright]
        by_cases hleft : r = m
        · rw [if_pos hleft,if_pos (by omega)]
          exact congrArg (fun p : ℕ => get? a p) (by omega)
        · rw [if_neg hleft,hget]
          exact if_congr (by omega) rfl rfl

theorem reverseFront_spec {kept tail : List α} {a : Vector α k} (ha : a.toList = kept ++ tail) :
    ∃ b, reverseFront kept.length a = some b ∧ b.toList = kept.reverse ++ tail := by
  have hlen : kept.length ≤ k := by
    rw [← a.length_toList,ha,List.length_append]
    exact Nat.le_add_right _ _
  obtain ⟨b,hb,hget⟩ := swapTurns_spec a hlen (Nat.mul_div_le kept.length 2)
  refine ⟨b,hb,List.ext_getElem? fun r => ?_⟩
  rw [toList_get?,hget,← toList_get?,← toList_get?,ha]
  rcases Nat.lt_or_ge r kept.length with hr | hr
  · have hopposite : kept.length - 1 - r < kept.length := by omega
    rw [List.getElem?_append_left (by rwa [List.length_reverse] : r < kept.reverse.length),
      List.getElem?_reverse hr,List.getElem?_append_left hopposite,List.getElem?_append_left hr]
    split
    · rfl
    · -- the middle cell stays
      exact congrArg (fun p : ℕ => kept[p]?) (by omega)
  · rw [if_neg (by omega),List.getElem?_append_right hr,
      List.getElem?_append_right (by rwa [List.length_reverse]),List.length_reverse]

end Reversal
