import Mathlib.Algebra.BigOperators.Fin
import Mathlib.Algebra.CharP.Two
import Mathlib.Algebra.Field.Basic
import Mathlib.Tactic.FinCases
import Mathlib.Tactic.LinearCombination
import Mathlib.Tactic.Ring

namespace CyclicColumn

section Ring
variable {R : Type} [CommRing R]

def conv (a b : Fin 4 → R) : Fin 4 → R := fun i => ∑ j, a (i - j) * b j

def scalar (s : R) : Fin 4 → R := ![s,0,0,0]

theorem conv_apply (a b : Fin 4 → R) :
    conv a b = ![a 0 * b 0 + a 3 * b 1 + a 2 * b 2 + a 1 * b 3,
                a 1 * b 0 + a 0 * b 1 + a 3 * b 2 + a 2 * b 3,
                a 2 * b 0 + a 1 * b 1 + a 0 * b 2 + a 3 * b 3,
                a 3 * b 0 + a 2 * b 1 + a 1 * b 2 + a 0 * b 3] := by
  funext i
  fin_cases i <;> exact Fin.sum_univ_four _

theorem conv_assoc (a b c : Fin 4 → R) : conv (conv a b) c = conv a (conv b c) := by
  simp only [conv_apply]
  funext i
  fin_cases i <;> simp <;> ring

theorem conv_comm (a b : Fin 4 → R) : conv a b = conv b a := by
  simp only [conv_apply]
  funext i
  fin_cases i <;> simp <;> ring

theorem scalar_conv (s : R) (a : Fin 4 → R) : conv (scalar s) a = fun i => s * a i := by
  rw [conv_apply]
  funext i
  fin_cases i <;> simp [scalar]

theorem one_conv (a : Fin 4 → R) : conv (scalar 1) a = a := by
  simp [scalar_conv]

theorem add_conv (a b c : Fin 4 → R) : conv (a + b) c = conv a c + conv b c := by
  funext i
  simp [conv,add_mul,Finset.sum_add_distrib]

theorem sum_conv (a b : Fin 4 → R) : ∑ i, conv a b i = (∑ i, a i) * ∑ i, b i := by
  simp only [conv_apply,Fin.sum_univ_four]
  simp
  ring

variable [CharP R 2]

theorem square (a : Fin 4 → R) :
    conv a a = ![a 0 ^ 2 + a 2 ^ 2,0,a 1 ^ 2 + a 3 ^ 2,0] := by
  have h2 : (2 : R) = 0 := CharTwo.two_eq_zero
  rw [conv_apply]
  funext i
  fin_cases i <;> simp
  · linear_combination (a 1 * a 3) * h2
  · linear_combination (a 0 * a 1 + a 2 * a 3) * h2
  · linear_combination (a 0 * a 2) * h2
  · linear_combination (a 0 * a 3 + a 1 * a 2) * h2

theorem fourth_power (a : Fin 4 → R) :
    conv (conv a a) (conv a a) = scalar ((∑ i, a i) ^ 4) := by
  have h2 : (2 : R) = 0 := CharTwo.two_eq_zero
  have hs : (∑ i, a i) ^ 2 = a 0 ^ 2 + a 1 ^ 2 + a 2 ^ 2 + a 3 ^ 2 := by
    rw [Fin.sum_univ_four]
    linear_combination (a 0 * a 1 + a 0 * a 2 + a 0 * a 3 + a 1 * a 2 + a 1 * a 3 + a 2 * a 3) * h2
  have hf : (∑ i, a i) ^ 4 = (a 0 ^ 2 + a 2 ^ 2) ^ 2 + (a 1 ^ 2 + a 3 ^ 2) ^ 2 := by
    rw [show (∑ i, a i) ^ 4 = ((∑ i, a i) ^ 2) ^ 2 by ring,hs]
    linear_combination ((a 0 ^ 2 + a 2 ^ 2) * (a 1 ^ 2 + a 3 ^ 2)) * h2
  rw [square (conv a a),square a,hf]
  funext i
  fin_cases i <;> simp [scalar]

end Ring

section Field
variable {F : Type} [Field F] [CharP F 2]

def inv (a : Fin 4 → F) : Fin 4 → F :=
  conv (scalar ((∑ i, a i) ^ 4)⁻¹) (conv (conv a a) a)

theorem inv_conv {a : Fin 4 → F} (h : ∑ i, a i ≠ 0) : conv (inv a) a = scalar 1 := by
  rw [inv,conv_assoc,conv_assoc,conv_assoc,← conv_assoc a a,fourth_power,scalar_conv]
  funext i
  fin_cases i <;> simp [scalar,h]

theorem conv_inv {a : Fin 4 → F} (h : ∑ i, a i ≠ 0) : conv a (inv a) = scalar 1 := by
  rw [conv_comm,inv_conv h]

theorem conv_eq_zero {a : Fin 4 → F} (h : ∑ i, a i ≠ 0) {b : Fin 4 → F} (hb : conv a b = 0) :
    b = 0 := by
  have hi : conv (inv a) (conv a b) = b := by rw [← conv_assoc,inv_conv h,one_conv]
  rw [hb] at hi
  rw [← hi]
  funext i
  simp [conv]

theorem conv_fixed {a : Fin 4 → F} (h : ∑ i, a i ≠ 1) {b : Fin 4 → F} :
    conv a b = b ↔ b = 0 := by
  constructor
  · intro hb
    have hs : ∑ i, (a + scalar 1 : Fin 4 → F) i ≠ 0 := by
      simp only [Fin.sum_univ_four] at h ⊢
      simp [scalar]
      intro hz
      refine h ?_
      linear_combination hz - CharTwo.two_eq_zero (R := F)
    refine conv_eq_zero hs ?_
    rw [add_conv,one_conv,hb]
    funext i
    exact CharTwo.add_self_eq_zero (b i)
  · rintro rfl
    funext i
    simp [conv]

end Field

end CyclicColumn
