import Mathlib.RingTheory.AdjoinRoot
import Mathlib.Algebra.CharP.Two
import Mathlib.Algebra.Field.ZMod
import Mathlib.Tactic.LinearCombination
import Mathlib.Tactic.ComputeDegree

namespace Gf256Bits

def xtime (a : BitVec 8) : BitVec 8 := (a <<< 1) ^^^ (if a.msb then 0x1b#8 else 0#8)

def mulStep (a b : BitVec 8) (i : ℕ) (acc : BitVec 8) : BitVec 8 :=
  if b.getLsbD i then xtime acc ^^^ a else xtime acc

def mul (a b : BitVec 8) : BitVec 8 := (List.range 8).foldr (mulStep a b) 0#8

def inverses : List (BitVec 8) :=
  [0x00, 0x01, 0x8d, 0xf6, 0xcb, 0x52, 0x7b, 0xd1, 0xe8, 0x4f, 0x29, 0xc0, 0xb0, 0xe1, 0xe5, 0xc7,
   0x74, 0xb4, 0xaa, 0x4b, 0x99, 0x2b, 0x60, 0x5f, 0x58, 0x3f, 0xfd, 0xcc, 0xff, 0x40, 0xee, 0xb2,
   0x3a, 0x6e, 0x5a, 0xf1, 0x55, 0x4d, 0xa8, 0xc9, 0xc1, 0x0a, 0x98, 0x15, 0x30, 0x44, 0xa2, 0xc2,
   0x2c, 0x45, 0x92, 0x6c, 0xf3, 0x39, 0x66, 0x42, 0xf2, 0x35, 0x20, 0x6f, 0x77, 0xbb, 0x59, 0x19,
   0x1d, 0xfe, 0x37, 0x67, 0x2d, 0x31, 0xf5, 0x69, 0xa7, 0x64, 0xab, 0x13, 0x54, 0x25, 0xe9, 0x09,
   0xed, 0x5c, 0x05, 0xca, 0x4c, 0x24, 0x87, 0xbf, 0x18, 0x3e, 0x22, 0xf0, 0x51, 0xec, 0x61, 0x17,
   0x16, 0x5e, 0xaf, 0xd3, 0x49, 0xa6, 0x36, 0x43, 0xf4, 0x47, 0x91, 0xdf, 0x33, 0x93, 0x21, 0x3b,
   0x79, 0xb7, 0x97, 0x85, 0x10, 0xb5, 0xba, 0x3c, 0xb6, 0x70, 0xd0, 0x06, 0xa1, 0xfa, 0x81, 0x82,
   0x83, 0x7e, 0x7f, 0x80, 0x96, 0x73, 0xbe, 0x56, 0x9b, 0x9e, 0x95, 0xd9, 0xf7, 0x02, 0xb9, 0xa4,
   0xde, 0x6a, 0x32, 0x6d, 0xd8, 0x8a, 0x84, 0x72, 0x2a, 0x14, 0x9f, 0x88, 0xf9, 0xdc, 0x89, 0x9a,
   0xfb, 0x7c, 0x2e, 0xc3, 0x8f, 0xb8, 0x65, 0x48, 0x26, 0xc8, 0x12, 0x4a, 0xce, 0xe7, 0xd2, 0x62,
   0x0c, 0xe0, 0x1f, 0xef, 0x11, 0x75, 0x78, 0x71, 0xa5, 0x8e, 0x76, 0x3d, 0xbd, 0xbc, 0x86, 0x57,
   0x0b, 0x28, 0x2f, 0xa3, 0xda, 0xd4, 0xe4, 0x0f, 0xa9, 0x27, 0x53, 0x04, 0x1b, 0xfc, 0xac, 0xe6,
   0x7a, 0x07, 0xae, 0x63, 0xc5, 0xdb, 0xe2, 0xea, 0x94, 0x8b, 0xc4, 0xd5, 0x9d, 0xf8, 0x90, 0x6b,
   0xb1, 0x0d, 0xd6, 0xeb, 0xc6, 0x0e, 0xcf, 0xad, 0x08, 0x4e, 0xd7, 0xe3, 0x5d, 0x50, 0x1e, 0xb3,
   0x5b, 0x23, 0x38, 0x34, 0x68, 0x46, 0x03, 0x8c, 0xdd, 0x9c, 0x7d, 0xa0, 0xcd, 0x1a, 0x41, 0x1c]

theorem inverses_length : inverses.length = 256 := by decide +kernel

def inv (a : BitVec 8) : BitVec 8 :=
  inverses.get ⟨a.toNat,by rw [inverses_length]; exact a.isLt⟩

theorem xtime_bits (a : BitVec 8) :
    (xtime a).getLsbD 0 = a.getLsbD 7 ∧
    (xtime a).getLsbD 1 = (a.getLsbD 0 ^^ a.getLsbD 7) ∧
    (xtime a).getLsbD 2 = a.getLsbD 1 ∧
    (xtime a).getLsbD 3 = (a.getLsbD 2 ^^ a.getLsbD 7) ∧
    (xtime a).getLsbD 4 = (a.getLsbD 3 ^^ a.getLsbD 7) ∧
    (xtime a).getLsbD 5 = a.getLsbD 4 ∧
    (xtime a).getLsbD 6 = a.getLsbD 5 ∧
    (xtime a).getLsbD 7 = a.getLsbD 6 := by
  revert a
  decide +kernel

theorem mul_inv (a : BitVec 8) (h : a ≠ 0#8) : mul a (inv a) = 1#8 := by
  revert a
  decide +kernel

theorem inv_zero : inv 0#8 = 0#8 := by decide +kernel

open Polynomial in
noncomputable def modulus : (ZMod 2)[X] := X^8 + X^4 + X^3 + X + 1

abbrev Quotient := AdjoinRoot modulus

noncomputable def root : Quotient := AdjoinRoot.root modulus

theorem two_eq_zero : (2 : Quotient) = 0 := by
  rw [← map_ofNat (AdjoinRoot.of modulus) 2,show (2 : ZMod 2) = 0 from rfl,map_zero]

theorem add_self (x : Quotient) : x + x = 0 := by
  linear_combination x * two_eq_zero

open Polynomial in
theorem root_pow_eight : root^8 = root^4 + root^3 + root + 1 := by
  have hr : (AdjoinRoot.mk modulus) (X^8 + X^4 + X^3 + X + 1) = 0 := AdjoinRoot.mk_self
  simp only [map_add,map_pow,map_one,AdjoinRoot.mk_X] at hr
  change root^8 + root^4 + root^3 + root + 1 = 0 at hr
  linear_combination hr - (root^4 + root^3 + root + 1) * two_eq_zero

theorem modulus_degree : modulus.degree = 8 := by
  unfold modulus
  compute_degree!

instance : Nontrivial Quotient :=
  AdjoinRoot.nontrivial modulus (by rw [modulus_degree]; decide)

noncomputable def coeff (b : Bool) : Quotient := if b then 1 else 0

theorem coeff_xor (p q : Bool) : coeff (p ^^ q) = coeff p + coeff q := by
  cases p <;> cases q <;> simp [coeff,add_self]

noncomputable def toQuotient (a : BitVec 8) : Quotient :=
  ∑ i ∈ Finset.range 8, coeff (a.getLsbD i) * root^i

theorem toQuotient_zero : toQuotient 0#8 = 0 := by simp [toQuotient,coeff]

theorem toQuotient_one : toQuotient 1#8 = 1 := by
  simp [toQuotient,coeff]

theorem toQuotient_xor (a b : BitVec 8) :
    toQuotient (a ^^^ b) = toQuotient a + toQuotient b := by
  simp only [toQuotient,BitVec.getLsbD_xor,coeff_xor,add_mul,Finset.sum_add_distrib]

theorem toQuotient_xtime (a : BitVec 8) : toQuotient (xtime a) = root * toQuotient a := by
  obtain ⟨h0,h1,h2,h3,h4,h5,h6,h7⟩ := xtime_bits a
  simp only [toQuotient,Finset.sum_range_succ,Finset.sum_range_zero,h0,h1,h2,h3,h4,h5,h6,h7,
    coeff_xor]
  linear_combination (-coeff (a.getLsbD 7)) * root_pow_eight

theorem toQuotient_mulStep (a b : BitVec 8) (i : ℕ) (acc : BitVec 8) :
    toQuotient (mulStep a b i acc) =
      root * toQuotient acc + coeff (b.getLsbD i) * toQuotient a := by
  unfold mulStep
  cases b.getLsbD i
  · simp [coeff,toQuotient_xtime]
  · simp [coeff,toQuotient_xor,toQuotient_xtime]

theorem toQuotient_mul (a b : BitVec 8) :
    toQuotient (mul a b) = toQuotient a * toQuotient b := by
  have hl : List.range 8 = [0,1,2,3,4,5,6,7] := rfl
  rw [mul,hl]
  simp only [List.foldr_cons,List.foldr_nil,toQuotient_mulStep,toQuotient_zero]
  conv_rhs => rw [toQuotient.eq_def b]
  simp only [Finset.sum_range_succ,Finset.sum_range_zero]
  ring

theorem toQuotient_injective : Function.Injective toQuotient := by
  intro a b h
  by_contra hab
  have hz : a ^^^ b ≠ 0#8 := fun hz => hab (BitVec.xor_eq_zero_iff.mp hz)
  have hzero : toQuotient (a ^^^ b) = 0 := by rw [toQuotient_xor,h,add_self]
  have hone := congrArg toQuotient (mul_inv _ hz)
  rw [toQuotient_mul,hzero,zero_mul,toQuotient_one] at hone
  exact zero_ne_one hone

end Gf256Bits

@[ext] structure Gf256 where
  bits : BitVec 8
deriving DecidableEq, Repr

namespace Gf256

open Gf256Bits

instance : Zero Gf256 := ⟨⟨0#8⟩⟩
instance : One Gf256 := ⟨⟨1#8⟩⟩
instance : Add Gf256 := ⟨fun a b => ⟨a.bits ^^^ b.bits⟩⟩
instance : Neg Gf256 := ⟨id⟩
instance : Mul Gf256 := ⟨fun a b => ⟨mul a.bits b.bits⟩⟩
instance : Inv Gf256 := ⟨fun a => ⟨inv a.bits⟩⟩

@[simp] theorem bits_zero : (0 : Gf256).bits = 0#8 := rfl
@[simp] theorem bits_one : (1 : Gf256).bits = 1#8 := rfl
@[simp] theorem bits_add (a b : Gf256) : (a + b).bits = a.bits ^^^ b.bits := rfl
@[simp] theorem bits_neg (a : Gf256) : (-a).bits = a.bits := rfl
@[simp] theorem bits_mul (a b : Gf256) : (a * b).bits = mul a.bits b.bits := rfl
@[simp] theorem bits_inv (a : Gf256) : a⁻¹.bits = inv a.bits := rfl

noncomputable def toQuotient (a : Gf256) : Quotient := Gf256Bits.toQuotient a.bits

theorem toQuotient_injective : Function.Injective toQuotient :=
  fun _ _ h => Gf256.ext (Gf256Bits.toQuotient_injective h)

@[simp] theorem toQuotient_zero : toQuotient 0 = 0 := Gf256Bits.toQuotient_zero
@[simp] theorem toQuotient_one : toQuotient 1 = 1 := Gf256Bits.toQuotient_one
@[simp] theorem toQuotient_add (a b : Gf256) : toQuotient (a + b) = toQuotient a + toQuotient b :=
  Gf256Bits.toQuotient_xor _ _
@[simp] theorem toQuotient_mul (a b : Gf256) : toQuotient (a * b) = toQuotient a * toQuotient b :=
  Gf256Bits.toQuotient_mul _ _

instance : CommRing Gf256 where
  nsmul := nsmulRec
  zsmul := zsmulRec
  add_assoc a b c := Gf256.ext (BitVec.xor_assoc _ _ _)
  zero_add a := Gf256.ext (by simp)
  add_zero a := Gf256.ext (by simp)
  add_comm a b := Gf256.ext (BitVec.xor_comm _ _)
  neg_add_cancel a := Gf256.ext (by simp)
  mul_assoc a b c := toQuotient_injective (by simp [mul_assoc])
  one_mul a := toQuotient_injective (by simp)
  mul_one a := toQuotient_injective (by simp)
  zero_mul a := toQuotient_injective (by simp)
  mul_zero a := toQuotient_injective (by simp)
  left_distrib a b c := toQuotient_injective (by simp [mul_add])
  right_distrib a b c := toQuotient_injective (by simp [add_mul])
  mul_comm a b := toQuotient_injective (by simp [mul_comm])

instance : Field Gf256 where
  exists_pair_ne := ⟨0,1,by decide⟩
  mul_inv_cancel a h := Gf256.ext (by
    simpa using mul_inv a.bits (fun hb => h (Gf256.ext hb)))
  inv_zero := Gf256.ext inv_zero
  nnqsmul := _
  nnqsmul_def := fun _ _ => rfl
  qsmul := _
  qsmul_def := fun _ _ => rfl

instance : CharP Gf256 2 :=
  CharTwo.of_one_ne_zero_of_two_eq_zero one_ne_zero (by
    rw [← one_add_one_eq_two]
    exact Gf256.ext (by simp))

theorem mk_xor (a b : BitVec 8) : (⟨a ^^^ b⟩ : Gf256) = ⟨a⟩ + ⟨b⟩ := rfl

theorem mk_xtime (a : BitVec 8) : (⟨xtime a⟩ : Gf256) = ⟨0x02#8⟩ * ⟨a⟩ := by
  refine Gf256.ext ?_
  change xtime a = mul 0x02#8 a
  revert a
  decide +kernel

end Gf256
