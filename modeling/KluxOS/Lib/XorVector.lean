import KluxOS.Lib.CArray

namespace XorVector

open CArray

variable {w n : ℕ}

def xor (a b : Vector (BitVec w) n) : Vector (BitVec w) n :=
  Vector.ofFn fun i => a.get i ^^^ b.get i

def zero : Vector (BitVec w) n := Vector.replicate n 0#w

-- m at cell k, and zero elsewhere
def single (k : Fin n) (m : BitVec w) : Vector (BitVec w) n := zero.set k m k.isLt

section Laws

variable (a b c : Vector (BitVec w) n)

@[simp] theorem xor_get (i : Fin n) : (xor a b).get i = a.get i ^^^ b.get i := get_ofFn _ i

@[simp] theorem zero_get (i : Fin n) : (zero : Vector (BitVec w) n).get i = 0#w :=
  Vector.getElem_replicate i.isLt

theorem single_get (k i : Fin n) (m : BitVec w) :
    (single k m).get i = if i = k then m else 0#w := by
  rw [single,get_set,zero_get]

theorem xor_assoc : xor (xor a b) c = xor a (xor b c) :=
  ext_get fun i => by simp only [xor_get,BitVec.xor_assoc]

theorem xor_comm : xor a b = xor b a :=
  ext_get fun i => by rw [xor_get,xor_get,BitVec.xor_comm]

theorem xor_right_comm : xor (xor a b) c = xor (xor a c) b := by
  rw [xor_assoc,xor_comm b c,← xor_assoc]

theorem xor_eq_self : xor a b = a ↔ b = zero := by
  constructor
  · intro h
    refine ext_get fun i => ?_
    have hi := congrArg (fun v => a.get i ^^^ v.get i) h
    simp only [xor_get,← BitVec.xor_assoc,BitVec.xor_self,BitVec.zero_xor] at hi
    rw [hi,zero_get]
  · rintro rfl
    exact ext_get fun i => by rw [xor_get,zero_get,BitVec.xor_zero]

theorem xor_same : xor a a = zero :=
  ext_get fun i => by rw [xor_get,BitVec.xor_self,zero_get]

theorem xor_eq_zero : xor a b = zero ↔ a = b := by
  constructor
  · intro h
    refine ext_get fun i => BitVec.xor_eq_zero_iff.mp ?_
    rw [← xor_get,h,zero_get]
  · rintro rfl
    exact xor_same a

end Laws

section Single

variable (k : Fin n) (m m' : BitVec w)

theorem xor_single (a : Vector (BitVec w) n) :
    xor a (single k m) = a.set k (a.get k ^^^ m) k.isLt := by
  refine ext_get fun i => ?_
  rw [xor_get,single_get,get_set]
  split
  · next h => rw [h]
  · rw [BitVec.xor_zero]

theorem single_xor : xor (single k m) (single k m') = single k (m ^^^ m') := by
  refine ext_get fun i => ?_
  rw [xor_get,single_get,single_get,single_get]
  split
  · rfl
  · exact BitVec.xor_zero

theorem single_eq_zero : single k m = zero ↔ m = 0#w := by
  constructor
  · intro h
    have hk := congrArg (fun v => v.get k) h
    simpa only [single_get,if_true,zero_get] using hk
  · rintro rfl
    refine ext_get fun i => ?_
    rw [single_get,zero_get,ite_self]

theorem single_eq_single (j : Fin n) (hm : m ≠ 0#w) :
    single k m = single j m' ↔ k = j ∧ m = m' := by
  constructor
  · intro h
    have hk := congrArg (fun v => v.get k) h
    simp only [single_get,if_true] at hk
    split at hk
    · next hkj => exact ⟨hkj,hk⟩
    · exact absurd hk hm
  · rintro ⟨rfl,rfl⟩
    rfl

end Single

end XorVector
