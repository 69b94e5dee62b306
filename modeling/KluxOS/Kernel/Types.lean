import Mathlib.Algebra.GroupWithZero.Nat
import Mathlib.Data.Nat.Notation

namespace KluxOS

abbrev Uint8 := BitVec 8

abbrev Uint16 := BitVec 16

abbrev Uint32 := BitVec 32

abbrev Uint64 := BitVec 64

-- one instance for every literal of Fin 32
instance neZero32 : NeZero 32 := ⟨Nat.succ_ne_zero 31⟩

end KluxOS
