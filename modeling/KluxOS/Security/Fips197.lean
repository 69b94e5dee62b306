import KluxOS.Lib.CyclicColumn
import KluxOS.Lib.Gf256

namespace KluxOS.Fips197

local instance neZero4 : NeZero 4 := ⟨by decide⟩

abbrev State := Fin 4 → Fin 4 → Gf256

abbrev Word := Fin 4 → Gf256

def affine (b : BitVec 8) : BitVec 8 :=
  b ^^^ b.rotateLeft 1 ^^^ b.rotateLeft 2 ^^^ b.rotateLeft 3 ^^^ b.rotateLeft 4 ^^^ 0x63#8

def subByte (x : Gf256) : Gf256 := ⟨affine x⁻¹.bits⟩

def subBytes (s : State) : State := fun r c => subByte (s r c)

def shiftRows (s : State) : State := fun r c => s r (c + r)

-- {03}x^3 + {01}x^2 + {01}x + {02}, lowest coefficient first
def mixPolynomial : Word := ![⟨0x02#8⟩,⟨0x01#8⟩,⟨0x01#8⟩,⟨0x03#8⟩]

def mixColumnsWith (p : Word) (s : State) : State :=
  fun r c => CyclicColumn.conv p (fun k => s k c) r

def addRoundKey (s : State) (w : ℕ → Word) (round : ℕ) : State :=
  fun r c => s r c + w (4 * round + c) r

def rotWord (w : Word) : Word := fun r => w (r + 1)

def subWord (w : Word) : Word := fun r => subByte (w r)

def rcon (i : ℕ) : Word := ![⟨0x02#8⟩ ^ (i - 1),0,0,0]

def keyExpansion (nk : ℕ) (key : ℕ → Word) : ℕ → Word
  | i =>
    if i < nk ∨ nk = 0 then key i
    else
      let temp := keyExpansion nk key (i - 1)
      keyExpansion nk key (i - nk) +
        (if i % nk = 0 then subWord (rotWord temp) + rcon (i / nk)
         else if nk > 6 ∧ i % nk = 4 then subWord temp
         else temp)
termination_by i => i
decreasing_by all_goals omega

def round (p : Word) (w : ℕ → Word) (s : State) (i : ℕ) : State :=
  addRoundKey (mixColumnsWith p (shiftRows (subBytes s))) w i

def cipherWith (p : Word) (nr : ℕ) (w : ℕ → Word) (input : State) : State :=
  addRoundKey
    (shiftRows (subBytes ((List.range' 1 (nr - 1)).foldl (round p w) (addRoundKey input w 0))))
    w nr

def cipher (nr : ℕ) (w : ℕ → Word) (input : State) : State := cipherWith mixPolynomial nr w input

theorem keyExpansion_lt (nk : ℕ) (key : ℕ → Word) {i : ℕ} (h : i < nk) :
    keyExpansion nk key i = key i := by
  rw [keyExpansion,if_pos (Or.inl h)]

theorem keyExpansion_ge {nk : ℕ} (key : ℕ → Word) {i : ℕ} (h0 : 0 < nk) (h : nk ≤ i) :
    keyExpansion nk key i = keyExpansion nk key (i - nk) +
      (if i % nk = 0 then subWord (rotWord (keyExpansion nk key (i - 1))) + rcon (i / nk)
       else if nk > 6 ∧ i % nk = 4 then subWord (keyExpansion nk key (i - 1))
       else keyExpansion nk key (i - 1)) := by
  rw [keyExpansion,if_neg (by omega)]

end KluxOS.Fips197
