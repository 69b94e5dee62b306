import KluxOS.Lib.ByteMemory
import KluxOS.Lib.ByteOrder

namespace MemoryWords

open ByteMemory ByteOrder

-- a word of 32 bits lies in four bytes, the lowest byte first
def loadWord (m : Memory (BitVec 8)) (base : ℕ) : BitVec 32 :=
  (m (base + 3) ++ m (base + 2)) ++ (m (base + 1) ++ m base)

def wordBytes (w : BitVec 32) : Vector (BitVec 8) 4 :=
  let low := w.setWidth 16
  let high := (w >>> 16).setWidth 16
  #v[low.setWidth 8,(low >>> 8).setWidth 8,high.setWidth 8,(high >>> 8).setWidth 8]

def storeWord (m : Memory (BitVec 8)) (base : ℕ) (w : BitVec 32) : Memory (BitVec 8) :=
  store m base (wordBytes w)

variable {m m' : Memory (BitVec 8)} {a base i n x : ℕ} {w : BitVec 32}

theorem storeWord_inside (m : Memory (BitVec 8)) (base : ℕ) (w : BitVec 32) (i : Fin 4) :
    storeWord m base w (base + i) = (wordBytes w).get i := by
  have hload := congrArg (fun v => v.get i) (load_store_same m base (wordBytes w))
  rwa [load_get] at hload

theorem storeWord_outside (h : ¬ Inside base 4 x) : storeWord m base w x = m x :=
  store_outside m _ h

theorem loadWord_congr (h : ∀ x, Inside base 4 x → m x = m' x) :
    loadWord m base = loadWord m' base := by
  have h0 : m base = m' base := h base (inside_add (i := 0) (by decide))
  rw [loadWord,loadWord,h0,h (base + 1) (inside_add (by decide)),
    h (base + 2) (inside_add (by decide)),h (base + 3) (inside_add (by decide))]

theorem loadWord_storeWord (m : Memory (BitVec 8)) (base : ℕ) (w : BitVec 32) :
    loadWord (storeWord m base w) base = w := by
  have h0 : storeWord m base w base = _ := storeWord_inside m base w 0
  have h1 : storeWord m base w (base + 1) = _ := storeWord_inside m base w 1
  have h2 : storeWord m base w (base + 2) = _ := storeWord_inside m base w 2
  have h3 : storeWord m base w (base + 3) = _ := storeWord_inside m base w 3
  rw [loadWord,h0,h1,h2,h3]
  calc ((w >>> 16).setWidth 16 >>> 8).setWidth 8 ++ ((w >>> 16).setWidth 16).setWidth 8 ++
        ((w.setWidth 16 >>> 8).setWidth 8 ++ (w.setWidth 16).setWidth 8)
      = (w >>> 16).setWidth 16 ++ w.setWidth 16 := by
        rw [append_halves (m := 8) (n := 8),append_halves (m := 8) (n := 8)]
    _ = w := append_halves (m := 16) (n := 16) w

-- a word at i in a block of n bytes
theorem loadWord_block (hi : i + 4 ≤ n) (h : ∀ x, Inside base n x → m x = m' x) :
    loadWord m (base + i) = loadWord m' (base + i) :=
  loadWord_congr fun x hx => h x (hx.part hi)

theorem storeWord_block (hi : i + 4 ≤ n) (h : ¬ Inside base n x) :
    storeWord m (base + i) w x = m x :=
  storeWord_outside fun hx => h (hx.part hi)

theorem loadWord_storeWord_apart (h : Apart a 4 base 4) (m : Memory (BitVec 8)) (w : BitVec 32) :
    loadWord (storeWord m base w) a = loadWord m a :=
  loadWord_congr fun _ hx => storeWord_outside (h.not_inside hx)

end MemoryWords
