import KluxOS.Security.AesTables

namespace KluxOS.Aes

open CArray

abbrev Block := Vector Uint8 16

abbrev ExpandedKey := Vector Uint8 240

structure AesContext where
  expanded_key : ExpandedKey
  rounds : ℤ
deriving DecidableEq

def xtime (x : Uint8) : Uint8 := (x <<< 1) ^^^ (((x >>> 7) &&& 1#8) * 0x1b#8)

def subBytes (state : Block) : Block := forEach (fun _ b => sbox b) state

def invSubBytes (state : Block) : Block := forEach (fun _ b => rsbox b) state

def shiftRows (state : Block) : Block :=
  let temp := state[1]
  let state := state.set 1 state[5]
  let state := state.set 5 state[9]
  let state := state.set 9 state[13]
  let state := state.set 13 temp
  let temp := state[2]
  let state := state.set 2 state[10]
  let state := state.set 10 temp
  let temp := state[6]
  let state := state.set 6 state[14]
  let state := state.set 14 temp
  let temp := state[15]
  let state := state.set 15 state[11]
  let state := state.set 11 state[7]
  let state := state.set 7 state[3]
  state.set 3 temp

def invShiftRows (state : Block) : Block :=
  let temp := state[13]
  let state := state.set 13 state[9]
  let state := state.set 9 state[5]
  let state := state.set 5 state[1]
  let state := state.set 1 temp
  let temp := state[2]
  let state := state.set 2 state[10]
  let state := state.set 10 temp
  let temp := state[6]
  let state := state.set 6 state[14]
  let state := state.set 14 temp
  let temp := state[3]
  let state := state.set 3 state[7]
  let state := state.set 7 state[11]
  let state := state.set 11 state[15]
  state.set 15 temp

def cell (i k : Fin 4) : Fin 16 := ⟨i * 4 + k,by omega⟩

def column (state : Block) (i : Fin 4) : Vector Uint8 4 :=
  #v[state.get (cell i 0),state.get (cell i 1),state.get (cell i 2),state.get (cell i 3)]

def setColumn (state : Block) (i : Fin 4) (temp : Vector Uint8 4) : Block :=
  let state := state.set (cell i 0) temp[0] (cell i 0).isLt
  let state := state.set (cell i 1) temp[1] (cell i 1).isLt
  let state := state.set (cell i 2) temp[2] (cell i 2).isLt
  state.set (cell i 3) temp[3] (cell i 3).isLt

def eachColumn (f : Vector Uint8 4 → Vector Uint8 4) (state : Block) : Block :=
  (List.finRange 4).foldl (fun state i => setColumn state i (f (column state i))) state

def mixColumn (s : Vector Uint8 4) : Vector Uint8 4 :=
  let a := s[0]
  let b := s[1]
  let c := s[2]
  let d := s[3]
  #v[xtime a ^^^ xtime b ^^^ b ^^^ c ^^^ d,
     a ^^^ xtime b ^^^ xtime c ^^^ c ^^^ d,
     a ^^^ b ^^^ xtime c ^^^ xtime d ^^^ d,
     xtime a ^^^ a ^^^ b ^^^ c ^^^ xtime d]

def mixColumns (state : Block) : Block := eachColumn mixColumn state

def invMixColumn (s : Vector Uint8 4) : Vector Uint8 4 :=
  let a := s[0]
  let b := s[1]
  let c := s[2]
  let d := s[3]
  let e := xtime a
  let f := xtime b
  let g := xtime c
  let h := xtime d
  let ea := xtime e
  let fb := xtime f
  let gc := xtime g
  let hd := xtime h
  let eea := xtime ea
  let ffb := xtime fb
  let ggc := xtime gc
  let hhd := xtime hd
  #v[eea ^^^ eea ^^^ a ^^^ ffb ^^^ b ^^^ gc ^^^ c ^^^ hd ^^^ d,
     ea ^^^ a ^^^ ffb ^^^ ffb ^^^ b ^^^ ggc ^^^ c ^^^ hd ^^^ d,
     ea ^^^ a ^^^ fb ^^^ b ^^^ ggc ^^^ ggc ^^^ c ^^^ hhd ^^^ d,
     eea ^^^ a ^^^ fb ^^^ b ^^^ gc ^^^ c ^^^ hhd ^^^ hhd ^^^ d]

def invMixColumns (state : Block) : Block := eachColumn invMixColumn state

-- round_key is expanded_key + off; a read outside the 240 bytes gives none
def addRoundKey (state : Block) (expanded_key : ExpandedKey) (off : ℤ) : Option Block := do
  let round_key ← load fun i : Fin 16 => get? expanded_key (off + i)
  return forEach (fun i b => b ^^^ round_key.get i) state

def scheduleCore (temp : Vector Uint8 4) (key_size i : ℕ) : Option (Vector Uint8 4) :=
  if i % key_size = 0 then do
    let t := temp[0]
    let temp := #v[temp[1],temp[2],temp[3],t]
    let temp := forEach (fun _ b => sbox b) temp
    let r ← get? rcon ((i / key_size : ℕ) - 1 : ℤ)
    return temp.set 0 (temp[0] ^^^ r)
  else if key_size > 24 ∧ i % key_size = 16 then
    return forEach (fun _ b => sbox b) temp
  else
    return temp

def expandKeyStep (key_size i : ℕ) (expanded_key : ExpandedKey) : Option ExpandedKey := do
  let temp ← load fun j : Fin 4 => get? expanded_key ((i : ℤ) - 4 + j)
  let temp ← scheduleCore temp key_size i
  storeLoop (fun expanded_key j => do
    let b ← get? expanded_key ((i : ℤ) - key_size + j)
    let t ← get? temp j
    return b ^^^ t) i 4 expanded_key

def expandKeyLoop (key_size round_count : ℕ) : ℕ → ℕ → ExpandedKey → Option ExpandedKey
  | 0, _, _ => none
  | fuel + 1, i, expanded_key =>
    if i < 16 * (round_count + 1) then do
      let expanded_key ← expandKeyStep key_size i expanded_key
      expandKeyLoop key_size round_count fuel (i + 4) expanded_key
    else
      some expanded_key

def copyKey (key : List Uint8) (expanded_key : ExpandedKey) (key_size : ℕ) :
    Option ExpandedKey :=
  storeLoop (fun _ i => key[i]?) 0 key_size expanded_key

def expandKey (key : List Uint8) (expanded_key : ExpandedKey) (key_size round_count : ℕ) :
    Option ExpandedKey := do
  let expanded_key ← copyKey key expanded_key key_size
  expandKeyLoop key_size round_count (16 * (round_count + 1)) key_size expanded_key

def aesRounds (key_size : ℕ) : Option ℕ :=
  if key_size = 16 then some 10
  else if key_size = 24 then some 12
  else if key_size = 32 then some 14
  else none

def aesInit (ctx : Option AesContext) (key : Option (List Uint8)) (key_size : ℕ) :
    Option (ℤ × Option AesContext) :=
  match ctx, key with
  | some ctx, some key =>
    match aesRounds key_size with
    | some rounds => do
      let expanded_key ← expandKey key ctx.expanded_key key_size rounds
      return (0,some ⟨expanded_key,rounds⟩)
    | none => some (-2,some ctx)
  | _, _ => some (-1,ctx)

def aesEncryptBlock (ctx : AesContext) (input : Block) : Option Block := do
  let state ← addRoundKey input ctx.expanded_key 0
  let state ← (List.range' 1 (ctx.rounds.toNat - 1)).foldlM (fun state (round : ℕ) =>
    addRoundKey (mixColumns (shiftRows (subBytes state))) ctx.expanded_key (round * 16)) state
  addRoundKey (shiftRows (subBytes state)) ctx.expanded_key (ctx.rounds * 16)

def aesDecryptBlock (ctx : AesContext) (input : Block) : Option Block := do
  let state ← addRoundKey input ctx.expanded_key (ctx.rounds * 16)
  let state ← (List.range' 1 (ctx.rounds.toNat - 1)).reverse.foldlM (fun state (round : ℕ) => do
    let state ← addRoundKey (invSubBytes (invShiftRows state)) ctx.expanded_key (round * 16)
    return invMixColumns state) state
  addRoundKey (invSubBytes (invShiftRows state)) ctx.expanded_key 0

end KluxOS.Aes
