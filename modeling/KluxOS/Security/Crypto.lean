import KluxOS.Kernel.Allocators
import KluxOS.Lib.BufferMap
import KluxOS.Lib.MemoryWords
import KluxOS.Lib.SwapRemove
import KluxOS.Syscall.Syscall

namespace KluxOS.Crypto

open BufferMap ByteMemory CArray KernelState MemoryWords SwapRemove Syscall

def maxCryptoKeys : ℕ := 16

def cryptoNone : Uint32 := 0#32

def cryptoXor : Uint32 := 1#32

def cryptoCaesar : Uint32 := 2#32

def cryptoAes : Uint32 := 3#32

def cryptoRsa : Uint32 := 4#32

def cryptoSha : Uint32 := 5#32

structure CryptoKey where
  id : Uint32
  type : Uint32
  length : Uint32
  key_data : Uint32
deriving DecidableEq

structure CryptoContext where
  algorithm : Uint32
  key : Uint32
  context_data : Uint32
deriving DecidableEq

-- keys, their bytes and contexts lie in the memory of the kernel
structure CryptoState where
  kernel : KernelState
  key_store : Vector Uint32 maxCryptoKeys
  key_count : Uint32
  next_key_id : Uint32

namespace CryptoState

def boot (kernel : KernelState) : CryptoState := ⟨kernel,Vector.replicate _ 0#32,0#32,1#32⟩

def print (s : CryptoState) (text : CString) : CryptoState :=
  { s with kernel := s.kernel.print text }

def setMemory (s : CryptoState) (memory : Memory Uint8) : CryptoState :=
  { s with kernel := { s.kernel with memory } }

def setWord (s : CryptoState) (address : ℕ) (word : Uint32) : CryptoState :=
  s.setMemory (storeWord s.kernel.memory address word)

end CryptoState

section Records

variable (memory : Memory Uint8)

-- sizeof(crypto_key_t) and sizeof(crypto_context_t)
def keySize : Uint32 := 16#32

def contextSize : Uint32 := 12#32

def loadKey (key : Uint32) : CryptoKey where
  id := loadWord memory key.toNat
  type := loadWord memory (key.toNat + 4)
  length := loadWord memory (key.toNat + 8)
  key_data := loadWord memory (key.toNat + 12)

def loadContext (ctx : Uint32) : CryptoContext where
  algorithm := loadWord memory ctx.toNat
  key := loadWord memory (ctx.toNat + 4)
  context_data := loadWord memory (ctx.toNat + 8)

end Records

section Keys

variable (alloc : Allocator) (s : CryptoState)

def cryptoInit : CryptoState :=
  let s := s.print "crypto init started\n".toList
  let s := { s with key_store := Vector.replicate _ 0#32, key_count := 0#32 }
  s.print "crypto init completed\n".toList

def clampLength (algorithm key_length : Uint32) : Uint32 :=
  let key_length :=
    if algorithm = cryptoXor then
      let key_length := if key_length < 4#32 then 4#32 else key_length
      if key_length > 32#32 then 32#32 else key_length
    else key_length
  if algorithm = cryptoCaesar then 1#32 else key_length

def keyByte (id : Uint32) (i : ℕ) : Uint8 :=
  ((BitVec.ofNat 32 i * 29#32 + id * 13#32) % 256#32).setWidth 8

-- every round reads key->key_data and key->id
def fillKey (key key_length : Uint32) : CryptoState :=
  (List.range key_length.toNat).foldl (fun s i =>
    let k := loadKey s.kernel.memory key
    s.setMemory (Function.update s.kernel.memory (k.key_data.toNat + i) (keyByte k.id i))) s

def register (key : Uint32) : CryptoState :=
  if h : s.key_count.toNat < maxCryptoKeys then
    { s with key_store := s.key_store.set s.key_count.toNat key
             key_count := s.key_count + 1#32 }
  else s

def cryptoGenerateKey (algorithm key_length : Uint32) : CryptoState × Uint32 :=
  if algorithm = cryptoNone ∨ (algorithm ≥ cryptoAes ∧ algorithm ≠ cryptoSha) then (s,0#32)
  else
    let key_length := clampLength algorithm key_length
    match allocate alloc s.kernel keySize with
    | (kernel,key) =>
      if key = 0#32 then ({ s with kernel },0#32)
      else
        match allocate alloc kernel key_length with
        | (kernel,key_data) =>
          let s := { s with kernel }.setWord (key.toNat + 12) key_data
          if key_data = 0#32 then ({ s with kernel := kfree s.kernel key },0#32)
          else
            let s := s.setWord key.toNat s.next_key_id
            let s := { s with next_key_id := s.next_key_id + 1#32 }
            let s := s.setWord (key.toNat + 4) algorithm
            let s := s.setWord (key.toNat + 8) key_length
            (register (fillKey s key key_length) key,key)

-- both branches of crypto_destroy_key: kfree does nothing for NULL
def free (key : Uint32) : CryptoState :=
  { s with kernel := kfree (kfree s.kernel (loadKey s.kernel.memory key).key_data) key }

-- the loop over key_store[0..key_count)
def storeIndex (key : Uint32) : Option (Option ℕ) :=
  findUsed s.key_store s.key_count.toNat key

def cryptoDestroyKey (key : Uint32) : Option CryptoState :=
  if key = 0#32 then some s
  else do
    match ← storeIndex s key with
    | none => some (free s key)
    | some i =>
      let s := free s key
      let key_count := s.key_count - 1#32
      let last ← get? s.key_store key_count.toNat
      let key_store ← set? s.key_store i last
      let key_store ← set? key_store key_count.toNat 0#32
      some { s with key_store, key_count }

def cryptoCreateContext (algorithm key : Uint32) : CryptoState × Uint32 :=
  if key = 0#32 ∨ (loadKey s.kernel.memory key).type ≠ algorithm then (s,0#32)
  else
    match allocate alloc s.kernel contextSize with
    | (kernel,ctx) =>
      if ctx = 0#32 then ({ s with kernel },0#32)
      else
        let s := { s with kernel }.setWord ctx.toNat algorithm
        let s := s.setWord (ctx.toNat + 4) key
        let s := s.setWord (ctx.toNat + 8) 0#32
        (s,ctx)

end Keys

section Ciphers

-- key[j]; a read at or beyond the length of the key gives none
def readKey (memory : Memory Uint8) (key key_length : Uint32) (j : ℕ) : Option Uint8 :=
  if j < key_length.toNat then some (memory (key.toNat + j)) else none

-- a division by zero gives none
def cryptoXorProcess (input output : ℕ) (length key key_length : Uint32) (memory : Memory Uint8) :
    Option (Memory Uint8) :=
  mapLoop (fun memory i b =>
    if key_length = 0#32 then none
    else (readKey memory key key_length (i % key_length.toNat)).map fun k => b ^^^ k)
    input output length.toNat memory

-- shift is the key's first byte, read before the loop
def caesar (op : Uint8 → Uint8 → Uint8) (input output : ℕ) (length key key_length : Uint32)
    (memory : Memory Uint8) : Option (Memory Uint8) := do
  let shift ← readKey memory key key_length 0
  mapLoop (fun _ _ b => some (op b shift)) input output length.toNat memory

def cryptoCaesarEncrypt := caesar fun b shift => b + shift

def cryptoCaesarDecrypt := caesar fun b shift => b - shift

-- crypto_encrypt and crypto_decrypt, which differ in the Caesar function they call
def cryptoProcess
    (caesar : ℕ → ℕ → Uint32 → Uint32 → Uint32 → Memory Uint8 → Option (Memory Uint8))
    (s : CryptoState) (ctx : Uint32) (input output : ℕ) (length : Uint32) :
    Option (CryptoState × ℤ) :=
  let c := loadContext s.kernel.memory ctx
  if ctx = 0#32 ∨ c.key = 0#32 ∨ input = 0 ∨ output = 0 then some (s,-1)
  else
    let key := loadKey s.kernel.memory c.key
    if c.algorithm = cryptoXor then do
      let memory ← cryptoXorProcess input output length key.key_data key.length s.kernel.memory
      some (s.setMemory memory,0)
    else if c.algorithm = cryptoCaesar then do
      let memory ← caesar input output length key.key_data key.length s.kernel.memory
      some (s.setMemory memory,0)
    else if c.algorithm = cryptoAes ∨ c.algorithm = cryptoRsa then
      some (s.print "ERROR: AES and RSA not supported yet.\n".toList,-2)
    else some (s,-3)

def cryptoEncrypt := cryptoProcess cryptoCaesarEncrypt

def cryptoDecrypt := cryptoProcess cryptoCaesarDecrypt

end Ciphers

section Memory

variable {m m' : Memory Uint8} {key ctx : Uint32} {k : CryptoKey} {c : CryptoContext}

theorem loadKey_congr (h : ∀ x, Inside key.toNat keySize.toNat x → m x = m' x) :
    loadKey m key = loadKey m' key := by
  have hid : loadWord m key.toNat = loadWord m' key.toNat := loadWord_block (i := 0) (by decide) h
  rw [loadKey,loadKey,hid,loadWord_block (i := 4) (by decide) h,
    loadWord_block (i := 8) (by decide) h,loadWord_block (i := 12) (by decide) h]

theorem loadContext_congr (h : ∀ x, Inside ctx.toNat contextSize.toNat x → m x = m' x) :
    loadContext m ctx = loadContext m' ctx := by
  have halgorithm : loadWord m ctx.toNat = loadWord m' ctx.toNat :=
    loadWord_block (i := 0) (by decide) h
  rw [loadContext,loadContext,halgorithm,loadWord_block (i := 4) (by decide) h,
    loadWord_block (i := 8) (by decide) h]

-- the order in which crypto_generate_key stores the fields
def storeKey (m : Memory Uint8) (key : Uint32) (k : CryptoKey) : Memory Uint8 :=
  let m := storeWord m (key.toNat + 12) k.key_data
  let m := storeWord m key.toNat k.id
  let m := storeWord m (key.toNat + 4) k.type
  storeWord m (key.toNat + 8) k.length

def storeContext (m : Memory Uint8) (ctx : Uint32) (c : CryptoContext) : Memory Uint8 :=
  let m := storeWord m ctx.toNat c.algorithm
  let m := storeWord m (ctx.toNat + 4) c.key
  storeWord m (ctx.toNat + 8) c.context_data

theorem loadKey_storeKey (m : Memory Uint8) (key : Uint32) (k : CryptoKey) :
    loadKey (storeKey m key k) key = k := by
  simp (disch := (unfold Apart; omega)) only [loadKey,storeKey,loadWord_storeWord,
    loadWord_storeWord_apart]

theorem loadContext_storeContext (m : Memory Uint8) (ctx : Uint32) (c : CryptoContext) :
    loadContext (storeContext m ctx c) ctx = c := by
  simp (disch := (unfold Apart; omega)) only [loadContext,storeContext,loadWord_storeWord,
    loadWord_storeWord_apart]

theorem storeKey_outside {x : ℕ} (h : ¬ Inside key.toNat keySize.toNat x) :
    storeKey m key k x = m x := by
  have hid (m : Memory Uint8) : storeWord m key.toNat k.id x = m x :=
    storeWord_block (i := 0) (by decide) h
  simp only [storeKey]
  rw [storeWord_block (i := 8) (by decide) h,storeWord_block (i := 4) (by decide) h,hid,
    storeWord_block (i := 12) (by decide) h]

theorem storeContext_outside {x : ℕ} (h : ¬ Inside ctx.toNat contextSize.toNat x) :
    storeContext m ctx c x = m x := by
  have halgorithm (m : Memory Uint8) : storeWord m ctx.toNat c.algorithm x = m x :=
    storeWord_block (i := 0) (by decide) h
  simp only [storeContext]
  rw [storeWord_block (i := 8) (by decide) h,storeWord_block (i := 4) (by decide) h,halgorithm]

-- with its bytes apart from the record, the loop finds the same id and key_data in every round
theorem fillKey_eq {s : CryptoState} {key_length : Uint32} (hk : loadKey s.kernel.memory key = k)
    (h : Apart key.toNat keySize.toNat k.key_data.toNat key_length.toNat) :
    fillKey s key key_length = s.setMemory (ByteMemory.storeLoop (fun _ i => keyByte k.id i)
      k.key_data.toNat key_length.toNat s.kernel.memory) := by
  rw [fillKey]
  generalize key_length.toNat = n at h ⊢
  induction n with
  | zero => rw [ByteMemory.storeLoop,List.range_zero,List.foldl_nil,List.foldl_nil]; rfl
  | succ n ih =>
    have hn : Apart key.toNat keySize.toNat k.key_data.toNat n := by
      unfold Apart at *
      omega
    have hsame : loadKey (ByteMemory.storeLoop (fun _ i => keyByte k.id i) k.key_data.toNat n
        s.kernel.memory) key = k :=
      (loadKey_congr fun x hx => storeLoop_outside _ _ (hn.not_inside hx)).trans hk
    rw [List.range_succ,List.foldl_append,ih hn,List.foldl_cons,List.foldl_nil]
    simp only [CryptoState.setMemory,hsame]
    rw [ByteMemory.storeLoop,ByteMemory.storeLoop,List.range_succ,List.foldl_append,List.foldl_cons,
      List.foldl_nil]

end Memory

end KluxOS.Crypto
