import KluxOS.Drivers.Keyboard
import KluxOS.Lib.RingBuffer
import KluxOS.Lib.Run

namespace KluxOS

open CArray RingBuffer Run

def keyboardQueue (k : Keyboard) : List Uint8 :=
  contents k.keyboard_buffer k.buffer_start k.buffer_count

structure RingOk (k : Keyboard) : Prop where
  start : k.buffer_start < 256
  count : k.buffer_count ≤ 256
  stop : k.buffer_end = (k.buffer_start + k.buffer_count) % 256

-- the character that keyboard_handler hands to buffer_push
def pushedChar (scancode : Uint8) (k : Keyboard) : Option Uint8 :=
  if k.current_mode = .raw then
    some scancode
  else
    ((keycodeToAscii scancode k).map Prod.fst).filter fun c => c ≠ 0#8

inductive KeyboardCall where
  | handler (scancode : Uint8)
  | setMode (mode : KeyboardMode)
  | setLayout (layout : KeyboardLayout)
  | read
  | getchar

-- accepted: what was pushed below the limit; returned: what was read above zero
structure KeyboardHistory where
  keyboard : Keyboard
  accepted : List Uint8
  returned : List Uint8

def keyboardStep (h : KeyboardHistory) : KeyboardCall → Option KeyboardHistory
  | .handler scancode => do
    let k ← keyboardHandler scancode h.keyboard
    let pushed := (pushedChar scancode h.keyboard).toList
    some {h with
      keyboard := k
      accepted := if h.keyboard.buffer_count < 256 then h.accepted ++ pushed else h.accepted}
  | .setMode mode => some {h with keyboard := keyboardSetMode mode h.keyboard}
  | .setLayout layout => some {h with keyboard := keyboardSetLayout layout h.keyboard}
  | .read => do
    let (c,k) ← keyboardRead h.keyboard
    some {h with
      keyboard := k
      returned := if h.keyboard.buffer_count > 0 then h.returned ++ [c] else h.returned}
  | .getchar => do
    let (c,k) ← keyboardGetchar h.keyboard
    some {h with keyboard := k, returned := h.returned ++ c.toList}

theorem bufferPush_spec (c : Uint8) {k : Keyboard} (hk : RingOk k) :
    ∃ u, bufferPush c k = some u ∧ RingOk u ∧ keyboardQueue u =
      if k.buffer_count < 256 then keyboardQueue k ++ [c] else keyboardQueue k := by
  rw [bufferPush]
  split_ifs with hroom
  · have hset := set?_eq k.keyboard_buffer c (Nat.mod_lt (k.buffer_start + k.buffer_count)
      (show 0 < 256 by omega)) (congrArg Nat.cast hk.stop)
    refine ⟨_,Option.bind_eq_some_iff.mpr ⟨_,hset,rfl⟩,⟨hk.start,hroom,?_⟩,?_⟩
    · change (k.buffer_end + 1) % 256 = (k.buffer_start + (k.buffer_count + 1)) % 256
      rw [hk.stop,Nat.mod_add_mod,Nat.add_assoc]
    · exact contents_push k.keyboard_buffer hroom c
  · exact ⟨k,rfl,hk,rfl⟩

theorem bufferPop_spec {k : Keyboard} (hk : RingOk k) (hcount : k.buffer_count > 0) :
    ∃ c u, bufferPop k = some (c,u) ∧ RingOk u ∧ keyboardQueue k = c :: keyboardQueue u := by
  obtain ⟨m,hm⟩ : ∃ m, k.buffer_count = m + 1 := ⟨k.buffer_count - 1,by omega⟩
  rw [bufferPop,if_neg (by omega)]
  refine ⟨_,_,Option.bind_eq_some_iff.mpr ⟨_,get?_eq _ hk.start rfl,rfl⟩,⟨?_,?_,?_⟩,?_⟩
  · exact Nat.mod_lt _ (by omega)
  · have := hk.count
    change k.buffer_count - 1 ≤ 256
    omega
  · change k.buffer_end = ((k.buffer_start + 1) % 256 + (k.buffer_count - 1)) % 256
    rw [hk.stop,hm,Nat.mod_add_mod,Nat.add_sub_cancel,Nat.add_assoc,Nat.add_comm 1 m]
  · rw [keyboardQueue,hm,contents_pop _ (by omega)]
    have hstart := Nat.mod_eq_of_lt hk.start
    simp only [keyboardQueue,Nat.add_sub_cancel,hstart]

theorem keycodeToAscii_spec (scancode : Uint8) (k : Keyboard) :
    ∃ c s, keycodeToAscii scancode k = some (c,{k with key_state := s}) := by
  rw [keycodeToAscii]
  dsimp only
  split_ifs with hrelease
  · exact ⟨0#8,_,rfl⟩
  cases pressModifier (scancode &&& 0x7F#8) k.key_state with
  | some s => exact ⟨0#8,s,rfl⟩
  | none =>
    cases specialKeys.lookup (scancode &&& 0x7F#8) with
    | some c => exact ⟨c,k.key_state,rfl⟩
    | none =>
      have hkey : (scancode &&& 0x7F#8).toNat < 128 := by
        rw [BitVec.toNat_and]
        exact Nat.lt_of_le_of_lt Nat.and_le_right (by decide)
      exact ⟨_,k.key_state,Option.bind_eq_some_iff.mpr ⟨_,get?_eq _ hkey rfl,rfl⟩⟩

theorem keyboardHandler_spec (scancode : Uint8) {k : Keyboard} (hk : RingOk k) :
    ∃ u, keyboardHandler scancode k = some u ∧ RingOk u ∧ keyboardQueue u =
      if k.buffer_count < 256 then keyboardQueue k ++ (pushedChar scancode k).toList
      else keyboardQueue k := by
  rw [keyboardHandler,pushedChar]
  by_cases hraw : k.current_mode = .raw
  · rw [if_pos hraw,if_pos hraw]
    exact bufferPush_spec scancode hk
  rw [if_neg hraw,if_neg hraw]
  obtain ⟨c,s,hascii⟩ := keycodeToAscii_spec scancode k
  have hring : RingOk {k with key_state := s} := ⟨hk.start,hk.count,hk.stop⟩
  rw [hascii]
  by_cases hc : c = 0#8
  · subst hc
    exact ⟨_,rfl,hring,by simp [keyboardQueue]⟩
  obtain ⟨u,hu,hok,hqueue⟩ := bufferPush_spec c hring
  have hpushed : ((some (c,{k with key_state := s})).map Prod.fst).filter (fun c => c ≠ 0#8) =
      some c := by simp [hc]
  rw [hpushed]
  change ∃ v, (if c ≠ 0#8 then (bufferPush c {k with key_state := s}).bind (fun k =>
    if k.current_mode = .echo then some {k with terminal := k.terminal ++ [c]} else some k)
    else some {k with key_state := s}) = some v ∧ _
  rw [if_pos hc,hu,Option.bind_some]
  by_cases hecho : u.current_mode = .echo
  · rw [if_pos hecho]
    exact ⟨_,rfl,⟨hok.start,hok.count,hok.stop⟩,hqueue⟩
  · rw [if_neg hecho]
    exact ⟨u,rfl,hok,hqueue⟩

theorem keyboardRead_spec {k : Keyboard} (hk : RingOk k) (hcount : k.buffer_count > 0) :
    ∃ c u, keyboardRead k = some (c,u) ∧ keyboardGetchar k = some (some c,u) ∧ RingOk u ∧
      keyboardQueue k = c :: keyboardQueue u := by
  obtain ⟨c,u,hu,hok,hqueue⟩ := bufferPop_spec hk hcount
  refine ⟨c,u,?_,?_,hok,hqueue⟩
  · rw [keyboardRead,if_pos hcount,hu]
  · rw [keyboardGetchar,keyboardDataAvailable,if_pos (by simpa using hcount),hu]
    rfl

theorem keyboardRead_empty {k : Keyboard} (hcount : k.buffer_count = 0) :
    keyboardRead k = some (0#8,k) ∧ keyboardGetchar k = some (none,k) := by
  rw [keyboardRead,keyboardGetchar,keyboardDataAvailable,if_neg (by omega),
    if_neg (by simp [hcount])]
  exact ⟨rfl,rfl⟩

structure Fifo (h : KeyboardHistory) : Prop where
  ring : RingOk h.keyboard
  queue : h.accepted = h.returned ++ keyboardQueue h.keyboard

theorem keyboardStep_fifo {h : KeyboardHistory} (c : KeyboardCall) (hf : Fifo h) :
    ∃ g, keyboardStep h c = some g ∧ Fifo g := by
  have hok := hf.ring
  have htake : ∀ {c q}, keyboardQueue h.keyboard = c :: q →
      h.accepted = h.returned ++ [c] ++ q := fun hq => by
    rw [hf.queue,hq,List.append_assoc]
    rfl
  cases c with
  | handler scancode =>
    obtain ⟨u,hu,hring,hqueue⟩ := keyboardHandler_spec scancode hok
    refine ⟨_,Option.bind_eq_some_iff.mpr ⟨u,hu,rfl⟩,hring,?_⟩
    change (if h.keyboard.buffer_count < 256 then _ else _) = h.returned ++ keyboardQueue u
    rw [hqueue,hf.queue]
    split_ifs
    · exact List.append_assoc _ _ _
    · rfl
  | setMode mode => exact ⟨_,rfl,⟨hok.start,hok.count,hok.stop⟩,hf.queue⟩
  | setLayout layout => exact ⟨_,rfl,⟨hok.start,hok.count,hok.stop⟩,hf.queue⟩
  | read =>
    rcases Nat.eq_zero_or_pos h.keyboard.buffer_count with hzero | hpos
    · refine ⟨_,Option.bind_eq_some_iff.mpr ⟨_,(keyboardRead_empty hzero).1,rfl⟩,hok,?_⟩
      dsimp only
      rw [if_neg (by omega)]
      exact hf.queue
    · obtain ⟨c,u,hread,-,hring,hqueue⟩ := keyboardRead_spec hok hpos
      refine ⟨_,Option.bind_eq_some_iff.mpr ⟨_,hread,rfl⟩,hring,?_⟩
      dsimp only
      rw [if_pos hpos]
      exact htake hqueue
  | getchar =>
    rcases Nat.eq_zero_or_pos h.keyboard.buffer_count with hzero | hpos
    · refine ⟨_,Option.bind_eq_some_iff.mpr ⟨_,(keyboardRead_empty hzero).2,rfl⟩,hok,?_⟩
      dsimp only
      rw [Option.toList_none,List.append_nil]
      exact hf.queue
    · obtain ⟨c,u,-,hget,hring,hqueue⟩ := keyboardRead_spec hok hpos
      exact ⟨_,Option.bind_eq_some_iff.mpr ⟨_,hget,rfl⟩,hring,htake hqueue⟩

end KluxOS
