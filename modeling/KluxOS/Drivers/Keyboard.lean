import KluxOS.Kernel.Types
import KluxOS.Lib.CArray

namespace KluxOS

open CArray

inductive KeyboardMode where
  | raw
  | ascii
  | echo
deriving DecidableEq

inductive KeyboardLayout where
  | us
  | tr
deriving DecidableEq

structure KeyState where
  shift_pressed : Bool
  ctrl_pressed : Bool
  alt_pressed : Bool
  capslock_on : Bool
  numlock_on : Bool
  scrolllock_on : Bool
deriving DecidableEq

-- terminal is what terminal_writestring and terminal_putchar were given
structure Keyboard where
  keyboard_buffer : Vector Uint8 256
  buffer_start : ℕ
  buffer_end : ℕ
  buffer_count : ℕ
  key_state : KeyState
  current_mode : KeyboardMode
  current_layout : KeyboardLayout
  terminal : List Uint8

def keymap (chars : List Char) : Vector Uint8 128 :=
  Vector.ofFn fun i => ((chars[i.val]?).map fun c => BitVec.ofNat 8 c.toNat).getD 0#8

def usKeymapLower : Vector Uint8 128 := keymap [
    '\x00', '\x1b', '1', '2', '3', '4', '5', '6', '7', '8', '9', '0', '-', '=', '\x08',
    '\t', 'q', 'w', 'e', 'r', 't', 'y', 'u', 'i', 'o', 'p', '[', ']', '\r',
    '\x00', 'a', 's', 'd', 'f', 'g', 'h', 'j', 'k', 'l', ';', '\'', '\x60',
    '\x00', '\\', 'z', 'x', 'c', 'v', 'b', 'n', 'm', ',', '.', '/', '\x00',
    '*', '\x00', ' ']

def usKeymapUpper : Vector Uint8 128 := keymap [
    '\x00', '\x1b', '!', '@', '#', '$', '%', '^', '&', '*', '(', ')', '_', '+', '\x08',
    '\t', 'Q', 'W', 'E', 'R', 'T', 'Y', 'U', 'I', 'O', 'P', '{', '}', '\r',
    '\x00', 'A', 'S', 'D', 'F', 'G', 'H', 'J', 'K', 'L', ':', '"', '~',
    '\x00', '|', 'Z', 'X', 'C', 'V', 'B', 'N', 'M', '<', '>', '?', '\x00',
    '*', '\x00', ' ']

def trKeymapLower : Vector Uint8 128 := keymap [
    '\x00', '\x1b', '1', '2', '3', '4', '5', '6', '7', '8', '9', '0', '*', '-', '\x08',
    '\t', 'q', 'w', 'e', 'r', 't', 'y', 'u', 'i', 'o', 'p', 'g', 'u', '\r',
    '\x00', 'a', 's', 'd', 'f', 'g', 'h', 'j', 'k', 'l', 's', 'i', '"',
    '\x00', ',', 'z', 'x', 'c', 'v', 'b', 'n', 'm', 'o', 'c', '.', '\x00',
    '*', '\x00', ' ']

def trKeymapUpper : Vector Uint8 128 := keymap [
    '\x00', '\x1b', '!', '\'', '^', '+', '%', '&', '/', '(', ')', '=', '?', '_', '\x08',
    '\t', 'Q', 'W', 'E', 'R', 'T', 'Y', 'U', 'I', 'O', 'P', 'G', 'U', '\r',
    '\x00', 'A', 'S', 'D', 'F', 'G', 'H', 'J', 'K', 'L', 'S', 'I', 'E',
    '\x00', ';', 'Z', 'X', 'C', 'V', 'B', 'N', 'M', 'O', 'C', ':', '\x00',
    '*', '\x00', ' ']

def keymapOf (layout : KeyboardLayout) (use_uppercase : Bool) : Vector Uint8 128 :=
  match layout with
  | .us => if use_uppercase then usKeymapUpper else usKeymapLower
  | .tr => if use_uppercase then trKeymapUpper else trKeymapLower

def bufferPush (c : Uint8) (k : Keyboard) : Option Keyboard :=
  if k.buffer_count < 256 then do
    let buffer ← set? k.keyboard_buffer k.buffer_end c
    some {k with
      keyboard_buffer := buffer
      buffer_end := (k.buffer_end + 1) % 256
      buffer_count := k.buffer_count + 1}
  else
    some k

def bufferPop (k : Keyboard) : Option (Uint8 × Keyboard) :=
  if k.buffer_count = 0 then
    some (0#8,k)
  else do
    let c ← get? k.keyboard_buffer k.buffer_start
    some (c,{k with
      buffer_start := (k.buffer_start + 1) % 256
      buffer_count := k.buffer_count - 1})

def releaseKey (key : Uint8) (s : KeyState) : KeyState :=
  if key = 0x2A#8 ∨ key = 0x36#8 then {s with shift_pressed := false}
  else if key = 0x1D#8 then {s with ctrl_pressed := false}
  else if key = 0x38#8 then {s with alt_pressed := false}
  else s

def pressModifier (key : Uint8) (s : KeyState) : Option KeyState :=
  if key = 0x2A#8 ∨ key = 0x36#8 then some {s with shift_pressed := true}
  else if key = 0x1D#8 then some {s with ctrl_pressed := true}
  else if key = 0x38#8 then some {s with alt_pressed := true}
  else if key = 0x3A#8 then some {s with capslock_on := !s.capslock_on}
  else if key = 0x45#8 then some {s with numlock_on := !s.numlock_on}
  else if key = 0x46#8 then some {s with scrolllock_on := !s.scrolllock_on}
  else none

-- KEYCODE_ENTER to KEYCODE_DOWN with their KEY_ values
def specialKeys : List (Uint8 × Uint8) :=
  [(0x1C#8,13#8),(0x0E#8,8#8),(0x0F#8,9#8),(0x01#8,27#8),(0x47#8,133#8),(0x4F#8,134#8),
    (0x52#8,0#8),(0x53#8,132#8),(0x49#8,135#8),(0x51#8,136#8),(0x4B#8,130#8),(0x4D#8,131#8),
    (0x48#8,128#8),(0x50#8,129#8)]

def keycodeToAscii (keycode : Uint8) (k : Keyboard) : Option (Uint8 × Keyboard) :=
  let key := keycode &&& 0x7F#8
  if keycode &&& 0x80#8 ≠ 0#8 then
    some (0#8,{k with key_state := releaseKey key k.key_state})
  else
    match pressModifier key k.key_state with
    | some s => some (0#8,{k with key_state := s})
    | none =>
      match specialKeys.lookup key with
      | some c => some (c,k)
      | none => do
        let use_uppercase := k.key_state.shift_pressed != k.key_state.capslock_on
        let c ← get? (keymapOf k.current_layout use_uppercase) key.toNat
        some (c,k)

def keyboardHandler (scancode : Uint8) (k : Keyboard) : Option Keyboard :=
  if k.current_mode = .raw then
    bufferPush scancode k
  else do
    let (ascii,k) ← keycodeToAscii scancode k
    if ascii ≠ 0#8 then
      let k ← bufferPush ascii k
      if k.current_mode = .echo then
        some {k with terminal := k.terminal ++ [ascii]}
      else
        some k
    else
      some k

def keyboardSetMode (mode : KeyboardMode) (k : Keyboard) : Keyboard := {k with current_mode := mode}

def keyboardSetLayout (layout : KeyboardLayout) (k : Keyboard) : Keyboard :=
  {k with current_layout := layout}

def keyboardDataAvailable (k : Keyboard) : Bool := k.buffer_count > 0

def keyboardRead (k : Keyboard) : Option (Uint8 × Keyboard) :=
  if k.buffer_count > 0 then bufferPop k else some (0#8,k)

-- none within the result while the ring is empty: the call waits for the next interrupt
def keyboardGetchar (k : Keyboard) : Option (Option Uint8 × Keyboard) :=
  if keyboardDataAvailable k then
    (bufferPop k).map fun r => (some r.1,r.2)
  else
    some (none,k)

end KluxOS
