import KluxOS.Kernel.Types
import KluxOS.Lib.RowMajor
import KluxOS.Lib.Run

namespace KluxOS

open CArray RowMajor Run

inductive VgaColor where
  | black
  | blue
  | green
  | cyan
  | red
  | magenta
  | brown
  | lightGrey
  | darkGrey
  | lightBlue
  | lightGreen
  | lightCyan
  | lightRed
  | lightMagenta
  | lightBrown
  | white
deriving DecidableEq

structure Terminal where
  vga_memory : Vector Uint16 2000
  terminal_color : Uint8
  terminal_row : ℕ
  terminal_column : ℕ
  cursor_visible : Bool
  crtc_index : Uint8
  crtc : Uint8 → Uint8

def vgaEntryColor (fg bg : VgaColor) : Uint8 :=
  BitVec.ofNat 8 fg.ctorIdx ||| BitVec.ofNat 8 bg.ctorIdx <<< 4

def vgaEntry (uc color : Uint8) : Uint16 := uc.setWidth 16 ||| color.setWidth 16 <<< 8

def outb (port : Uint16) (value : Uint8) (t : Terminal) : Terminal :=
  if port = 0x3D4#16 then
    {t with crtc_index := value}
  else if port = 0x3D5#16 then
    {t with crtc := Function.update t.crtc t.crtc_index value}
  else
    t

def terminalMoveCursor (x y : ℕ) (t : Terminal) : Terminal :=
  if x ≥ 80 ∨ y ≥ 25 then
    t
  else
    let t := {t with terminal_column := x, terminal_row := y}
    let pos : Uint16 := BitVec.ofNat 16 (y * 80 + x)
    let low := (pos &&& 0xFF#16).setWidth 8
    let high := (pos >>> 8 &&& 0xFF#16).setWidth 8
    let t := outb 0x3D5#16 high (outb 0x3D4#16 14#8 t)
    outb 0x3D5#16 low (outb 0x3D4#16 15#8 t)

def terminalSetCursorVisible (visible : Bool) (t : Terminal) : Terminal :=
  let t := {t with cursor_visible := visible}
  if visible then
    let t := outb 0x3D5#16 14#8 (outb 0x3D4#16 10#8 t)
    outb 0x3D5#16 15#8 (outb 0x3D4#16 11#8 t)
  else
    let t := outb 0x3D5#16 0x1F#8 (outb 0x3D4#16 10#8 t)
    outb 0x3D5#16 0x1F#8 (outb 0x3D4#16 11#8 t)

def fillScreen (color : Uint8) (vga : Vector Uint16 2000) : Option (Vector Uint16 2000) :=
  (List.range 25).foldlM (fun vga y =>
    storeLoop (fun _ _ => some (vgaEntry 32#8 color)) (y * 80 : ℕ) 80 vga) vga

def terminalInitialize (t : Terminal) : Option Terminal := do
  let color := vgaEntryColor .lightGrey .black
  let vga ← fillScreen color t.vga_memory
  let t :=
    {t with vga_memory := vga, terminal_color := color, terminal_row := 0, terminal_column := 0}
  some (terminalMoveCursor 0 0 (terminalSetCursorVisible true t))

def terminalSetcolor (color : Uint8) (t : Terminal) : Terminal := {t with terminal_color := color}

def terminalPutentryat (c color : Uint8) (x y : ℕ) (t : Terminal) : Option Terminal :=
  (set? t.vga_memory (y * 80 + x : ℕ) (vgaEntry c color)).map fun vga => {t with vga_memory := vga}

-- lines is an int: the unsigned loop counters start at lines and at 25 - lines modulo 2^32
def terminalScroll (lines : Uint32) (t : Terminal) : Option Terminal :=
  if lines.toInt ≤ 0 then
    some t
  else do
    let first := lines.toNat
    let vga ← (List.range' first (25 - first)).foldlM (fun vga y =>
      storeLoop (fun vga x => get? vga (y * 80 + x : ℕ)) ((y - first) * 80 : ℕ) 80 vga) t.vga_memory
    let bottom := (25#32 - lines).toNat
    let vga ← (List.range' bottom (25 - bottom)).foldlM (fun vga y =>
      storeLoop (fun _ _ => some (vgaEntry 32#8 t.terminal_color)) (y * 80 : ℕ) 80 vga) vga
    some {t with vga_memory := vga}

def terminalNewline (t : Terminal) : Option Terminal :=
  let t := {t with terminal_column := 0, terminal_row := t.terminal_row + 1}
  if t.terminal_row = 25 then
    (terminalScroll 1#32 t).map fun t => {t with terminal_row := 24}
  else
    some t

def terminalBackspace (t : Terminal) : Option Terminal :=
  if t.terminal_column > 0 then do
    let t := {t with terminal_column := t.terminal_column - 1}
    let t ← terminalPutentryat 32#8 t.terminal_color t.terminal_column t.terminal_row t
    some (terminalMoveCursor t.terminal_column t.terminal_row t)
  else if t.terminal_row > 0 then do
    let t := {t with terminal_row := t.terminal_row - 1, terminal_column := 79}
    let t ← terminalPutentryat 32#8 t.terminal_color t.terminal_column t.terminal_row t
    some (terminalMoveCursor t.terminal_column t.terminal_row t)
  else
    some t

def terminalDelete (t : Terminal) : Option Terminal :=
  terminalPutentryat 32#8 t.terminal_color t.terminal_column t.terminal_row t

def putVisible (c : Uint8) (t : Terminal) : Option Terminal := do
  let t ← terminalPutentryat c t.terminal_color t.terminal_column t.terminal_row t
  let t := {t with terminal_column := t.terminal_column + 1}
  if t.terminal_column = 80 then terminalNewline t else some t

-- terminal_putchar with terminal_tab as a parameter, since each calls the other
def putcharWith (tab : Terminal → Option Terminal) (c : Uint8) (t : Terminal) :
    Option Terminal :=
  (if c = 10#8 then terminalNewline t
  else if c = 13#8 then some {t with terminal_column := 0}
  else if c = 8#8 then terminalBackspace t
  else if c = 9#8 then tab t
  else putVisible c t).map fun t => terminalMoveCursor t.terminal_column t.terminal_row t

def terminalTab (t : Terminal) : Option Terminal :=
  (List.range 4).foldlM (fun t _ => putcharWith some 32#8 t) t

def terminalPutchar : Uint8 → Terminal → Option Terminal := putcharWith terminalTab

theorem terminalTab_eq (t : Terminal) :
    terminalTab t = (List.range 4).foldlM (fun t _ => terminalPutchar 32#8 t) t := by
  simp [terminalTab,terminalPutchar,putcharWith]

def terminalClearLine (line : ℕ) (t : Terminal) : Option Terminal :=
  if line ≥ 25 then
    some t
  else
    (List.range 80).foldlM (fun t x => terminalPutentryat 32#8 t.terminal_color x line t) t

def terminalClearScreenFromCursor (t : Terminal) : Option Terminal := do
  let t ← (List.range' t.terminal_column (80 - t.terminal_column)).foldlM (fun t x =>
    terminalPutentryat 32#8 t.terminal_color x t.terminal_row t) t
  (List.range' (t.terminal_row + 1) (25 - (t.terminal_row + 1))).foldlM (fun t y =>
    terminalClearLine y t) t

def terminalClearScreenToCursor (t : Terminal) : Option Terminal := do
  let t ← (List.range t.terminal_row).foldlM (fun t y => terminalClearLine y t) t
  (List.range (t.terminal_column + 1)).foldlM (fun t x =>
    terminalPutentryat 32#8 t.terminal_color x t.terminal_row t) t

def terminalWrite (data : List Uint8) (t : Terminal) : Option Terminal :=
  data.foldlM (fun t c => terminalPutchar c t) t

def terminalWritestring (data : List Uint8) (t : Terminal) : Option Terminal :=
  (data.takeWhile fun c => c ≠ 0#8).foldlM (fun t c => terminalPutchar c t) t

def terminalClear (t : Terminal) : Option Terminal := do
  let vga ← fillScreen t.terminal_color t.vga_memory
  some (terminalMoveCursor 0 0 {t with vga_memory := vga, terminal_row := 0, terminal_column := 0})

inductive TerminalCall where
  | putchar (c : Uint8)
  | write (data : List Uint8)
  | writestring (data : List Uint8)
  | newline
  | backspace
  | delete
  | tab
  | moveCursor (x y : Uint16)
  | clear
  | scroll (lines : Uint32)
  | clearLine (line : Uint16)
  | clearScreenFromCursor
  | clearScreenToCursor
  | setcolor (color : Uint8)

def terminalStep (t : Terminal) : TerminalCall → Option Terminal
  | .putchar c => terminalPutchar c t
  | .write data => terminalWrite data t
  | .writestring data => terminalWritestring data t
  | .newline => terminalNewline t
  | .backspace => terminalBackspace t
  | .delete => terminalDelete t
  | .tab => terminalTab t
  | .moveCursor x y => some (terminalMoveCursor x.toNat y.toNat t)
  | .clear => terminalClear t
  | .scroll lines => terminalScroll lines t
  | .clearLine line => terminalClearLine line.toNat t
  | .clearScreenFromCursor => terminalClearScreenFromCursor t
  | .clearScreenToCursor => terminalClearScreenToCursor t
  | .setcolor color => some (terminalSetcolor color t)

end KluxOS
