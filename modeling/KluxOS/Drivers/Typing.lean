import KluxOS.Drivers.ShiftKeys

namespace KluxOS

open CArray Run

section Keys

variable (layout : KeyboardLayout)

def modifierKeys : List Uint8 := [0x2A#8,0x36#8,0x1D#8,0x38#8,0x3A#8,0x45#8,0x46#8]

def plainKeys : List Uint8 :=
  ((List.range 128).map (BitVec.ofNat 8)).filter fun key => key ∉ modifierKeys

-- what a plain key types
def keyChar (use_uppercase : Bool) (key : Uint8) : Uint8 :=
  (specialKeys.lookup key).getD ((get? (keymapOf layout use_uppercase) key.toNat).getD 0#8)

def findKey (use_uppercase : Bool) (c : Uint8) : Option Uint8 :=
  plainKeys.find? fun key => keyChar layout use_uppercase key = c

def Typable (c : Uint8) : Prop := (findKey layout false c).isSome ∨ (findKey layout true c).isSome

instance decidableTypable (c : Uint8) : Decidable (Typable layout c) :=
  inferInstanceAs (Decidable (_ ∨ _))

-- a key pressed and released, alone or while the left shift key is held
def stroke (shift : Bool) (key : Uint8) : List Uint8 :=
  if shift then [0x2A#8,key,key ||| 0x80#8,0xAA#8] else [key,key ||| 0x80#8]

-- caps lock acts on every key, so it is undone by the shift key
def keystrokes (capslock_on : Bool) (c : Uint8) : List Uint8 :=
  match findKey layout false c with
  | some key => stroke capslock_on key
  | none => ((findKey layout true c).map (stroke !capslock_on)).getD []

def typing (capslock_on : Bool) (text : List Uint8) : List Uint8 :=
  text.flatMap (keystrokes layout capslock_on)

end Keys

section Scan

variable (layout : KeyboardLayout)

-- keyboard_handler in an ASCII mode, without the ring
def scan (scancode : Uint8) (s : KeyState) : Uint8 × KeyState :=
  let key := scancode &&& 0x7F#8
  if scancode &&& 0x80#8 ≠ 0#8 then (0#8,releaseKey key s)
  else
    match pressModifier key s with
    | some s => (0#8,s)
    | none => (keyChar layout (s.shift_pressed != s.capslock_on) key,s)

def scanAll : List Uint8 → KeyState → List Uint8 × KeyState
  | [],s => ([],s)
  | scancode :: scancodes,s =>
    let r := scan layout scancode s
    let rest := scanAll scancodes r.2
    (if r.1 = 0#8 then rest.1 else r.1 :: rest.1,rest.2)

theorem scanAll_append (scs more : List Uint8) (s : KeyState) : scanAll layout (scs ++ more) s =
    ((scanAll layout scs s).1 ++ (scanAll layout more (scanAll layout scs s).2).1,
      (scanAll layout more (scanAll layout scs s).2).2) := by
  induction scs generalizing s with
  | nil => rfl
  | cons scancode scs ih =>
    rw [List.cons_append,scanAll,ih,scanAll]
    dsimp only
    split <;> rfl

variable {layout}

theorem keycodeToAscii_scan (scancode : Uint8) (k : Keyboard) : keycodeToAscii scancode k =
    some ((scan k.current_layout scancode k.key_state).1,
      { k with key_state := (scan k.current_layout scancode k.key_state).2 }) := by
  have hkey : (scancode &&& 0x7F#8).toNat < 128 := by
    rw [BitVec.toNat_and]
    exact Nat.lt_of_le_of_lt Nat.and_le_right (by decide)
  rw [keycodeToAscii,scan]
  dsimp only
  split
  · rfl
  · cases pressModifier (scancode &&& 0x7F#8) k.key_state with
    | some s => rfl
    | none =>
      dsimp only
      rw [keyChar,get?_eq _ hkey rfl]
      cases specialKeys.lookup (scancode &&& 0x7F#8) <;> rfl

theorem pushedChar_scan (scancode : Uint8) {k : Keyboard} (hmode : k.current_mode ≠ .raw) :
    (pushedChar scancode k).toList = (scanAll k.current_layout [scancode] k.key_state).1 := by
  rw [pushedChar,if_neg hmode,keycodeToAscii_scan,scanAll]
  dsimp only
  by_cases hzero : (scan k.current_layout scancode k.key_state).1 = 0#8
  · rw [if_pos hzero,Option.map_some,hzero]
    rfl
  · rw [if_neg hzero,Option.map_some,Option.filter_some,if_pos (by simpa using hzero)]
    rfl

end Scan

section Stroke

variable {layout : KeyboardLayout} {s : KeyState}

theorem plainKey_bits : ∀ key ∈ plainKeys, key &&& 0x80#8 = 0#8 ∧ key &&& 0x7F#8 = key ∧
    (key ||| 0x80#8) &&& 0x80#8 ≠ 0#8 ∧ (key ||| 0x80#8) &&& 0x7F#8 = key := by
  decide +kernel

theorem plainKey_modifies {key : Uint8} (h : key ∈ plainKeys) :
    pressModifier key s = none ∧ releaseKey key s = s := by
  have hnot : key ∉ modifierKeys := by simpa using (List.mem_filter.mp h).2
  simp only [modifierKeys,List.mem_cons,List.not_mem_nil,or_false,not_or] at hnot
  obtain ⟨hl,hr,hctrl,halt,hcaps,hnum,hscroll⟩ := hnot
  simp [pressModifier,releaseKey,hl,hr,hctrl,halt,hcaps,hnum,hscroll]

theorem scan_key (layout : KeyboardLayout) {key : Uint8} (h : key ∈ plainKeys) (s : KeyState) :
    scan layout key s = (keyChar layout (s.shift_pressed != s.capslock_on) key,s) ∧
      scan layout (key ||| 0x80#8) s = (0#8,s) := by
  obtain ⟨hpress,hkey,hrelease,hkey'⟩ := plainKey_bits key h
  obtain ⟨hnone,hsame⟩ := plainKey_modifies (s := s) h
  constructor
  · rw [scan,hkey,if_neg (not_not.mpr hpress),hnone]
  · rw [scan,hkey',if_pos hrelease,hsame]

theorem scanAll_stroke {key : Uint8} (h : key ∈ plainKeys) (hshift : s.shift_pressed = false)
    (shift : Bool) {c : Uint8} (hc : keyChar layout (shift != s.capslock_on) key = c) (hzero : c ≠ 0#8) :
    scanAll layout (stroke shift key) s = ([c],s) := by
  cases shift with
  | false =>
    obtain ⟨hpress,hrelease⟩ := scan_key layout h s
    rw [hshift,hc] at hpress
    simp only [stroke,scanAll,hpress,hrelease,hzero,if_true,if_false,reduceCtorEq]
  | true =>
    -- the shift key is down around the key
    obtain ⟨hpress,hrelease⟩ := scan_key layout h { s with shift_pressed := true }
    have hheld : scan layout 0x2A#8 s = (0#8,{ s with shift_pressed := true }) := rfl
    have hup : { s with shift_pressed := false } = s := by
      cases s
      cases hshift
      rfl
    have hback : scan layout 0xAA#8 { s with shift_pressed := true } = (0#8,s) :=
      congrArg (Prod.mk 0#8) hup
    change scan layout key _ = (keyChar layout (true != s.capslock_on) key,_) at hpress
    rw [hc] at hpress
    simp only [stroke,scanAll,hheld,hpress,hrelease,hback,hzero,if_true,if_false]

theorem findKey_some {u : Bool} {c key : Uint8} (h : findKey layout u c = some key) :
    key ∈ plainKeys ∧ keyChar layout u key = c :=
  ⟨List.mem_of_find?_eq_some h,by simpa using List.find?_some h⟩

theorem scanAll_keystrokes {c : Uint8} (hc : Typable layout c) (hzero : c ≠ 0#8)
    (hshift : s.shift_pressed = false) :
    scanAll layout (keystrokes layout s.capslock_on c) s = ([c],s) := by
  rw [keystrokes]
  cases hlower : findKey layout false c with
  | some key =>
    obtain ⟨hkey,hchar⟩ := findKey_some hlower
    exact scanAll_stroke hkey hshift s.capslock_on (by rw [bne_self_eq_false,hchar]) hzero
  | none =>
    have hupper : (findKey layout true c).isSome := hc.resolve_left (by rw [hlower]; decide)
    obtain ⟨key,hfound⟩ := Option.isSome_iff_exists.mp hupper
    obtain ⟨hkey,hchar⟩ := findKey_some hfound
    rw [hfound]
    refine scanAll_stroke hkey hshift (!s.capslock_on) ?_ hzero
    rw [← hchar]
    cases s.capslock_on <;> rfl

theorem scanAll_typing {text : List Uint8} (htext : ∀ c ∈ text, Typable layout c ∧ c ≠ 0#8)
    (hshift : s.shift_pressed = false) :
    scanAll layout (typing layout s.capslock_on text) s = (text,s) := by
  induction text with
  | nil => rfl
  | cons c text ih =>
    obtain ⟨hc,hzero⟩ := htext c List.mem_cons_self
    rw [typing,List.flatMap_cons,scanAll_append,scanAll_keystrokes hc hzero hshift,← typing,
      ih fun d hd => htext d (List.mem_cons_of_mem c hd)]
    rfl

end Stroke

section Session

variable {h : KeyboardHistory}

def KeyboardCall.scancode : KeyboardCall → Option Uint8
  | .handler scancode => some scancode
  | _ => none

-- the mode and the layout stay as they are, and a code finds room in the ring
def Undisturbed (h : KeyboardHistory) : KeyboardCall → Prop
  | .handler _ => h.keyboard.buffer_count < 256
  | .setMode _ => False
  | .setLayout _ => False
  | .read => True
  | .getchar => True

structure Typed (h : KeyboardHistory) (layout : KeyboardLayout) (s : KeyState) (text : List Uint8) :
    Prop where
  fifo : Fifo h
  mode : h.keyboard.current_mode ≠ .raw
  layout : h.keyboard.current_layout = layout
  state : h.keyboard.key_state = s
  accepted : h.accepted = text

theorem bufferPush_layout {c : Uint8} {k u : Keyboard} (h : bufferPush c k = some u) :
    u.current_layout = k.current_layout := by
  rw [bufferPush] at h
  split at h
  · obtain ⟨buffer,-,h⟩ := Option.bind_eq_some_iff.mp h
    cases h
    rfl
  · cases h
    rfl

theorem handler_settings {scancode : Uint8} {k u : Keyboard} (hmode : k.current_mode ≠ .raw)
    (h : keyboardHandler scancode k = some u) :
    u.current_mode = k.current_mode ∧ u.current_layout = k.current_layout ∧
      u.key_state = (scan k.current_layout scancode k.key_state).2 := by
  rw [keyboardHandler,if_neg hmode,keycodeToAscii_scan,Option.bind_eq_bind,Option.bind_some] at h
  dsimp only at h
  split at h
  · obtain ⟨v,hpush,h⟩ := Option.bind_eq_some_iff.mp h
    obtain ⟨hstate,hsame⟩ := bufferPush_keeps hpush
    have hlayout := bufferPush_layout hpush
    split at h
    · cases h
      exact ⟨hsame,hlayout,hstate⟩
    · cases h
      exact ⟨hsame,hlayout,hstate⟩
  · cases h
    exact ⟨rfl,rfl,rfl⟩

theorem bufferPop_settings {k u : Keyboard} {c : Uint8} (h : bufferPop k = some (c,u)) :
    u.current_mode = k.current_mode ∧ u.current_layout = k.current_layout ∧
      u.key_state = k.key_state := by
  rw [bufferPop] at h
  split at h
  · cases h
    exact ⟨rfl,rfl,rfl⟩
  · obtain ⟨d,-,h⟩ := Option.bind_eq_some_iff.mp h
    cases h
    exact ⟨rfl,rfl,rfl⟩

theorem read_settings {k u : Keyboard} {c : Uint8} (h : keyboardRead k = some (c,u)) :
    u.current_mode = k.current_mode ∧ u.current_layout = k.current_layout ∧
      u.key_state = k.key_state := by
  rw [keyboardRead] at h
  split at h
  · exact bufferPop_settings h
  · cases h
    exact ⟨rfl,rfl,rfl⟩

theorem getchar_settings {k u : Keyboard} {c : Option Uint8} (h : keyboardGetchar k = some (c,u)) :
    u.current_mode = k.current_mode ∧ u.current_layout = k.current_layout ∧
      u.key_state = k.key_state := by
  rw [keyboardGetchar] at h
  split at h
  · obtain ⟨⟨d,v⟩,hpop,h⟩ := Option.map_eq_some_iff.mp h
    cases h
    exact bufferPop_settings hpop
  · cases h
    exact ⟨rfl,rfl,rfl⟩

variable {layout : KeyboardLayout} {s : KeyState} {text : List Uint8}

theorem typed_step (ht : Typed h layout s text) {c : KeyboardCall} (hc : Undisturbed h c) :
    ∃ g, keyboardStep h c = some g ∧ Typed g layout (scanAll layout c.scancode.toList s).2
      (text ++ (scanAll layout c.scancode.toList s).1) := by
  obtain ⟨g,hg,hfifo⟩ := keyboardStep_fifo c ht.fifo
  refine ⟨g,hg,?_⟩
  cases c with
  | handler scancode =>
    obtain ⟨u,hu,hg⟩ := Option.bind_eq_some_iff.mp hg
    cases hg
    obtain ⟨hmode,hlayout,hstate⟩ := handler_settings ht.mode hu
    refine ⟨hfifo,hmode ▸ ht.mode,hlayout.trans ht.layout,?_,?_⟩
    · rw [hstate,ht.layout,ht.state]
      rfl
    · have hroom : h.keyboard.buffer_count < 256 := hc
      dsimp only
      rw [if_pos hroom,pushedChar_scan scancode ht.mode,ht.accepted,ht.layout,ht.state]
      rfl
  | setMode mode => exact absurd hc id
  | setLayout other => exact absurd hc id
  | read =>
    obtain ⟨⟨d,u⟩,hu,hg⟩ := Option.bind_eq_some_iff.mp hg
    cases hg
    obtain ⟨hmode,hlayout,hstate⟩ := read_settings hu
    exact ⟨hfifo,hmode ▸ ht.mode,hlayout.trans ht.layout,hstate.trans ht.state,
      ht.accepted.trans (List.append_nil text).symm⟩
  | getchar =>
    obtain ⟨⟨d,u⟩,hu,hg⟩ := Option.bind_eq_some_iff.mp hg
    cases hg
    obtain ⟨hmode,hlayout,hstate⟩ := getchar_settings hu
    exact ⟨hfifo,hmode ▸ ht.mode,hlayout.trans ht.layout,hstate.trans ht.state,
      ht.accepted.trans (List.append_nil text).symm⟩

theorem typed_run (ht : Typed h layout s text) {calls : List KeyboardCall}
    (hcalls : Every keyboardStep (fun h c _ => Undisturbed h c) h calls) :
    ∃ g, run keyboardStep h calls = some g ∧
      Typed g layout (scanAll layout (calls.filterMap KeyboardCall.scancode) s).2
        (text ++ (scanAll layout (calls.filterMap KeyboardCall.scancode) s).1) := by
  induction calls generalizing h s text with
  | nil => exact ⟨h,rfl,(List.append_nil text).symm ▸ ht⟩
  | cons c calls ih =>
    obtain ⟨u,hu,hkept⟩ := typed_step ht hcalls.1
    obtain ⟨g,hg,hend⟩ := ih hkept (hcalls.2 u hu)
    have hcodes : (c :: calls).filterMap KeyboardCall.scancode =
        c.scancode.toList ++ calls.filterMap KeyboardCall.scancode := by
      rw [List.filterMap_cons]
      cases c.scancode <;> rfl
    refine ⟨g,?_,?_⟩
    · rw [run,hu]
      exact hg
    · rw [hcodes,scanAll_append,← List.append_assoc]
      exact hend

theorem queue_length (k : Keyboard) : (keyboardQueue k).length = k.buffer_count :=
  RingBuffer.contents_length _ (by decide) _ _

theorem read_count {k u : Keyboard} {c : Uint8} (hk : RingOk k) (h : keyboardRead k = some (c,u)) :
    u.buffer_count ≤ k.buffer_count := by
  rcases Nat.eq_zero_or_pos k.buffer_count with hzero | hpos
  · rw [(keyboardRead_empty hzero).1] at h
    cases h
    exact Nat.le_refl _
  · obtain ⟨d,v,hread,-,-,hqueue⟩ := keyboardRead_spec hk hpos
    rw [h] at hread
    cases hread
    have hlength := congrArg List.length hqueue
    rw [List.length_cons,queue_length,queue_length] at hlength
    omega

theorem getchar_count {k u : Keyboard} {c : Option Uint8} (hk : RingOk k)
    (h : keyboardGetchar k = some (c,u)) : u.buffer_count ≤ k.buffer_count := by
  rcases Nat.eq_zero_or_pos k.buffer_count with hzero | hpos
  · rw [(keyboardRead_empty hzero).2] at h
    cases h
    exact Nat.le_refl _
  · obtain ⟨d,v,hread,hget,-⟩ := keyboardRead_spec hk hpos
    rw [h] at hget
    cases hget
    exact read_count hk hread

-- a code adds one character at most
theorem step_count (hf : Fifo h) {c : KeyboardCall} {g : KeyboardHistory}
    (hg : keyboardStep h c = some g) :
    g.keyboard.buffer_count ≤ h.keyboard.buffer_count + c.scancode.toList.length := by
  cases c with
  | handler scancode =>
    obtain ⟨u,hu,hg⟩ := Option.bind_eq_some_iff.mp hg
    cases hg
    obtain ⟨v,hv,-,hqueue⟩ := keyboardHandler_spec scancode hf.ring
    rw [hu] at hv
    cases hv
    have hone : (pushedChar scancode h.keyboard).toList.length ≤ 1 := by
      cases pushedChar scancode h.keyboard with
      | none => exact Nat.zero_le 1
      | some c => exact Nat.le_refl 1
    have hlength := congrArg List.length hqueue
    rw [queue_length] at hlength
    change u.buffer_count ≤ h.keyboard.buffer_count + 1
    rw [hlength]
    split
    · rw [List.length_append,queue_length]
      omega
    · rw [queue_length]
      omega
  | setMode mode =>
    cases hg
    exact Nat.le_add_right _ _
  | setLayout layout =>
    cases hg
    exact Nat.le_add_right _ _
  | read =>
    obtain ⟨⟨d,u⟩,hu,hg⟩ := Option.bind_eq_some_iff.mp hg
    cases hg
    exact read_count hf.ring hu
  | getchar =>
    obtain ⟨⟨d,u⟩,hu,hg⟩ := Option.bind_eq_some_iff.mp hg
    cases hg
    exact getchar_count hf.ring hu

def KeyboardCall.sets : KeyboardCall → Bool
  | .setMode _ => true
  | .setLayout _ => true
  | _ => false

theorem undisturbed_of_few (hf : Fifo h) {calls : List KeyboardCall}
    (hset : ∀ c ∈ calls, c.sets = false)
    (hfew : h.keyboard.buffer_count + (calls.filterMap KeyboardCall.scancode).length ≤ 256) :
    Every keyboardStep (fun h c _ => Undisturbed h c) h calls := by
  induction calls generalizing h with
  | nil => trivial
  | cons c calls ih =>
    have hlength : ((c :: calls).filterMap KeyboardCall.scancode).length =
        c.scancode.toList.length + (calls.filterMap KeyboardCall.scancode).length := by
      rw [List.filterMap_cons]
      cases c.scancode with
      | none => exact (Nat.zero_add _).symm
      | some scancode => exact Nat.add_comm _ 1
    rw [hlength] at hfew
    refine ⟨?_,fun g hg => ?_⟩
    · have hc := hset c List.mem_cons_self
      cases c with
      | handler scancode =>
        change h.keyboard.buffer_count < 256
        have hone : (KeyboardCall.handler scancode).scancode.toList.length = 1 := rfl
        omega
      | setMode mode => cases hc
      | setLayout layout => cases hc
      | read => trivial
      | getchar => trivial
    · obtain ⟨g',hg',hfifo⟩ := keyboardStep_fifo c hf
      rw [hg] at hg'
      cases hg'
      have hcount := step_count hf hg
      exact ih hfifo (fun d hd => hset d (List.mem_cons_of_mem c hd)) (by omega)

end Session

-- the printable characters without a key of their own
def missingKeys : KeyboardLayout → List Uint8
  | .us => []
  | .tr => ['#','$','<','>','@','[','\\',']','\x60','\x7b','|','\x7d','~'].map fun c =>
      BitVec.ofNat 8 c.toNat

def Text (c : Uint8) : Prop := 0x20#8 ≤ c ∧ c ≤ 0x7E#8 ∨ c = 13#8

instance decidableText (c : Uint8) : Decidable (Text c) := inferInstanceAs (Decidable (_ ∨ _))

theorem typable_us : ∀ c : Uint8, Text c → (Typable .us c ↔ c ∉ missingKeys .us) := by
  decide +kernel

theorem typable_tr : ∀ c : Uint8, Text c → (Typable .tr c ↔ c ∉ missingKeys .tr) := by
  decide +kernel

theorem typable_iff (layout : KeyboardLayout) {c : Uint8} (hc : Text c) :
    Typable layout c ↔ c ∉ missingKeys layout := by
  cases layout with
  | us => exact typable_us c hc
  | tr => exact typable_tr c hc

theorem text_ne_zero {c : Uint8} (hc : Text c) : c ≠ 0#8 := by
  rintro rfl
  exact absurd hc (by decide)

theorem typed_text_read_back (k : Keyboard) (text : List Uint8) (calls : List KeyboardCall)
    (hring : RingOk k) (hempty : k.buffer_count = 0) (hmode : k.current_mode ≠ .raw)
    (hshift : k.key_state.shift_pressed = false)
    (htext : ∀ c ∈ text, Text c ∧ c ∉ missingKeys k.current_layout)
    (hkeys : calls.filterMap KeyboardCall.scancode =
      typing k.current_layout k.key_state.capslock_on text)
    (hcalls : Every keyboardStep (fun h c _ => Undisturbed h c) ⟨k,[],[]⟩ calls) :
    ∃ h, run keyboardStep ⟨k,[],[]⟩ calls = some h ∧
      text = h.returned ++ keyboardQueue h.keyboard ∧ h.keyboard.key_state = k.key_state := by
  have hqueue : keyboardQueue k = [] := by
    rw [keyboardQueue,hempty]
    rfl
  have hstart : Typed ⟨k,[],[]⟩ k.current_layout k.key_state [] :=
    ⟨⟨hring,hqueue.symm⟩,hmode,rfl,rfl,rfl⟩
  obtain ⟨h,hrun,hend⟩ := typed_run hstart hcalls
  have hscan := scanAll_typing (s := k.key_state)
    (fun c hc => ⟨(typable_iff _ (htext c hc).1).mpr (htext c hc).2,text_ne_zero (htext c hc).1⟩)
    hshift
  rw [hkeys,hscan] at hend
  exact ⟨h,hrun,hend.accepted.symm.trans hend.fifo.queue,hend.state⟩

-- shift and a, and a read before the keys are up
def capitalA : List KeyboardCall :=
  [.handler 0x2A#8,.handler 0x1E#8,.read,.handler 0x9E#8,.handler 0xAA#8]

theorem typed_text_read_back_capital : ∃ h, run keyboardStep ⟨bootKeyboard,[],[]⟩ capitalA = some h ∧
    [0x41#8] = h.returned ++ keyboardQueue h.keyboard ∧
    h.keyboard.key_state = bootKeyboard.key_state := by
  have hring : RingOk bootKeyboard := ⟨by decide,by decide,rfl⟩
  have hfew : Every keyboardStep (fun h c _ => Undisturbed h c) ⟨bootKeyboard,[],[]⟩ capitalA :=
    undisturbed_of_few ⟨hring,rfl⟩ (by decide) (by decide)
  exact typed_text_read_back bootKeyboard [0x41#8] capitalA hring rfl (by decide) rfl (by decide)
    (by decide +kernel) hfew

end KluxOS
