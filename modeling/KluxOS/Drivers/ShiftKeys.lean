import KluxOS.Drivers.KeyboardQueue

namespace KluxOS

-- the keyboard beside the two shift keys as they are held down
structure ShiftHistory where
  keyboard : Keyboard
  left : Bool
  right : Bool

def keyAfter (press release : Uint8) (down : Bool) (scancode : Uint8) : Bool :=
  if scancode = press then true
  else if scancode = release then false
  else down

def leftAfter (down : Bool) (scancode : Uint8) : Bool := keyAfter 0x2A#8 0xAA#8 down scancode

def rightAfter (down : Bool) (scancode : Uint8) : Bool := keyAfter 0x36#8 0xB6#8 down scancode

def shiftStep (h : ShiftHistory) (scancode : Uint8) : Option ShiftHistory := do
  let k ← keyboardHandler scancode h.keyboard
  some ⟨k,leftAfter h.left scancode,rightAfter h.right scancode⟩

-- a key that is down is not pressed again, and only a key that is down is released
def Alternates (h : ShiftHistory) (scancode : Uint8) : Prop :=
  (scancode = 0x2A#8 → h.left = false) ∧ (scancode = 0xAA#8 → h.left = true) ∧
    (scancode = 0x36#8 → h.right = false) ∧ (scancode = 0xB6#8 → h.right = true)

def FollowsKeys (_ : ShiftHistory) (_ : Uint8) (result : Option ShiftHistory) : Prop :=
  ∃ g, result = some g ∧ g.keyboard.key_state.shift_pressed = (g.left || g.right)

def ReleasedAlone (h : ShiftHistory) (scancode : Uint8) (_ : Option ShiftHistory) : Prop :=
  (scancode = 0xAA#8 → h.right = false) ∧ (scancode = 0xB6#8 → h.left = false)

structure ShiftOk (h : ShiftHistory) : Prop where
  ring : RingOk h.keyboard
  mode : h.keyboard.current_mode ≠ .raw
  shift : h.keyboard.key_state.shift_pressed = (h.left || h.right)

def shiftAfter (shift : Bool) (scancode : Uint8) : Bool :=
  if scancode = 0x2A#8 ∨ scancode = 0x36#8 then true
  else if scancode = 0xAA#8 ∨ scancode = 0xB6#8 then false
  else shift

theorem releasedShift : ∀ scancode : Uint8, scancode &&& 0x80#8 ≠ 0#8 →
    scancode ≠ 0x2A#8 ∧ scancode ≠ 0x36#8 ∧
      (scancode &&& 0x7F#8 = 0x2A#8 ∨ scancode &&& 0x7F#8 = 0x36#8 ↔
        scancode = 0xAA#8 ∨ scancode = 0xB6#8) := by
  decide

theorem pressedKey : ∀ scancode : Uint8, scancode &&& 0x80#8 = 0#8 →
    scancode &&& 0x7F#8 = scancode ∧ scancode ≠ 0xAA#8 ∧ scancode ≠ 0xB6#8 := by
  decide

theorem releaseKey_shift (key : Uint8) (s : KeyState) : (releaseKey key s).shift_pressed =
    if key = 0x2A#8 ∨ key = 0x36#8 then false else s.shift_pressed := by
  rw [releaseKey]
  split_ifs <;> rfl

theorem pressModifier_shift (key : Uint8) (s : KeyState) :
    ((pressModifier key s).getD s).shift_pressed =
      if key = 0x2A#8 ∨ key = 0x36#8 then true else s.shift_pressed := by
  rw [pressModifier]
  split_ifs <;> rfl

theorem keycodeToAscii_shift {scancode c : Uint8} {k u : Keyboard}
    (h : keycodeToAscii scancode k = some (c,u)) :
    u.key_state.shift_pressed = shiftAfter k.key_state.shift_pressed scancode := by
  rw [keycodeToAscii] at h
  dsimp only at h
  rw [shiftAfter]
  by_cases hrelease : scancode &&& 0x80#8 ≠ 0#8
  · obtain ⟨hleft,hright,hkey⟩ := releasedShift scancode hrelease
    rw [if_pos hrelease] at h
    cases h
    rw [if_neg (not_or.mpr ⟨hleft,hright⟩),releaseKey_shift]
    exact if_congr hkey rfl rfl
  · obtain ⟨hkey,hleft,hright⟩ := pressedKey scancode (not_not.mp hrelease)
    have hmodifier := pressModifier_shift scancode k.key_state
    rw [if_neg hrelease,hkey] at h
    rw [if_neg (not_or.mpr ⟨hleft,hright⟩),← hmodifier]
    cases hpress : pressModifier scancode k.key_state with
    | some s =>
      rw [hpress] at h
      cases h
      rfl
    | none =>
      rw [hpress] at h
      cases hspecial : specialKeys.lookup scancode with
      | some special =>
        rw [hspecial] at h
        cases h
        rfl
      | none =>
        rw [hspecial] at h
        obtain ⟨ascii,-,hascii⟩ := Option.bind_eq_some_iff.mp h
        cases hascii
        rfl

theorem bufferPush_keeps {c : Uint8} {k u : Keyboard} (h : bufferPush c k = some u) :
    u.key_state = k.key_state ∧ u.current_mode = k.current_mode := by
  rw [bufferPush] at h
  split_ifs at h with hroom
  · obtain ⟨buffer,-,hu⟩ := Option.bind_eq_some_iff.mp h
    cases hu
    exact ⟨rfl,rfl⟩
  · cases h
    exact ⟨rfl,rfl⟩

theorem keyboardHandler_shift {scancode : Uint8} {k u : Keyboard} (hmode : k.current_mode ≠ .raw)
    (h : keyboardHandler scancode k = some u) :
    u.key_state.shift_pressed = shiftAfter k.key_state.shift_pressed scancode ∧
      u.current_mode = k.current_mode := by
  rw [keyboardHandler,if_neg hmode] at h
  obtain ⟨⟨c,v⟩,hascii,h⟩ := Option.bind_eq_some_iff.mp h
  have hshift := keycodeToAscii_shift hascii
  have hkept : v.current_mode = k.current_mode := by
    obtain ⟨_,_,hspec⟩ := keycodeToAscii_spec scancode k
    rw [hascii] at hspec
    cases hspec
    rfl
  dsimp only at h
  split_ifs at h with hc
  · obtain ⟨w,hpush,h⟩ := Option.bind_eq_some_iff.mp h
    obtain ⟨hstate,hsame⟩ := bufferPush_keeps hpush
    split_ifs at h <;>
    · cases h
      exact ⟨(congrArg KeyState.shift_pressed hstate).trans hshift,hsame.trans hkept⟩
  · cases h
    exact ⟨hshift,hkept⟩

theorem shiftStep_spec {h : ShiftHistory} (hok : ShiftOk h) (scancode : Uint8) :
    ∃ g, shiftStep h scancode = some g ∧ RingOk g.keyboard ∧ g.keyboard.current_mode ≠ .raw ∧
      g.left = leftAfter h.left scancode ∧ g.right = rightAfter h.right scancode ∧
      g.keyboard.key_state.shift_pressed = shiftAfter (h.left || h.right) scancode := by
  obtain ⟨u,hu,hring,-⟩ := keyboardHandler_spec scancode hok.ring
  obtain ⟨hshift,hmode⟩ := keyboardHandler_shift hok.mode hu
  refine ⟨_,Option.bind_eq_some_iff.mpr ⟨u,hu,rfl⟩,hring,?_,rfl,rfl,?_⟩
  · change u.current_mode ≠ .raw
    rw [hmode]
    exact hok.mode
  · change u.key_state.shift_pressed = _
    rw [hshift,hok.shift]

-- the flag of both keys agrees with the two keys unless one is released under the other
theorem shiftAfter_held {h : ShiftHistory} {scancode : Uint8} (halt : Alternates h scancode)
    (result : Option ShiftHistory) :
    shiftAfter (h.left || h.right) scancode =
        (leftAfter h.left scancode || rightAfter h.right scancode) ↔
      ReleasedAlone h scancode result := by
  obtain ⟨-,hleft,-,hright⟩ := halt
  rw [shiftAfter,leftAfter,rightAfter,keyAfter,keyAfter,ReleasedAlone]
  by_cases h1 : scancode = 0x2A#8
  · subst h1
    simp
  by_cases h2 : scancode = 0x36#8
  · subst h2
    simp
  by_cases h3 : scancode = 0xAA#8
  · subst h3
    simp
  by_cases h4 : scancode = 0xB6#8
  · subst h4
    simp
  · simp [h1,h2,h3,h4]

theorem followsKeys_iff {h : ShiftHistory} {scancode : Uint8} (hok : ShiftOk h)
    (halt : Alternates h scancode) : FollowsKeys h scancode (shiftStep h scancode) ↔
      ReleasedAlone h scancode (shiftStep h scancode) := by
  obtain ⟨g,hg,-,-,hleft,hright,hshift⟩ := shiftStep_spec hok scancode
  rw [← shiftAfter_held halt (shiftStep h scancode),← hshift,← hleft,← hright,hg]
  constructor
  · rintro ⟨g',hg',hfollows⟩
    cases hg'
    exact hfollows
  · exact fun hfollows => ⟨g,rfl,hfollows⟩

theorem shiftOk_step {h g : ShiftHistory} {scancode : Uint8} (hok : ShiftOk h)
    (halt : Alternates h scancode)
    (halone : ReleasedAlone h scancode (shiftStep h scancode))
    (hstep : shiftStep h scancode = some g) : ShiftOk g := by
  obtain ⟨f,hf,hring,hmode,-⟩ := shiftStep_spec hok scancode
  obtain ⟨f',hf',hfollows⟩ := (followsKeys_iff hok halt).mpr halone
  rw [hstep] at hf hf'
  cases hf
  cases hf'
  exact ⟨hring,hmode,hfollows⟩

theorem shift_follows_keys (h : ShiftHistory) (hok : ShiftOk h) (scancodes : List Uint8)
    (halt : Run.Every shiftStep (fun h c _ => Alternates h c) h scancodes) :
    Run.Every shiftStep FollowsKeys h scancodes ↔ Run.Every shiftStep ReleasedAlone h scancodes :=
  Run.every_iff_of hok halt (fun _ _ hok halt => followsKeys_iff hok halt)
    fun _ _ _ hok halt halone hstep => shiftOk_step hok halt halone hstep

-- the statics of the driver, with no key down
def bootKeyboard : Keyboard :=
  { keyboard_buffer := Vector.replicate 256 0#8
    buffer_start := 0
    buffer_end := 0
    buffer_count := 0
    key_state := ⟨false,false,false,false,false,false⟩
    current_mode := .ascii
    current_layout := .us
    terminal := [] }

def bootShift : ShiftHistory := ⟨bootKeyboard,false,false⟩

theorem bootShift_ok : ShiftOk bootShift :=
  ⟨⟨by decide,by decide,rfl⟩,by decide,rfl⟩

theorem one_shift_followed : Run.Every shiftStep FollowsKeys bootShift [0x2A#8,0xAA#8] := by
  have halt : Run.Every shiftStep (fun h c _ => Alternates h c) bootShift [0x2A#8,0xAA#8] := by
    refine ⟨⟨fun _ => rfl,by decide,by decide,by decide⟩,fun t ht => ?_⟩
    cases ht
    exact ⟨⟨by decide,fun _ => rfl,by decide,by decide⟩,fun _ _ => trivial⟩
  refine (shift_follows_keys bootShift bootShift_ok [0x2A#8,0xAA#8] halt).mpr
    ⟨⟨by decide,by decide⟩,fun t ht => ?_⟩
  cases ht
  exact ⟨⟨fun _ => rfl,by decide⟩,fun _ _ => trivial⟩

-- left shift down, right shift down, left shift up: the right one is still held
def overlappingShifts : List Uint8 := [0x2A#8,0x36#8,0xAA#8]

theorem overlapping_shifts_lost :
    Run.Every shiftStep (fun h c _ => Alternates h c) bootShift overlappingShifts ∧
      ¬ Run.Every shiftStep FollowsKeys bootShift overlappingShifts := by
  constructor
  · refine ⟨⟨fun _ => rfl,by decide,by decide,by decide⟩,fun t ht => ?_⟩
    cases ht
    refine ⟨⟨by decide,by decide,fun _ => rfl,by decide⟩,fun t ht => ?_⟩
    cases ht
    exact ⟨⟨by decide,fun _ => rfl,by decide,by decide⟩,fun _ _ => trivial⟩
  · rintro ⟨-,hfirst⟩
    obtain ⟨-,hsecond⟩ := hfirst _ rfl
    obtain ⟨⟨g,hg,hfollows⟩,-⟩ := hsecond _ rfl
    cases hg
    exact absurd hfollows (by decide)

end KluxOS
