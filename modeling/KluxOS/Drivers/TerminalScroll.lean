import KluxOS.Drivers.TerminalBounds
import KluxOS.Lib.ShiftUp

namespace KluxOS

open CArray ShiftUp

-- the screen holds spaces in the current colour and nothing else
def Blank (t : Terminal) : Prop :=
  t.vga_memory = Vector.replicate 2000 (vgaEntry 32#8 t.terminal_color)

def setScreen (vga : Vector Uint16 2000) (t : Terminal) : Terminal := {t with vga_memory := vga}

def scrolled (k : ℕ) (t : Terminal) : Terminal :=
  setScreen (shiftUp (vgaEntry 32#8 t.terminal_color) (k * 80) t.vga_memory) t

def ScrollsAdd (a b : ℕ) (t : Terminal) : Prop :=
  (terminalScroll (BitVec.ofNat 32 a) t).bind (terminalScroll (BitVec.ofNat 32 b)) =
    terminalScroll (BitVec.ofNat 32 (a + b)) t

def ScrollBlanks (k : ℕ) (t : Terminal) : Prop :=
  ∃ u, terminalScroll (BitVec.ofNat 32 k) t = some u ∧ Blank u

@[simp] theorem setScreen_vga_memory (vga : Vector Uint16 2000) (t : Terminal) :
    (setScreen vga t).vga_memory = vga := rfl

@[simp] theorem setScreen_terminal_color (vga : Vector Uint16 2000) (t : Terminal) :
    (setScreen vga t).terminal_color = t.terminal_color := rfl

@[simp] theorem setScreen_setScreen (vga vga' : Vector Uint16 2000) (t : Terminal) :
    setScreen vga' (setScreen vga t) = setScreen vga' t := rfl

theorem setScreen_eq_self (vga : Vector Uint16 2000) (t : Terminal) :
    setScreen vga t = t ↔ vga = t.vga_memory :=
  ⟨fun h => congrArg Terminal.vga_memory h,by rintro rfl; rfl⟩

theorem int_toInt {k : ℕ} (hk : k < 2 ^ 31) : (BitVec.ofNat 32 k).toInt = k := by
  rw [BitVec.toInt_eq_toNat_of_lt] <;> rw [BitVec.toNat_ofNat] <;> omega

theorem terminalScroll_scrolled {k : ℕ} (h0 : 1 ≤ k) (h : k ≤ 25) (t : Terminal) :
    terminalScroll (BitVec.ofNat 32 k) t = some (scrolled k t) := by
  obtain ⟨vga,hvga,hget⟩ := terminalScroll_spec (BitVec.ofNat 32 k) (int_toInt (by omega)) h0 h t
  have hsame : vga = shiftUp (vgaEntry 32#8 t.terminal_color) (k * 80) t.vga_memory := by
    refine ext_get? fun m hm => ?_
    rw [hget m hm,get?_shiftUp _ _ _ hm]
    exact if_congr (by omega) rfl rfl
  rw [hvga,scrolled,← hsame,setScreen]

theorem terminalScroll_kept {k : ℕ} (h : 25 < k) (hk : k < 2 ^ 31) (t : Terminal) :
    terminalScroll (BitVec.ofNat 32 k) t = some t :=
  terminalScroll_large (by rw [int_toInt hk]; omega) t

theorem scrolled_scrolled (a b : ℕ) (t : Terminal) :
    scrolled b (scrolled a t) = scrolled (a + b) t := by
  rw [scrolled,scrolled,setScreen_terminal_color,setScreen_vga_memory,shiftUp_add,← Nat.add_mul,
    setScreen_setScreen,scrolled]

theorem scrolled_eq_self {k : ℕ} (h : 1 ≤ k) (t : Terminal) : scrolled k t = t ↔ Blank t := by
  rw [scrolled,setScreen_eq_self]
  exact shiftUp_eq_self _ (by omega) t.vga_memory

theorem scrolled_blank {k : ℕ} (h : 25 ≤ k) (t : Terminal) : Blank (scrolled k t) := by
  rw [Blank,scrolled,setScreen_vga_memory,setScreen_terminal_color]
  exact shiftUp_all _ (by omega) t.vga_memory

-- past 25 lines the copy and the clearing loop both do nothing
theorem scrollsAdd_iff {a b : ℕ} (ha : 1 ≤ a) (hb : 1 ≤ b) (h : a + b < 2 ^ 31) (t : Terminal) :
    ScrollsAdd a b t ↔ a + b ≤ 25 ∨ (25 < a ∧ 25 < b) ∨ Blank t := by
  rw [ScrollsAdd]
  by_cases hsum : a + b ≤ 25
  · rw [terminalScroll_scrolled ha (by omega),Option.bind_some,
      terminalScroll_scrolled hb (by omega),terminalScroll_scrolled (by omega) hsum,
      scrolled_scrolled]
    exact iff_of_true rfl (.inl hsum)
  rw [terminalScroll_kept (by omega) h,or_iff_right hsum]
  by_cases hla : 25 < a
  · rw [terminalScroll_kept hla (by omega),Option.bind_some]
    by_cases hlb : 25 < b
    · rw [terminalScroll_kept hlb (by omega)]
      exact iff_of_true rfl (.inl ⟨hla,hlb⟩)
    · rw [terminalScroll_scrolled hb (by omega),Option.some.injEq,scrolled_eq_self hb,
        or_iff_right fun hboth => hlb hboth.2]
  · rw [terminalScroll_scrolled ha (by omega),Option.bind_some,or_iff_right fun hboth => hla hboth.1]
    by_cases hlb : 25 < b
    · rw [terminalScroll_kept hlb (by omega),Option.some.injEq,scrolled_eq_self ha]
    · rw [terminalScroll_scrolled hb (by omega),scrolled_scrolled,Option.some.injEq,
        scrolled_eq_self (by omega)]

theorem scrollBlanks_iff {k : ℕ} (h : 25 ≤ k) (hk : k < 2 ^ 31) (t : Terminal) :
    ScrollBlanks k t ↔ k = 25 ∨ Blank t := by
  rcases Nat.eq_or_lt_of_le h with rfl | hlt
  · rw [ScrollBlanks,terminalScroll_scrolled (by decide) (by decide)]
    exact iff_of_true ⟨_,rfl,scrolled_blank (by decide) t⟩ (.inl rfl)
  · rw [ScrollBlanks,terminalScroll_kept hlt hk,or_iff_right (by omega)]
    constructor
    · rintro ⟨u,hu,hblank⟩
      cases hu
      exact hblank
    · exact fun hblank => ⟨t,rfl,hblank⟩

theorem scrolling_adds_up (t : Terminal) (a b : ℕ) (ha : 1 ≤ a) (hb : 1 ≤ b)
    (h : a + b < 2 ^ 31) :
    (ScrollsAdd a b t ↔ a + b ≤ 25 ∨ (25 < a ∧ 25 < b) ∨ Blank t) ∧
      (25 ≤ a + b → (ScrollBlanks (a + b) t ↔ a + b = 25 ∨ Blank t)) :=
  ⟨scrollsAdd_iff ha hb h t,fun hall => scrollBlanks_iff hall h t⟩

-- a screen full of the letter A
def letterScreen : Terminal :=
  { vga_memory := Vector.replicate 2000 (vgaEntry 65#8 7#8)
    terminal_color := 7#8
    terminal_row := 0
    terminal_column := 0
    cursor_visible := true
    crtc_index := 0#8
    crtc := fun _ => 0#8 }

theorem letterScreen_not_blank : ¬ Blank letterScreen := by
  intro h
  have hcell := congrArg (fun v : Vector Uint16 2000 => v[0]) h
  rw [letterScreen] at hcell
  dsimp only at hcell
  rw [Vector.getElem_replicate,Vector.getElem_replicate] at hcell
  exact absurd hcell (by decide)

theorem two_scrolls_add : ScrollsAdd 1 2 letterScreen :=
  (scrolling_adds_up letterScreen 1 2 (by decide) (by decide) (by decide)).1.mpr (.inl (by decide))

theorem scroll_past_height_kept : ¬ ScrollsAdd 25 1 letterScreen ∧ ¬ ScrollBlanks 26 letterScreen := by
  constructor
  · rw [scrollsAdd_iff (by decide) (by decide) (by decide)]
    rintro (hsum | ⟨hla,-⟩ | hblank)
    · exact absurd hsum (by decide)
    · exact absurd hla (by decide)
    · exact letterScreen_not_blank hblank
  · rw [scrollBlanks_iff (by decide) (by decide)]
    rintro (heq | hblank)
    · exact absurd heq (by decide)
    · exact letterScreen_not_blank hblank

end KluxOS
