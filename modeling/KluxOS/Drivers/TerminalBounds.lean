import KluxOS.Drivers.Terminal

namespace KluxOS

open CArray RowMajor Run

def OnScreen (t : Terminal) : Prop := t.terminal_column < 80 ∧ t.terminal_row < 25

def SameCursor (t u : Terminal) : Prop :=
  u.terminal_column = t.terminal_column ∧ u.terminal_row = t.terminal_row ∧
    u.terminal_color = t.terminal_color

theorem sameCursor_refl (t : Terminal) : SameCursor t t := ⟨rfl,rfl,rfl⟩

theorem sameCursor_trans {t u v : Terminal} (h : SameCursor t u) (h' : SameCursor u v) :
    SameCursor t v :=
  ⟨h'.1.trans h.1,h'.2.1.trans h.2.1,h'.2.2.trans h.2.2⟩

theorem onScreen_of_same {t u : Terminal} (h : SameCursor t u) (ht : OnScreen t) : OnScreen u :=
  ⟨h.1 ▸ ht.1,h.2.1 ▸ ht.2⟩

@[simp] theorem outb_vga_memory (port : Uint16) (value : Uint8) (t : Terminal) :
    (outb port value t).vga_memory = t.vga_memory := by
  simp only [outb]
  split_ifs <;> rfl

@[simp] theorem outb_terminal_color (port : Uint16) (value : Uint8) (t : Terminal) :
    (outb port value t).terminal_color = t.terminal_color := by
  simp only [outb]
  split_ifs <;> rfl

@[simp] theorem outb_terminal_row (port : Uint16) (value : Uint8) (t : Terminal) :
    (outb port value t).terminal_row = t.terminal_row := by
  simp only [outb]
  split_ifs <;> rfl

@[simp] theorem outb_terminal_column (port : Uint16) (value : Uint8) (t : Terminal) :
    (outb port value t).terminal_column = t.terminal_column := by
  simp only [outb]
  split_ifs <;> rfl

@[simp] theorem terminalMoveCursor_vga_memory (x y : ℕ) (t : Terminal) :
    (terminalMoveCursor x y t).vga_memory = t.vga_memory := by
  simp only [terminalMoveCursor]
  split_ifs <;> simp

@[simp] theorem terminalMoveCursor_terminal_color (x y : ℕ) (t : Terminal) :
    (terminalMoveCursor x y t).terminal_color = t.terminal_color := by
  simp only [terminalMoveCursor]
  split_ifs <;> simp

theorem terminalMoveCursor_cursor {x y : ℕ} (hx : x < 80) (hy : y < 25) (t : Terminal) :
    (terminalMoveCursor x y t).terminal_column = x ∧ (terminalMoveCursor x y t).terminal_row = y := by
  rw [terminalMoveCursor,if_neg (by omega)]
  simp

theorem terminalMoveCursor_onScreen (x y : ℕ) {t : Terminal} (ht : OnScreen t) :
    OnScreen (terminalMoveCursor x y t) := by
  by_cases h : x ≥ 80 ∨ y ≥ 25
  · rw [terminalMoveCursor,if_pos h]
    exact ht
  · obtain ⟨hc,hr⟩ := terminalMoveCursor_cursor (x := x) (y := y) (by omega) (by omega) t
    exact ⟨by omega,by omega⟩

theorem terminalMoveCursor_same {t : Terminal} (ht : OnScreen t) :
    SameCursor t (terminalMoveCursor t.terminal_column t.terminal_row t) := by
  obtain ⟨hc,hr⟩ := terminalMoveCursor_cursor ht.1 ht.2 t
  exact ⟨hc,hr,by simp⟩

theorem fillScreen_spec (color : Uint8) (vga : Vector Uint16 2000) :
    fillScreen color vga = some (Vector.replicate 2000 (vgaEntry 32#8 color)) := by
  have hflat : fillScreen color vga =
      storeLoop (fun _ _ => some (vgaEntry 32#8 color)) (0 : ℕ) (25 * 80) vga := by
    rw [← storeLoop_rows]
    simp only [fillScreen,Nat.zero_add]
  obtain ⟨b,hb,hget⟩ := storeLoop_fill (vgaEntry 32#8 color) 0 vga (k := 25 * 80) (by omega)
  rw [hflat,hb]
  refine congrArg some (ext_get? fun m hm => ?_)
  rw [hget,if_pos (by omega),get?_replicate _ hm]

theorem terminalPutentryat_spec (c color : Uint8) {x y : ℕ} (hx : x < 80) (hy : y < 25)
    (t : Terminal) : terminalPutentryat c color x y t =
      some {t with
        vga_memory := t.vga_memory.set (y * 80 + x) (vgaEntry c color) (cell_lt hy hx)} := by
  rw [terminalPutentryat,set?_eq _ _ (cell_lt hy hx) rfl,Option.map_some]

theorem terminalPutentryat_same (c color : Uint8) {x y : ℕ} (hx : x < 80) (hy : y < 25)
    (t : Terminal) : ∃ u, terminalPutentryat c color x y t = some u ∧ SameCursor t u :=
  ⟨_,terminalPutentryat_spec c color hx hy t,sameCursor_refl t⟩

theorem terminalDelete_same {t : Terminal} (ht : OnScreen t) :
    ∃ u, terminalDelete t = some u ∧ SameCursor t u := by
  rw [terminalDelete]
  exact terminalPutentryat_same 32#8 t.terminal_color ht.1 ht.2 t

theorem putLoop_same (color : Terminal → Uint8) (xs : List ℕ) (hxs : ∀ x ∈ xs, x < 80)
    (row : Terminal → ℕ) (t : Terminal) (hrow : ∀ u, SameCursor t u → row u < 25) :
    ∃ u, xs.foldlM (fun u x => terminalPutentryat 32#8 (color u) x (row u) u) t = some u ∧
      SameCursor t u := by
  refine foldlM_keeps (fun u hu x hx => ?_) (sameCursor_refl t)
  obtain ⟨v,hv,hs⟩ := terminalPutentryat_same 32#8 (color u) (hxs x hx) (hrow u hu) u
  exact ⟨v,hv,sameCursor_trans hu hs⟩

theorem terminalClearLine_same (line : ℕ) (t : Terminal) :
    ∃ u, terminalClearLine line t = some u ∧ SameCursor t u := by
  rw [terminalClearLine]
  split
  · exact ⟨t,rfl,sameCursor_refl t⟩
  · next h =>
    exact putLoop_same _ _ (fun x hx => List.mem_range.mp hx) (fun _ => line) t fun _ _ => by omega

theorem clearLines_same (ys : List ℕ) (t : Terminal) :
    ∃ u, ys.foldlM (fun t y => terminalClearLine y t) t = some u ∧ SameCursor t u := by
  refine foldlM_keeps (fun u hu y _ => ?_) (sameCursor_refl t)
  obtain ⟨v,hv,hs⟩ := terminalClearLine_same y u
  exact ⟨v,hv,sameCursor_trans hu hs⟩

-- from 26 lines on both loop counters start past the last row
theorem terminalScroll_large {lines : Uint32} (h : 25 < lines.toInt) (t : Terminal) :
    terminalScroll lines t = some t := by
  have hfirst : 25 - lines.toNat = 0 := by
    rw [BitVec.toInt_eq_toNat_cond] at h
    split at h <;> omega
  have hbottom : 25 - (25#32 - lines).toNat = 0 := by
    rw [BitVec.toInt_eq_toNat_cond] at h
    rw [BitVec.toNat_sub]
    split at h <;> simp <;> omega
  rw [terminalScroll,if_neg (by omega)]
  dsimp only
  rw [hfirst,hbottom]
  rfl

theorem terminalScroll_spec (lines : Uint32) {k : ℕ} (hk : lines.toInt = k) (h0 : 0 < k)
    (h : k ≤ 25) (t : Terminal) :
    ∃ vga, terminalScroll lines t = some {t with vga_memory := vga} ∧ ∀ m : ℕ, m < 2000 →
      get? vga m = if m < (25 - k) * 80 then get? t.vga_memory ((m + k * 80 : ℕ) : ℤ)
        else some (vgaEntry 32#8 t.terminal_color) := by
  have hfirst : lines.toNat = k := by
    rw [BitVec.toInt_eq_toNat_cond] at hk
    split at hk <;> omega
  have hbottom : (25#32 - lines).toNat = 25 - k := by
    rw [BitVec.toNat_sub,hfirst]
    simp
    omega
  obtain ⟨a,ha,hmoved⟩ := storeLoop_move t.vga_memory (d := k * 80) (k := (25 - k) * 80) (by omega)
  obtain ⟨b,hb,hblank⟩ := storeLoop_fill (vgaEntry 32#8 t.terminal_color) ((25 - k) * 80) a
    (k := (25 - (25 - k)) * 80) (by omega)
  have hmove : (List.range' k (25 - k)).foldlM (fun vga y =>
      storeLoop (fun vga x => get? vga (y * 80 + x : ℕ)) ((y - k) * 80 : ℕ) 80 vga)
        t.vga_memory = some a := by
    rw [← ha,List.range'_eq_map_range,List.foldlM_map]
    refine Eq.trans ?_ (storeLoop_rows _ 80 0 (25 - k) t.vga_memory)
    simp only [Nat.add_sub_cancel_left,Nat.add_mul,Nat.zero_add]
    push_cast
    simp only [Int.add_comm,Int.add_left_comm]
  have hfill := (storeLoop_rows_from (fun _ _ => some (vgaEntry 32#8 t.terminal_color)) 80
    (25 - k) 25 a).trans hb
  refine ⟨b,?_,fun m hm => ?_⟩
  · rw [terminalScroll,if_neg (by omega)]
    dsimp only
    rw [hfirst,hbottom]
    refine Option.bind_eq_some_iff.mpr ⟨a,hmove,?_⟩
    exact Option.bind_eq_some_iff.mpr ⟨b,hfill,rfl⟩
  · rw [hblank,hmoved]
    by_cases hlow : m < (25 - k) * 80
    · rw [if_neg (by omega),if_pos hlow,if_pos hlow]
    · rw [if_pos (by omega),if_neg hlow]

theorem terminalScroll_same (lines : Uint32) (t : Terminal) :
    ∃ u, terminalScroll lines t = some u ∧ SameCursor t u := by
  rcases Int.lt_or_le 25 lines.toInt with hlarge | hsmall
  · exact ⟨t,terminalScroll_large hlarge t,sameCursor_refl t⟩
  rcases Int.lt_or_le 0 lines.toInt with hpos | hneg
  · obtain ⟨vga,hv,-⟩ := terminalScroll_spec lines (k := lines.toInt.toNat) (by omega)
      (by omega) (by omega) t
    exact ⟨_,hv,sameCursor_refl t⟩
  · exact ⟨t,by rw [terminalScroll,if_pos hneg],sameCursor_refl t⟩

theorem terminalNewline_onScreen {t : Terminal} (h : t.terminal_row < 25) :
    ∃ u, terminalNewline t = some u ∧ OnScreen u := by
  rw [terminalNewline]
  dsimp only
  split
  · obtain ⟨u,hu,hs⟩ := terminalScroll_same 1#32
      {t with terminal_column := 0, terminal_row := t.terminal_row + 1}
    refine ⟨{u with terminal_row := 24},by rw [hu]; rfl,?_,by simp⟩
    have hc : u.terminal_column = 0 := hs.1
    simp [hc]
  · refine ⟨_,rfl,by simp,?_⟩
    change t.terminal_row + 1 < 25
    omega

theorem terminalBackspace_onScreen {t : Terminal} (ht : OnScreen t) :
    ∃ u, terminalBackspace t = some u ∧ OnScreen u := by
  obtain ⟨hc,hr⟩ := ht
  rw [terminalBackspace]
  split_ifs with hcol hrow
  · obtain ⟨u,hu,hs⟩ := terminalPutentryat_same 32#8 t.terminal_color
      (x := t.terminal_column - 1) (y := t.terminal_row) (by omega) hr
      {t with terminal_column := t.terminal_column - 1}
    refine ⟨_,Option.bind_eq_some_iff.mpr ⟨u,hu,rfl⟩,terminalMoveCursor_onScreen _ _ ?_⟩
    exact onScreen_of_same hs ⟨by change t.terminal_column - 1 < 80; omega,hr⟩
  · obtain ⟨u,hu,hs⟩ := terminalPutentryat_same 32#8 t.terminal_color
      (x := 79) (y := t.terminal_row - 1) (by omega) (by omega)
      {t with terminal_row := t.terminal_row - 1, terminal_column := 79}
    refine ⟨_,Option.bind_eq_some_iff.mpr ⟨u,hu,rfl⟩,terminalMoveCursor_onScreen _ _ ?_⟩
    exact onScreen_of_same hs ⟨by change 79 < 80; omega,by change t.terminal_row - 1 < 25; omega⟩
  · exact ⟨t,rfl,hc,hr⟩

theorem putVisible_onScreen (c : Uint8) {t : Terminal} (ht : OnScreen t) :
    ∃ u, putVisible c t = some u ∧ OnScreen u := by
  obtain ⟨u,hu,hs⟩ := terminalPutentryat_same c t.terminal_color ht.1 ht.2 t
  obtain ⟨hc,hr⟩ := onScreen_of_same hs ht
  rw [putVisible,hu]
  change ∃ v, (if u.terminal_column + 1 = 80 then
    terminalNewline {u with terminal_column := u.terminal_column + 1} else
    some {u with terminal_column := u.terminal_column + 1}) = some v ∧ OnScreen v
  split_ifs with hfull
  · exact terminalNewline_onScreen hr
  · refine ⟨_,rfl,?_,hr⟩
    change u.terminal_column + 1 < 80
    omega

theorem putcharWith_onScreen {tab : Terminal → Option Terminal}
    (htab : ∀ t, OnScreen t → ∃ u, tab t = some u ∧ OnScreen u) (c : Uint8) {t : Terminal}
    (ht : OnScreen t) : ∃ u, putcharWith tab c t = some u ∧ OnScreen u := by
  have hmove : ∀ {o : Option Terminal}, (∃ u, o = some u ∧ OnScreen u) →
      ∃ u, o.map (fun t => terminalMoveCursor t.terminal_column t.terminal_row t) = some u ∧
        OnScreen u := fun ⟨u,hu,hs⟩ =>
    ⟨_,Option.map_eq_some_iff.mpr ⟨u,hu,rfl⟩,terminalMoveCursor_onScreen _ _ hs⟩
  refine hmove ?_
  split_ifs with hnl hcr hbs htb
  · exact terminalNewline_onScreen ht.2
  · exact ⟨_,rfl,by simp,ht.2⟩
  · exact terminalBackspace_onScreen ht
  · exact htab t ht
  · exact putVisible_onScreen c ht

theorem terminalTab_onScreen {t : Terminal} (ht : OnScreen t) :
    ∃ u, terminalTab t = some u ∧ OnScreen u :=
  foldlM_keeps (fun _ hs _ _ => putcharWith_onScreen (fun s hs => ⟨s,rfl,hs⟩) 32#8 hs) ht

theorem terminalPutchar_onScreen (c : Uint8) {t : Terminal} (ht : OnScreen t) :
    ∃ u, terminalPutchar c t = some u ∧ OnScreen u :=
  putcharWith_onScreen (fun _ hs => terminalTab_onScreen hs) c ht

theorem putchars_onScreen (data : List Uint8) {t : Terminal} (ht : OnScreen t) :
    ∃ u, data.foldlM (fun t c => terminalPutchar c t) t = some u ∧ OnScreen u :=
  foldlM_keeps (fun _ hs c _ => terminalPutchar_onScreen c hs) ht

theorem terminalClearScreenFromCursor_same {t : Terminal} (ht : OnScreen t) :
    ∃ u, terminalClearScreenFromCursor t = some u ∧ SameCursor t u := by
  obtain ⟨hc,hr⟩ := ht
  obtain ⟨u,hu,hs⟩ := putLoop_same Terminal.terminal_color
    (List.range' t.terminal_column (80 - t.terminal_column))
    (fun x hx => by have := List.mem_range'_1.mp hx; omega) Terminal.terminal_row t
    fun u hu => by rw [hu.2.1]; exact hr
  obtain ⟨v,hv,hs'⟩ := clearLines_same
    (List.range' (u.terminal_row + 1) (25 - (u.terminal_row + 1))) u
  exact ⟨v,Option.bind_eq_some_iff.mpr ⟨u,hu,hv⟩,sameCursor_trans hs hs'⟩

theorem terminalClearScreenToCursor_same {t : Terminal} (ht : OnScreen t) :
    ∃ u, terminalClearScreenToCursor t = some u ∧ SameCursor t u := by
  obtain ⟨u,hu,hs⟩ := clearLines_same (List.range t.terminal_row) t
  obtain ⟨hc,hr⟩ := onScreen_of_same hs ht
  obtain ⟨v,hv,hs'⟩ := putLoop_same Terminal.terminal_color
    (List.range (u.terminal_column + 1))
    (fun x hx => by have := List.mem_range.mp hx; omega) Terminal.terminal_row u
    fun v hv => by rw [hv.2.1]; exact hr
  exact ⟨v,Option.bind_eq_some_iff.mpr ⟨u,hu,hv⟩,sameCursor_trans hs hs'⟩

theorem terminalClear_spec (t : Terminal) : terminalClear t = some (terminalMoveCursor 0 0
    {t with
      vga_memory := Vector.replicate 2000 (vgaEntry 32#8 t.terminal_color)
      terminal_row := 0
      terminal_column := 0}) := by
  rw [terminalClear,fillScreen_spec]
  rfl

theorem terminalInitialize_onScreen (t : Terminal) :
    ∃ u, terminalInitialize t = some u ∧ OnScreen u := by
  rw [terminalInitialize,fillScreen_spec]
  refine ⟨_,rfl,terminalMoveCursor_onScreen 0 0 ?_⟩
  simp [terminalSetCursorVisible,OnScreen]

theorem terminalStep_onScreen (c : TerminalCall) {t : Terminal} (ht : OnScreen t) :
    ∃ u, terminalStep t c = some u ∧ OnScreen u := by
  have hkeep : ∀ {o : Option Terminal}, (∃ u, o = some u ∧ SameCursor t u) →
      ∃ u, o = some u ∧ OnScreen u := fun ⟨u,hu,hs⟩ => ⟨u,hu,onScreen_of_same hs ht⟩
  cases c with
  | putchar c => exact terminalPutchar_onScreen c ht
  | write data => exact putchars_onScreen data ht
  | writestring data => exact putchars_onScreen _ ht
  | newline => exact terminalNewline_onScreen ht.2
  | backspace => exact terminalBackspace_onScreen ht
  | delete => exact hkeep (terminalDelete_same ht)
  | tab => exact terminalTab_onScreen ht
  | moveCursor x y => exact ⟨_,rfl,terminalMoveCursor_onScreen _ _ ht⟩
  | clear =>
    exact ⟨_,terminalClear_spec t,terminalMoveCursor_onScreen 0 0
      ⟨show 0 < 80 by omega,show 0 < 25 by omega⟩⟩
  | scroll lines => exact hkeep (terminalScroll_same lines t)
  | clearLine line => exact hkeep (terminalClearLine_same _ t)
  | clearScreenFromCursor => exact hkeep (terminalClearScreenFromCursor_same ht)
  | clearScreenToCursor => exact hkeep (terminalClearScreenToCursor_same ht)
  | setcolor color => exact ⟨_,rfl,ht⟩

theorem terminal_stays_on_screen (t : Terminal) (calls : List TerminalCall) :
    ∃ u, (terminalInitialize t).bind (fun s => run terminalStep s calls) = some u ∧
      u.terminal_column < 80 ∧ u.terminal_row < 25 := by
  obtain ⟨s,hs,hon⟩ := terminalInitialize_onScreen t
  obtain ⟨u,hu,hc,hr⟩ := foldlM_keeps (P := OnScreen) (f := terminalStep) (l := calls)
    (fun _ hp c _ => terminalStep_onScreen c hp) hon
  refine ⟨u,?_,hc,hr⟩
  rw [hs,Option.bind_some,run_eq_foldlM]
  exact hu

end KluxOS
