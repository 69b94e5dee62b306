import KluxOS.Drivers.TerminalText

namespace KluxOS

open CArray RowMajor Newest TextRows

-- the other driver; terminal_buffer is VGA_MEMORY from its terminal_initialize on
structure TextMode where
  terminal_buffer : Vector Uint16 2000
  terminal_color : Uint8
  terminal_row : ℕ
  terminal_column : ℕ

namespace TextMode

def terminalClear (t : TextMode) : Option TextMode :=
  (fillScreen t.terminal_color t.terminal_buffer).map fun vga => {t with terminal_buffer := vga}

def terminalInitialize (t : TextMode) : Option TextMode :=
  terminalClear {t with
    terminal_row := 0
    terminal_column := 0
    terminal_color := vgaEntryColor .white .black}

def terminalSetcolor (color : Uint8) (t : TextMode) : TextMode := {t with terminal_color := color}

def terminalPutchar (c : Uint8) (t : TextMode) : Option TextMode :=
  if c = 10#8 then
    let row := t.terminal_row + 1
    some {t with terminal_column := 0, terminal_row := if row = 25 then 0 else row}
  else do
    let vga ← set? t.terminal_buffer (t.terminal_row * 80 + t.terminal_column : ℕ)
      (vgaEntry c t.terminal_color)
    let t := {t with terminal_buffer := vga, terminal_column := t.terminal_column + 1}
    if t.terminal_column = 80 then
      let row := t.terminal_row + 1
      some {t with terminal_column := 0, terminal_row := if row = 25 then 0 else row}
    else
      some t

def terminalWrite (data : List Uint8) (t : TextMode) : Option TextMode :=
  data.foldlM (fun t c => terminalPutchar c t) t

def terminalWritestring (data : List Uint8) (t : TextMode) : Option TextMode :=
  (data.takeWhile fun c => c ≠ 0#8).foldlM (fun t c => terminalPutchar c t) t

end TextMode

def OverlayShows (t : TextMode) (rows : List (List Uint8)) : Prop :=
  ∀ y < 25, ∀ x < 80, get? t.terminal_buffer (y * 80 + x : ℕ) =
    some (vgaEntry (overlay 25 32#8 rows y x) t.terminal_color)

structure ShowsOverlay (color : Uint8) (t : TextMode) (l : Log Uint8) : Prop where
  column : t.terminal_column = l.current.length
  row : t.terminal_row = l.completed.length % 25
  color : t.terminal_color = color
  short : l.current.length < 80
  cells : OverlayShows t l.rows

theorem wrapped_row {row : ℕ} {rows : List (List Uint8)} {r : List Uint8}
    (h : row = rows.length % 25) :
    (if row + 1 = 25 then 0 else row + 1) = (rows ++ [r]).length % 25 := by
  rw [List.length_append,List.length_singleton]
  subst h
  split <;> omega

theorem store_overlays {t : TextMode} {rows : List (List Uint8)} {r : List Uint8} (c : Uint8)
    (hcol : t.terminal_column = r.length) (hshort : r.length < 80)
    (hrow : t.terminal_row = rows.length % 25) (h : OverlayShows t (rows ++ [r])) :
    ∃ vga, set? t.terminal_buffer (t.terminal_row * 80 + t.terminal_column : ℕ)
        (vgaEntry c t.terminal_color) = some vga ∧
      OverlayShows {t with terminal_buffer := vga} (rows ++ [r ++ [c]]) := by
  have hrow25 : t.terminal_row < 25 := by rw [hrow]; exact Nat.mod_lt _ (by omega)
  have hcol80 : t.terminal_column < 80 := by rw [hcol]; exact hshort
  refine ⟨_,set?_eq _ _ (cell_lt hrow25 hcol80) rfl,fun y hy x hx => ?_⟩
  dsimp only
  rw [get?_set,overlay_put,h y hy x hx]
  by_cases hat : y = rows.length % 25 ∧ x = r.length
  · rw [if_pos (by rw [hrow,hcol,hat.1,hat.2]),if_pos hat]
  · rw [if_neg hat,if_neg]
    intro heq
    obtain ⟨hy,hx⟩ := cell_unique hx hcol80 heq
    exact hat ⟨hy.trans hrow,hx.trans hcol⟩

theorem putchar_overlays {color : Uint8} {t : TextMode} {l : Log Uint8} (c : Uint8)
    (h : ShowsOverlay color t l) :
    ∃ u, TextMode.terminalPutchar c t = some u ∧ ShowsOverlay color u (l.put 80 10#8 c) := by
  rw [TextMode.terminalPutchar,Log.put]
  split_ifs with hnl hfull
  · refine ⟨_,rfl,rfl,wrapped_row h.row,h.color,Nat.succ_pos 79,fun y hy x hx => ?_⟩
    change _ = some (vgaEntry (overlay 25 32#8 (l.rows ++ [[]]) y x) _)
    rw [overlay_nil_row]
    exact h.cells y hy x hx
  · obtain ⟨vga,hv,hshow⟩ := store_overlays c h.column h.short h.row h.cells
    rw [hv]
    refine ⟨_,if_pos (by rw [← hfull,← h.column]),rfl,wrapped_row h.row,h.color,Nat.succ_pos 79,
      fun y hy x hx => ?_⟩
    change _ = some (vgaEntry (overlay 25 32#8 (l.completed ++ [l.current ++ [c]] ++ [[]]) y x) _)
    rw [overlay_nil_row]
    exact hshow y hy x hx
  · obtain ⟨vga,hv,hshow⟩ := store_overlays c h.column h.short h.row h.cells
    have hshort := h.short
    have hlen : (l.current ++ [c]).length = l.current.length + 1 := by simp
    rw [hv]
    refine ⟨_,if_neg (by change t.terminal_column + 1 ≠ 80; rw [h.column]; exact hfull),?_,h.row,
      h.color,by change (l.current ++ [c]).length < 80; omega,hshow⟩
    exact (congrArg (· + 1) h.column).trans hlen.symm

theorem write_overlays {color : Uint8} (s : List Uint8) {t : TextMode} {l : Log Uint8}
    (h : ShowsOverlay color t l) :
    ∃ u, TextMode.terminalWrite s t = some u ∧
      ShowsOverlay color u (s.foldl (Log.put 80 10#8) l) := by
  induction s generalizing t l with
  | nil => exact ⟨t,rfl,h⟩
  | cons c s ih =>
    obtain ⟨u,hu,hput⟩ := putchar_overlays c h
    obtain ⟨v,hv,hall⟩ := ih hput
    refine ⟨v,?_,hall⟩
    rw [TextMode.terminalWrite,List.foldlM_cons,hu]
    exact hv

structure Terminal.Cleared (color : Uint8) (t : Terminal) : Prop where
  vga_memory : t.vga_memory = Vector.replicate 2000 (vgaEntry 32#8 color)
  terminal_color : t.terminal_color = color
  terminal_row : t.terminal_row = 0
  terminal_column : t.terminal_column = 0

structure TextMode.Cleared (color : Uint8) (t : TextMode) : Prop where
  terminal_buffer : t.terminal_buffer = Vector.replicate 2000 (vgaEntry 32#8 color)
  terminal_color : t.terminal_color = color
  terminal_row : t.terminal_row = 0
  terminal_column : t.terminal_column = 0

theorem cleared_cell {y x : ℕ} (hy : y < 25) (hx : x < 80) (v : Uint16) :
    get? (Vector.replicate 2000 v) (y * 80 + x : ℕ) = some v :=
  get?_replicate v (cell_lt hy hx)

theorem cell_no_text (y x : ℕ) : cell 32#8 (newest 25 [([] : List Uint8)]) y x = 32#8 := by
  rw [newest_short (by simp),← List.nil_append [[]],cell_nil_row]
  rfl

theorem cleared_shows {color : Uint8} {t : Terminal} (h : t.Cleared color) :
    ShowsText color t ⟨[],[]⟩ := by
  refine ⟨h.terminal_column,h.terminal_row,h.terminal_color,Nat.succ_pos 79,fun y hy x hx => ?_⟩
  rw [h.vga_memory,h.terminal_color,cleared_cell hy hx]
  exact congrArg (fun c => some (vgaEntry c color)) (cell_no_text y x).symm

theorem cleared_overlays {color : Uint8} {t : TextMode} (h : t.Cleared color) :
    ShowsOverlay color t ⟨[],[]⟩ := by
  refine ⟨h.terminal_column,h.terminal_row,h.terminal_color,Nat.succ_pos 79,fun y hy x hx => ?_⟩
  rw [h.terminal_buffer,h.terminal_color,cleared_cell hy hx,overlay_short hy x (by simp [Log.rows])]
  rw [← newest_short (n := 25) (l := Log.rows ⟨[],[]⟩) (by simp [Log.rows])]
  exact congrArg (fun c => some (vgaEntry c color)) (cell_no_text y x).symm

theorem vgaEntry_inj {a b color : Uint8} : vgaEntry a color = vgaEntry b color ↔ a = b := by
  refine ⟨fun h => ?_,fun h => by rw [h]⟩
  have hlow : ∀ c : Uint8, (vgaEntry c color).setWidth 8 = c := fun c => by
    ext i hi
    simp [vgaEntry]
  rw [← hlow a,h,hlow b]

def DriversAgree (s : List Uint8) (t : Terminal) (b : TextMode) : Prop :=
  ∃ u v, terminalWrite s t = some u ∧ TextMode.terminalWrite s b = some v ∧
    u.vga_memory = v.terminal_buffer ∧ u.terminal_column = v.terminal_column ∧
      u.terminal_row = v.terminal_row

theorem same_cells_iff {color : Uint8} {u : Terminal} {v : TextMode} {l : Log Uint8}
    (hu : ShowsText color u l) (hv : ShowsOverlay color v l) :
    u.vga_memory = v.terminal_buffer ↔ ∀ y < 25, ∀ x < 80,
      cell 32#8 (newest 25 l.rows) y x = overlay 25 32#8 l.rows y x := by
  constructor
  · intro heq y hy x hx
    have hcell := hu.cells y hy x hx
    rw [heq,hv.cells y hy x hx,hu.color,hv.color,Option.some.injEq,vgaEntry_inj] at hcell
    exact hcell.symm
  · intro hall
    refine ext_get? fun m hm => ?_
    have hy : m / 80 < 25 := by omega
    have hx : m % 80 < 80 := by omega
    rw [show m = m / 80 * 80 + m % 80 by omega,hu.cells _ hy _ hx,hv.cells _ hy _ hx,hu.color,
      hv.color,hall _ hy _ hx]

theorem drivers_agree_iff {color : Uint8} {s : List Uint8} {t : Terminal} {b : TextMode}
    (hs : ∀ c ∈ s, Printable c ∨ c = 10#8) (ht : t.Cleared color) (hb : b.Cleared color) :
    DriversAgree s t b ↔ (wrap 80 10#8 s).completed.length ≤ 24 ∨
      (wrap 80 10#8 s).completed.length % 25 = 24 ∧
        ∀ j < (wrap 80 10#8 s).rows.length, (wrap 80 10#8 s).rows.length ≤ j + 25 →
          Covers 80 25 32#8 (wrap 80 10#8 s).rows j := by
  obtain ⟨u,hu,hshow⟩ := terminalWrite_shows hs (cleared_shows ht)
  obtain ⟨v,hv,hover⟩ := write_overlays s (cleared_overlays hb)
  change ShowsText color u (wrap 80 10#8 s) at hshow
  change ShowsOverlay color v (wrap 80 10#8 s) at hover
  have hrows : (wrap 80 10#8 s).rows.length = (wrap 80 10#8 s).completed.length + 1 := by
    rw [Log.rows,List.length_append,List.length_singleton]
  have hagree : DriversAgree s t b ↔ u.vga_memory = v.terminal_buffer ∧
      u.terminal_row = v.terminal_row := by
    constructor
    · rintro ⟨u',v',hu',hv',hcells,-,hrow⟩
      obtain rfl := Option.some.inj (hu.symm.trans hu')
      obtain rfl := Option.some.inj (hv.symm.trans hv')
      exact ⟨hcells,hrow⟩
    · rintro ⟨hcells,hrow⟩
      exact ⟨u,v,hu,hv,hcells,hshow.column.trans hover.column.symm,hrow⟩
  rw [hagree,same_cells_iff hshow hover,hshow.row,hover.row]
  rcases Nat.lt_or_ge (wrap 80 10#8 s).completed.length 25 with hfits | hpast
  · refine iff_of_true ⟨fun y hy x hx => ?_,by omega⟩ (.inl (by omega))
    rw [overlay_short hy x (by omega),newest_short (by omega)]
  · rw [or_iff_right (by omega),and_comm]
    have hrow : min (wrap 80 10#8 s).completed.length 24 =
        (wrap 80 10#8 s).completed.length % 25 ↔
          (wrap 80 10#8 s).completed.length % 25 = 24 := by omega
    rw [hrow]
    exact and_congr_right fun hlast => newest_overlay_iff (by omega)

def clearedTerminal : Terminal where
  vga_memory := Vector.replicate 2000 (vgaEntry 32#8 7#8)
  terminal_color := 7#8
  terminal_row := 0
  terminal_column := 0
  cursor_visible := true
  crtc_index := 0#8
  crtc := fun _ => 0#8

def clearedTextMode : TextMode where
  terminal_buffer := Vector.replicate 2000 (vgaEntry 32#8 7#8)
  terminal_color := 7#8
  terminal_row := 0
  terminal_column := 0

theorem clearedTerminal_cleared : clearedTerminal.Cleared 7#8 := ⟨rfl,rfl,rfl,rfl⟩

theorem clearedTextMode_cleared : clearedTextMode.Cleared 7#8 := ⟨rfl,rfl,rfl,rfl⟩

-- fifty rows with one letter each, the last one without its newline
def letterRows : List Uint8 := (List.replicate 49 [65#8,10#8]).flatten ++ [65#8]

theorem letterRows_cover {j : ℕ} (hj : j < 50) :
    Covers 80 25 32#8 (List.replicate 50 [65#8]) j := by
  intro x _ hlength i hij _ _ c hc
  rw [List.getElem?_replicate,if_pos hj] at hlength
  rw [List.getElem?_replicate,if_pos (hij.trans hj)] at hc
  have hx : [65#8][x]? = none := List.getElem?_eq_none hlength
  cases hx.symm.trans hc

-- the old driver starts again at the top of the screen, and covers the rows it finds there
theorem drivers_agree_fifty_rows : DriversAgree letterRows clearedTerminal clearedTextMode := by
  have hrows : (wrap 80 10#8 letterRows).rows = List.replicate 50 [65#8] := by decide
  refine (drivers_agree_iff (by decide) clearedTerminal_cleared clearedTextMode_cleared).mpr
    (.inr ⟨by decide,fun j hj _ => ?_⟩)
  rw [hrows] at hj ⊢
  exact letterRows_cover (hj.trans_eq List.length_replicate)

theorem drivers_differ_past_bottom :
    ¬ DriversAgree (List.replicate 25 10#8) clearedTerminal clearedTextMode := by
  rintro ⟨u,v,hu,hv,-,-,hrow⟩
  obtain ⟨u',hu',hshow⟩ := terminalWrite_shows (s := List.replicate 25 10#8) (by decide)
    (cleared_shows clearedTerminal_cleared)
  obtain ⟨v',hv',hover⟩ := write_overlays (List.replicate 25 10#8)
    (cleared_overlays clearedTextMode_cleared)
  obtain rfl := Option.some.inj (hu.symm.trans hu')
  obtain rfl := Option.some.inj (hv.symm.trans hv')
  rw [hshow.row,hover.row] at hrow
  exact absurd hrow (by decide)

end KluxOS
