import KluxOS.Drivers.TerminalBounds
import KluxOS.Lib.TextRows

namespace KluxOS

open CArray RowMajor Run Newest TextRows

def Printable (c : Uint8) : Prop := 0x20#8 ≤ c ∧ c ≤ 0x7E#8

instance (c : Uint8) : Decidable (Printable c) := inferInstanceAs (Decidable (_ ∧ _))

def CellsShow (t : Terminal) (rows : List (List Uint8)) : Prop :=
  ∀ y < 25, ∀ x < 80, get? t.vga_memory (y * 80 + x : ℕ) =
    some (vgaEntry (cell 32#8 (newest 25 rows) y x) t.terminal_color)

structure ShowsText (color : Uint8) (t : Terminal) (l : Log Uint8) : Prop where
  column : t.terminal_column = l.current.length
  row : t.terminal_row = min l.completed.length 24
  color : t.terminal_color = color
  short : l.current.length < 80
  cells : CellsShow t l.rows

theorem putentryat_shows {t : Terminal} {rows : List (List Uint8)} {r : List Uint8} (c : Uint8)
    (hcol : t.terminal_column = r.length) (hshort : r.length < 80)
    (hrow : t.terminal_row = min rows.length 24) (h : CellsShow t (rows ++ [r])) :
    ∃ u, terminalPutentryat c t.terminal_color t.terminal_column t.terminal_row t = some u ∧
      SameCursor t u ∧ CellsShow u (rows ++ [r ++ [c]]) := by
  refine ⟨_,terminalPutentryat_spec c t.terminal_color (by omega) (by omega) t,
    sameCursor_refl t,fun y hy x hx => ?_⟩
  dsimp only
  have hcell := h y hy x hx
  rw [newest_succ_concat] at hcell ⊢
  rw [get?_set,cell_concat,newest_length,hcell]
  by_cases hat : y = min rows.length 24 ∧ x = r.length
  · rw [if_pos (by rw [hrow,hcol,hat.1,hat.2]),if_pos hat]
  · rw [if_neg hat,if_neg]
    intro heq
    have := cell_unique hx (by omega) heq
    omega

theorem newline_shows {t : Terminal} {rows : List (List Uint8)} {r : List Uint8}
    (hrow : t.terminal_row = min rows.length 24) (h : CellsShow t (rows ++ [r])) :
    ∃ u, terminalNewline t = some u ∧ u.terminal_column = 0 ∧
      u.terminal_row = min (rows ++ [r]).length 24 ∧ u.terminal_color = t.terminal_color ∧
        CellsShow u (rows ++ [r] ++ [[]]) := by
  have hlen : (rows ++ [r]).length = rows.length + 1 := by simp
  rw [terminalNewline]
  dsimp only
  split
  · next hbottom =>
    obtain ⟨vga,hv,hget⟩ := terminalScroll_spec 1#32 (k := 1) rfl (by omega) (by omega)
      {t with terminal_column := 0, terminal_row := t.terminal_row + 1}
    refine ⟨_,Option.map_eq_some_iff.mpr ⟨_,hv,rfl⟩,rfl,by change 24 = _; omega,rfl,
      fun y hy x hx => ?_⟩
    change get? vga _ = some (vgaEntry _ t.terminal_color)
    rw [newest_succ_concat,cell_nil_row,newest_tail (by omega),cell_tail,
      hget _ (cell_lt hy hx)]
    rcases Nat.lt_or_ge y 24 with hup | hlast
    · rw [if_pos (by omega),← h (y + 1) (by omega) x hx]
      exact congrArg (get? t.vga_memory) (by omega)
    · rw [if_neg (by omega),cell_beyond (by rw [newest_length]; omega)]
  · next htop =>
    refine ⟨_,rfl,rfl,by change t.terminal_row + 1 = _; omega,rfl,fun y hy x hx => ?_⟩
    change get? t.vga_memory _ = some (vgaEntry _ t.terminal_color)
    rw [h y hy x hx,newest_short (l := rows ++ [r]) (by omega),newest_short,cell_nil_row]
    rw [List.length_append,List.length_singleton]
    omega

theorem putVisible_shows {color : Uint8} {t : Terminal} {l : Log Uint8} {c : Uint8}
    (hc : c ≠ 10#8) (h : ShowsText color t l) :
    ∃ u, putVisible c t = some u ∧ ShowsText color u (l.put 80 10#8 c) := by
  obtain ⟨u,hu,⟨hcol,hrow,hcolor⟩,hcells⟩ :=
    putentryat_shows c h.column h.short h.row h.cells
  rw [putVisible,hu]
  change ∃ v, (if u.terminal_column + 1 = 80 then
    terminalNewline {u with terminal_column := u.terminal_column + 1} else
    some {u with terminal_column := u.terminal_column + 1}) = some v ∧ _
  rw [Log.put,if_neg hc]
  split_ifs with hfull hput hput
  · obtain ⟨v,hv,hc0,hr,hclr,hshow⟩ := newline_shows
      (t := {u with terminal_column := u.terminal_column + 1}) (hrow.trans h.row) hcells
    exact ⟨v,hv,hc0,hr,hclr.trans (hcolor.trans h.color),by simp,hshow⟩
  · exact absurd (by rw [← h.column,← hcol]; exact hfull) hput
  · exact absurd (by rw [hcol,h.column]; exact hput) hfull
  · refine ⟨_,rfl,?_,hrow.trans h.row,hcolor.trans h.color,?_,hcells⟩
    · change u.terminal_column + 1 = (l.current ++ [c]).length
      rw [hcol,h.column,List.length_append,List.length_singleton]
    · have := h.short
      rw [List.length_append,List.length_singleton]
      omega

theorem showsText_move {color : Uint8} {t : Terminal} {l : Log Uint8} (h : ShowsText color t l) :
    ShowsText color (terminalMoveCursor t.terminal_column t.terminal_row t) l := by
  have hon : OnScreen t := ⟨by rw [h.column]; exact h.short,by rw [h.row]; omega⟩
  obtain ⟨hcol,hrow,hcolor⟩ := terminalMoveCursor_same hon
  refine ⟨hcol.trans h.column,hrow.trans h.row,hcolor.trans h.color,h.short,fun y hy x hx => ?_⟩
  rw [terminalMoveCursor_vga_memory,hcolor]
  exact h.cells y hy x hx

theorem terminalPutchar_shows {color : Uint8} {t : Terminal} {l : Log Uint8} {c : Uint8}
    (hc : Printable c ∨ c = 10#8) (h : ShowsText color t l) :
    ∃ u, terminalPutchar c t = some u ∧ ShowsText color u (l.put 80 10#8 c) := by
  have hmove : ∀ {o : Option Terminal}, (∃ u, o = some u ∧ ShowsText color u (l.put 80 10#8 c)) →
      ∃ u, o.map (fun t => terminalMoveCursor t.terminal_column t.terminal_row t) = some u ∧
        ShowsText color u (l.put 80 10#8 c) := fun ⟨u,hu,hs⟩ =>
    ⟨_,Option.map_eq_some_iff.mpr ⟨u,hu,rfl⟩,showsText_move hs⟩
  refine hmove ?_
  by_cases hnl : c = 10#8
  · obtain ⟨u,hu,hc0,hr,hclr,hshow⟩ := newline_shows h.row h.cells
    rw [if_pos hnl,Log.put,if_pos hnl]
    exact ⟨u,hu,hc0,hr,hclr.trans h.color,by simp,hshow⟩
  · have hprint : Printable c := hc.resolve_right hnl
    have hctl : ∀ d : Uint8, d < 0x20#8 → c ≠ d := by
      rintro d hd rfl
      exact absurd hprint.1 (by simpa using hd)
    rw [if_neg hnl,if_neg (hctl _ (by decide)),if_neg (hctl _ (by decide)),
      if_neg (hctl _ (by decide))]
    exact putVisible_shows hnl h

theorem terminalWrite_shows {color : Uint8} {s : List Uint8} {t : Terminal} {l : Log Uint8}
    (hs : ∀ c ∈ s, Printable c ∨ c = 10#8) (h : ShowsText color t l) :
    ∃ u, terminalWrite s t = some u ∧ ShowsText color u (s.foldl (Log.put 80 10#8) l) := by
  induction s generalizing t l with
  | nil => exact ⟨t,rfl,h⟩
  | cons c s ih =>
    obtain ⟨u,hu,hput⟩ := terminalPutchar_shows (hs c List.mem_cons_self) h
    obtain ⟨v,hv,hall⟩ := ih (fun d hd => hs d (List.mem_cons_of_mem c hd)) hput
    refine ⟨v,?_,hall⟩
    rw [terminalWrite,List.foldlM_cons,hu]
    exact hv

theorem terminalClear_shows (t : Terminal) :
    ∃ u, terminalClear t = some u ∧ ShowsText t.terminal_color u ⟨[],[]⟩ := by
  refine ⟨_,terminalClear_spec t,showsText_move (t := {t with
    vga_memory := Vector.replicate 2000 (vgaEntry 32#8 t.terminal_color)
    terminal_row := 0
    terminal_column := 0}) ⟨rfl,rfl,rfl,Nat.succ_pos 79,fun y hy x hx => ?_⟩⟩
  change get? (Vector.replicate 2000 _) _ = _
  rw [get?_replicate _ (cell_lt hy hx)]
  rcases Nat.eq_zero_or_pos y with rfl | hpos
  · rfl
  · rw [cell_beyond (by rw [newest_length]; change min 1 25 ≤ y; omega)]

theorem screen_shows_tail (t : Terminal) (color : Uint8) (s : List Uint8)
    (hs : ∀ c ∈ s, Printable c ∨ c = 10#8) :
    ∃ u, (terminalClear (terminalSetcolor color t)).bind (terminalWrite s) = some u ∧
      u.terminal_column = (wrap 80 10#8 s).current.length ∧
      u.terminal_row = min (wrap 80 10#8 s).completed.length 24 ∧
      ∀ y < 25, ∀ x < 80, get? u.vga_memory (y * 80 + x : ℕ) =
        some (vgaEntry (cell 32#8 (newest 25 (wrap 80 10#8 s).rows) y x) color) := by
  obtain ⟨v,hv,hclear⟩ := terminalClear_shows (terminalSetcolor color t)
  obtain ⟨u,hu,hshow⟩ := terminalWrite_shows hs hclear
  refine ⟨u,Option.bind_eq_some_iff.mpr ⟨v,hv,hu⟩,hshow.column,hshow.row,fun y hy x hx => ?_⟩
  have hcell := hshow.cells y hy x hx
  rw [hshow.color] at hcell
  exact hcell

def powerOn : Terminal where
  vga_memory := Vector.replicate 2000 0#16
  terminal_color := 0#8
  terminal_row := 0
  terminal_column := 0
  cursor_visible := false
  crtc_index := 0#8
  crtc := fun _ => 0#8

-- the letters A to Z, each on a line of its own
def alphabetRows : List (List Uint8) := (List.range 26).map fun i => [BitVec.ofNat 8 (65 + i)]

def alphabet : List Uint8 := alphabetRows.flatMap fun row => row ++ [10#8]

-- A and B have left the screen at the top
theorem screen_shows_alphabet : (∀ c ∈ alphabet, Printable c ∨ c = 10#8) ∧
    ∃ u, (terminalClear (terminalSetcolor 7#8 powerOn)).bind (terminalWrite alphabet) = some u ∧
      u.terminal_column = 0 ∧ u.terminal_row = 24 ∧ ∀ y < 25, ∀ x < 80,
        get? u.vga_memory (y * 80 + x : ℕ) =
          some (vgaEntry (cell 32#8 (alphabetRows.drop 2 ++ [[]]) y x) 7#8) := by
  have hs : ∀ c ∈ alphabet, Printable c ∨ c = 10#8 := by decide
  have hrows : newest 25 (wrap 80 10#8 alphabet).rows = alphabetRows.drop 2 ++ [[]] := by decide
  obtain ⟨u,hu,hcolumn,hrow,hcells⟩ := screen_shows_tail powerOn 7#8 alphabet hs
  rw [hrows] at hcells
  exact ⟨hs,u,hu,hcolumn.trans (by decide),hrow.trans (by decide),hcells⟩

end KluxOS
