import KluxOS.Drivers.TerminalBounds
import KluxOS.Lib.Terminated

namespace KluxOS

open CArray Terminated

def keyBackspace : Uint8 := 8#8

def keyEnter : Uint8 := 13#8

-- keys are those that terminal_getchar has not returned yet
structure Console (n : ℕ) where
  buffer : Vector Uint8 n
  terminal : Terminal
  keys : List Uint8

section Gets

variable {n : ℕ}

def IsPrintable (c : Uint8) : Prop := 32#8 ≤ c ∧ c ≤ 126#8

instance (c : Uint8) : Decidable (IsPrintable c) := inferInstanceAs (Decidable (_ ∧ _))

-- none while the call waits for a key
def getsLoop (limit : ℕ) : List Uint8 → ℕ → Vector Uint8 n → Terminal → Option (ℕ × Console n)
  | [],i,buffer,t => if i < limit then none else some (i,⟨buffer,t,[]⟩)
  | c :: keys,i,buffer,t =>
    if i < limit then
      if c = keyEnter then do
        let buffer ← set? buffer i 0#8
        let t ← terminalPutchar 10#8 t
        some (i,⟨buffer,t,keys⟩)
      else if c = keyBackspace ∧ i > 0 then do
        let t ← terminalBackspace t
        getsLoop limit keys (i - 1) buffer t
      else if IsPrintable c then do
        let buffer ← set? buffer i c
        let t ← terminalPutchar c t
        getsLoop limit keys (i + 1) buffer t
      else getsLoop limit keys i buffer t
    else some (i,⟨buffer,t,c :: keys⟩)

def terminalGets (size : Uint32) (s : Console n) : Option (Console n) :=
  if size = 0#32 then some s
  else do
    let (i,s) ← getsLoop (size - 1#32).toNat s.keys 0 s.buffer s.terminal
    let buffer ← set? s.buffer i 0#8
    some {s with buffer := buffer}

end Gets

section Editing

-- what a line editor keeps after one more key
def editKey (kept : List Uint8) (c : Uint8) : List Uint8 :=
  if c = keyBackspace then kept.dropLast
  else if IsPrintable c then kept ++ [c]
  else kept

def editedLine (line : List Uint8) : List Uint8 := line.foldl editKey []

def stream (lines : List (List Uint8)) : List Uint8 := lines.flatMap fun line => line ++ [keyEnter]

-- at no moment while the line is typed are limit characters kept
def Roomy (limit : ℕ) (kept line : List Uint8) : Prop :=
  ∀ typed, typed <+: line → (typed.foldl editKey kept).length < limit

variable {limit : ℕ} {kept line : List Uint8} {c : Uint8}

theorem roomy_cons : Roomy limit kept (c :: line) ↔
    kept.length < limit ∧ Roomy limit (editKey kept c) line := by
  constructor
  · intro h
    exact ⟨h [] List.nil_prefix,
      fun typed htyped => h (c :: typed) (List.cons_prefix_cons.mpr ⟨rfl,htyped⟩)⟩
  · rintro ⟨hkept,hrest⟩ typed htyped
    rcases List.prefix_cons_iff.mp htyped with rfl | ⟨typed,rfl,htail⟩
    · exact hkept
    · exact hrest typed htail

theorem Roomy.length_lt (h : Roomy limit kept line) : kept.length < limit := h [] List.nil_prefix

theorem editKey_length (kept : List Uint8) (c : Uint8) :
    (editKey kept c).length ≤ kept.length + 1 := by
  rw [editKey]
  split_ifs
  · rw [List.length_dropLast]
    omega
  · rw [List.length_append,List.length_singleton]
  · omega

theorem editKey_clean (h : 0#8 ∉ kept) (c : Uint8) : 0#8 ∉ editKey kept c := by
  rw [editKey]
  split_ifs with hback hprint
  · exact fun hmem => h (List.mem_of_mem_dropLast hmem)
  · rw [List.mem_append,List.mem_singleton,not_or]
    refine ⟨h,?_⟩
    rintro rfl
    exact absurd hprint (by decide)
  · exact h

theorem editedLine_clean (h : 0#8 ∉ kept) (line : List Uint8) : 0#8 ∉ line.foldl editKey kept := by
  induction line generalizing kept with
  | nil => exact h
  | cons c line ih => exact ih (editKey_clean h c)

end Editing

section Loop

variable {n limit : ℕ} {kept line : List Uint8} {c : Uint8} {buffer : Vector Uint8 n}
  {t : Terminal}

theorem getsLoop_full (hfull : ¬ kept.length < limit) (keys : List Uint8) :
    getsLoop limit keys kept.length buffer t = some (kept.length,⟨buffer,t,keys⟩) := by
  cases keys <;> exact if_neg hfull

variable (hlimit : limit < n) (hkept : kept <+: buffer.toList) (hroom : kept.length < limit)
  (hon : OnScreen t)

include hlimit hkept hroom hon

theorem getsLoop_enter (keys : List Uint8) : ∃ b u,
    getsLoop limit (keyEnter :: keys) kept.length buffer t = some (kept.length,⟨b,u,keys⟩) ∧
      kept <+: b.toList ∧ OnScreen u := by
  obtain ⟨b,hb,hpre⟩ := prefix_set hkept (hroom.trans hlimit) 0#8
  obtain ⟨u,hu,hon'⟩ := terminalPutchar_onScreen 10#8 hon
  refine ⟨b,u,?_,(List.prefix_append kept [0#8]).trans hpre,hon'⟩
  rw [getsLoop,if_pos hroom,if_pos rfl,hb]
  change (terminalPutchar 10#8 t).bind _ = _
  rw [hu]
  rfl

theorem getsLoop_key (hc : c ≠ keyEnter) (keys : List Uint8) : ∃ b u,
    getsLoop limit (c :: keys) kept.length buffer t =
        getsLoop limit keys (editKey kept c).length b u ∧
      editKey kept c <+: b.toList ∧ OnScreen u := by
  rw [getsLoop,if_pos hroom,if_neg hc,editKey]
  by_cases hback : c = keyBackspace
  · subst hback
    rw [if_pos rfl,List.length_dropLast]
    by_cases hpos : kept.length > 0
    · obtain ⟨u,hu,hon'⟩ := terminalBackspace_onScreen hon
      refine ⟨buffer,u,?_,(List.dropLast_prefix kept).trans hkept,hon'⟩
      rw [if_pos ⟨rfl,hpos⟩,hu]
      rfl
    · have hempty : kept.length - 1 = kept.length := by omega
      refine ⟨buffer,t,?_,(List.dropLast_prefix kept).trans hkept,hon⟩
      rw [if_neg fun h => hpos h.2,if_neg (by decide),hempty]
  · rw [if_neg fun h => hback h.1,if_neg hback]
    by_cases hprint : IsPrintable c
    · obtain ⟨b,hb,hpre⟩ := prefix_set hkept (hroom.trans hlimit) c
      obtain ⟨u,hu,hon'⟩ := terminalPutchar_onScreen c hon
      rw [if_pos hprint,if_pos hprint,List.length_append]
      refine ⟨b,u,?_,hpre,hon'⟩
      rw [hb]
      change (terminalPutchar c t).bind _ = _
      rw [hu]
      rfl
    · rw [if_neg hprint,if_neg hprint]
      exact ⟨buffer,t,rfl,hkept,hon⟩

omit hkept hroom hon in
-- a roomy line is read with its KEY_ENTER; any other leaves that key, and what is before it, unread
theorem getsLoop_line (hline : keyEnter ∉ line) (more : List Uint8) (hkept : kept <+: buffer.toList)
    (hroom : kept.length < limit) (hon : OnScreen t) : ∃ i u,
    getsLoop limit (line ++ keyEnter :: more) kept.length buffer t = some (i,u) ∧ i < n ∧
      OnScreen u.terminal ∧
      (Roomy limit kept line → i = (line.foldl editKey kept).length ∧
        line.foldl editKey kept <+: u.buffer.toList ∧ u.keys = more) ∧
      (¬ Roomy limit kept line → more.length < u.keys.length) := by
  induction line generalizing kept buffer t with
  | nil =>
    obtain ⟨b,u,hcall,hpre,hon'⟩ := getsLoop_enter hlimit hkept hroom hon more
    refine ⟨_,_,hcall,hroom.trans hlimit,hon',fun _ => ⟨rfl,hpre,rfl⟩,fun hnot => ?_⟩
    refine absurd (fun typed htyped => ?_) hnot
    rw [List.prefix_nil.mp htyped]
    exact hroom
  | cons c line ih =>
    obtain ⟨hc,hline⟩ := not_or.mp (mt List.mem_cons.mpr hline)
    obtain ⟨b,u,hcall,hpre,hon'⟩ := getsLoop_key hlimit hkept hroom hon (Ne.symm hc)
      (line ++ keyEnter :: more)
    rw [List.cons_append,hcall,List.foldl_cons,roomy_cons,and_iff_right hroom]
    by_cases hnext : (editKey kept c).length < limit
    · exact ih hline hpre hnext hon'
    · have hlen := editKey_length kept c
      refine ⟨_,_,getsLoop_full hnext _,by omega,hon',fun h => absurd h.length_lt hnext,fun _ => ?_⟩
      rw [List.length_append,List.length_cons]
      omega

end Loop

section Calls

variable {n : ℕ} {size : Uint32} {s : Console size.toNat} {line : List Uint8}

theorem terminalGets_line (hsize : 2 ≤ size.toNat) (hon : OnScreen s.terminal)
    (hline : keyEnter ∉ line) {more : List Uint8} (hkeys : s.keys = line ++ keyEnter :: more) :
    ∃ u, terminalGets size s = some u ∧ OnScreen u.terminal ∧
      (Roomy (size.toNat - 1) [] line → Cut 0#8 u.buffer.toList 0 (editedLine line) ∧
        u.keys = more) ∧
      (¬ Roomy (size.toNat - 1) [] line → u.keys ≠ more) := by
  have hlimit : (size - 1#32).toNat = size.toNat - 1 := by
    rw [BitVec.toNat_sub,BitVec.toNat_ofNat]
    omega
  have hnonzero : size ≠ 0#32 := by
    rintro rfl
    exact absurd hsize (by decide)
  obtain ⟨i,v,hcall,hi,hon',hroomy,hfull⟩ := getsLoop_line
    (show size.toNat - 1 < size.toNat by omega) hline more List.nil_prefix
    (show 0 < size.toNat - 1 by omega) hon
  rw [terminalGets,if_neg hnonzero,hkeys,hlimit]
  have hset := set?_eq v.buffer 0#8 hi rfl
  refine ⟨{v with buffer := v.buffer.set i 0#8 hi},?_,hon',fun hr => ?_,fun hr heq => ?_⟩
  · refine Option.bind_eq_some_iff.mpr ⟨_,hcall,?_⟩
    dsimp only
    rw [hset]
    rfl
  · obtain ⟨hlen,hpre,hmore⟩ := hroomy hr
    subst hlen
    obtain ⟨b,hb,⟨tail,htail⟩⟩ := prefix_set hpre hi 0#8
    rw [hset] at hb
    cases hb
    refine ⟨⟨editedLine_clean List.not_mem_nil line,tail,?_⟩,hmore⟩
    rw [List.drop_zero,← htail,List.append_assoc,List.singleton_append,editedLine]
  · exact absurd (congrArg List.length heq) (hfull hr).ne'

-- each call returns one edited line, cut to size - 1 characters, and reads its KEY_ENTER
def OneCallOneLine (rest : List Uint8) : List (List Uint8) → Console size.toNat → Prop
  | [],s => s.keys = rest
  | line :: lines,s => ∃ u, terminalGets size s = some u ∧
      Cut 0#8 u.buffer.toList 0 ((editedLine line).take (size.toNat - 1)) ∧
      u.keys = stream lines ++ rest ∧ OneCallOneLine rest lines u

theorem stream_cons (line : List Uint8) (lines : List (List Uint8)) (rest : List Uint8) :
    stream (line :: lines) ++ rest = line ++ keyEnter :: (stream lines ++ rest) := by
  rw [stream,List.flatMap_cons,List.append_assoc,List.append_assoc,List.singleton_append]
  rfl

theorem oneCallOneLine_iff (hsize : 2 ≤ size.toNat) (hon : OnScreen s.terminal)
    {lines : List (List Uint8)} (hlines : ∀ line ∈ lines, keyEnter ∉ line) {rest : List Uint8}
    (hkeys : s.keys = stream lines ++ rest) :
    OneCallOneLine rest lines s ↔ ∀ line ∈ lines, Roomy (size.toNat - 1) [] line := by
  induction lines generalizing s with
  | nil => exact iff_of_true hkeys fun _ h => absurd h List.not_mem_nil
  | cons line lines ih =>
    obtain ⟨hline,hlines⟩ := List.forall_mem_cons.mp hlines
    rw [stream_cons] at hkeys
    obtain ⟨u,hcall,hon',hroomy,hfull⟩ := terminalGets_line hsize hon hline hkeys
    rw [List.forall_mem_cons]
    constructor
    · rintro ⟨v,hv,-,hmore,hrest⟩
      rw [hcall] at hv
      cases hv
      have hr : Roomy (size.toNat - 1) [] line := by
        by_contra hnot
        exact hfull hnot hmore
      exact ⟨hr,(ih hon' hlines hmore).mp hrest⟩
    · rintro ⟨hr,hrest⟩
      obtain ⟨hcut,hmore⟩ := hroomy hr
      have hshort : (editedLine line).length ≤ size.toNat - 1 :=
        (hr line (List.prefix_refl line)).le
      refine ⟨u,hcall,?_,hmore,(ih hon' hlines hmore).mpr hrest⟩
      rw [List.take_of_length_le hshort]
      exact hcut

end Calls

theorem one_call_one_line (size : Uint32) (hsize : 2 ≤ size.toNat) (s : Console size.toNat)
    (hon : OnScreen s.terminal) (lines : List (List Uint8))
    (hlines : ∀ line ∈ lines, keyEnter ∉ line) (rest : List Uint8)
    (hkeys : s.keys = stream lines ++ rest) : OneCallOneLine rest lines s ↔
      ∀ line ∈ lines, ∀ typed, typed <+: line → (editedLine typed).length < size.toNat - 1 :=
  oneCallOneLine_iff hsize hon hlines hkeys

def blankTerminal : Terminal :=
  { vga_memory := Vector.replicate 2000 0#16
    terminal_color := 7#8
    terminal_row := 0
    terminal_column := 0
    cursor_visible := true
    crtc_index := 0#8
    crtc := fun _ => 0#8 }

-- a buffer of two bytes, and the line "a" typed into it
def typedLine : Console (2#32).toNat :=
  ⟨Vector.replicate (2#32).toNat 0#8,blankTerminal,stream [[97#8]]⟩

-- "ab", a backspace and "c", then "d"
def correctedLines : List (List Uint8) := [[97#8,98#8,keyBackspace,99#8],[100#8]]

theorem one_call_one_line_corrected : OneCallOneLine [97#8] correctedLines
    (⟨Vector.replicate (8#32).toNat 0#8,blankTerminal,stream correctedLines ++ [97#8]⟩ :
      Console (8#32).toNat) := by
  have hroomy : ∀ line ∈ correctedLines, ∀ typed ∈ line.inits,
      (editedLine typed).length < (8#32).toNat - 1 := by decide
  refine (one_call_one_line 8#32 (by decide) _ ⟨by decide,by decide⟩ correctedLines (by decide)
    [97#8] rfl).mpr fun line hline typed htyped => ?_
  exact hroomy line hline typed ((List.mem_inits typed line).mpr htyped)

theorem full_line_left_unread : typedLine.keys = stream [[97#8]] ++ [] ∧
    ¬ OneCallOneLine [] [[97#8]] typedLine := by
  refine ⟨rfl,?_⟩
  rw [oneCallOneLine_iff (by decide) ⟨by decide,by decide⟩ (by decide) rfl]
  intro hroomy
  exact absurd (hroomy _ List.mem_cons_self [97#8] (List.prefix_refl _)) (by decide)

end KluxOS
