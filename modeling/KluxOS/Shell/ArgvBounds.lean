import KluxOS.Shell.Tokens

namespace KluxOS.Shell

open QuotedWords Terminated

def maxCommandLength : Uint32 := 256#32

def store (dest : List Char) (i : ℕ) (c : Char) : Option (List Char) :=
  if i < dest.length then some (dest.set i c) else none

-- room is what max_len - 1 leaves for the loop
def strCopyLoop (src : List Char) : ℕ → ℕ → List Char → Option (List Char)
  | 0, i, dest => store dest i nul
  | room + 1, i, dest => do
    let c ← src[i]?
    if c = nul then store dest i nul else do
      let dest ← store dest i c
      strCopyLoop src room (i + 1) dest

def strCopy (dest src : List Char) (max_len : Uint32) : Option (List Char) :=
  strCopyLoop src (max_len - 1#32).toNat 0 dest

-- shell_execute_command up to its table of commands; cmd_copy and argv start with what the stack
-- holds
def commandArgs (command_line cmd_copy : List Char) (argv : ℕ → Option ℕ) :
    Option (ℤ × List Char × (ℕ → Option ℕ)) := do
  let cmd_copy ← strCopy cmd_copy command_line maxCommandLength
  shellParseArgs cmd_copy argv 64

section Copy

variable {src line tail done old : List Char} {room : ℕ}

theorem store_next (done old : List Char) (o c : Char) :
    store (done ++ o :: old) done.length c = some (done ++ c :: old) := by
  have hlt : done.length < (done ++ o :: old).length := by
    rw [List.length_append,List.length_cons]
    omega
  rw [store,if_pos hlt,List.set_append_right _ _ (Nat.le_refl _),Nat.sub_self,List.set_cons_zero]

-- a line that does not fit is cut off at room characters
theorem strCopyLoop_eq (hsrc : src.drop done.length = line ++ nul :: tail) (hnul : nul ∉ line)
    (hold : min room line.length < old.length) :
    strCopyLoop src room done.length (done ++ old) =
      some (done ++ line.take room ++ nul :: old.drop (min room line.length + 1)) := by
  induction room generalizing done line old with
  | zero =>
    obtain ⟨o,old,rfl⟩ := List.exists_cons_of_length_pos (Nat.zero_lt_of_lt hold)
    rw [Nat.zero_min,List.take_zero,List.append_nil,List.drop_succ_cons,List.drop_zero]
    exact store_next done old o nul
  | succ room ih =>
    obtain ⟨o,old,rfl⟩ := List.exists_cons_of_length_pos (Nat.zero_lt_of_lt hold)
    cases line with
    | nil =>
      rw [List.length_nil,Nat.min_zero,List.take_nil,List.append_nil,List.drop_succ_cons,
        List.drop_zero,strCopyLoop,(head_of_drop hsrc).1,Option.bind_eq_bind,Option.bind_some,
        if_pos rfl]
      exact store_next done old o nul
    | cons c line =>
      obtain ⟨hread,hrest⟩ := head_of_drop hsrc
      obtain ⟨hc,hclean⟩ := not_or.mp (mt List.mem_cons.mpr hnul)
      have hnext : src.drop (done ++ [c]).length = line ++ nul :: tail := by
        rwa [List.length_append]
      have hroom : min room line.length < old.length := by
        rw [List.length_cons,List.length_cons] at hold
        omega
      have hmore := ih hnext hclean hroom
      rw [List.length_append,List.length_singleton,List.append_assoc,List.append_assoc,
        List.append_assoc] at hmore
      rw [strCopyLoop,hread,Option.bind_eq_bind,Option.bind_some,if_neg (Ne.symm hc),store_next,
        Option.bind_eq_bind,Option.bind_some,List.length_cons,List.take_succ_cons,
        Nat.succ_min_succ,List.append_assoc,List.cons_append,List.drop_succ_cons]
      exact hmore

theorem strCopy_take {more stale : List Char} (hnul : nul ∉ line) (hstale : stale.length = 256) :
    strCopy stale (line ++ nul :: more) 256#32 =
      some (line.take 255 ++ nul :: stale.drop (min 255 line.length + 1)) := by
  have hsrc : (line ++ nul :: more).drop ([] : List Char).length = line ++ nul :: more := rfl
  have hold : min 255 line.length < stale.length := by omega
  exact strCopyLoop_eq hsrc hnul hold

theorem strCopy_line {more stale : List Char} (hnul : nul ∉ line) (hlen : line.length < 256)
    (hstale : stale.length = 256) : strCopy stale (line ++ nul :: more) maxCommandLength =
      some (line ++ nul :: stale.drop (line.length + 1)) := by
  have hcopy : strCopy stale (line ++ nul :: more) 256#32 = _ := strCopy_take hnul hstale
  rw [List.take_of_length_le (by omega),Nat.min_eq_right (by omega)] at hcopy
  exact hcopy

end Copy

section Limit

variable {words : List (Word Char)} {line text tail : List Char} {max_args fuel : ℕ}
  {s : ParseState}

theorem parseChar_argc_le (s : ParseState) (c : Char) : (parseChar s c).argc ≤ s.argc + 1 := by
  simp only [parseChar,startArg]
  split_ifs <;> simp only [Nat.le_refl,Nat.le_succ]

-- the guard stops the scan as soon as max_args arguments have begun
theorem parseLoop_stop (hline : s.command_line.drop s.i = text ++ nul :: tail) (hnul : nul ∉ text)
    (hargc : s.argc ≤ max_args) (hmax : max_args ≤ (text.foldl parseChar s).argc)
    (hfuel : text.length < fuel) :
    ∃ t, parseLoop max_args fuel s = some t ∧ t.argc = max_args := by
  induction text generalizing s fuel with
  | nil =>
    obtain ⟨fuel,rfl⟩ := Nat.exists_eq_succ_of_ne_zero (Nat.ne_of_gt hfuel)
    refine ⟨s,?_,Nat.le_antisymm hargc hmax⟩
    rw [parseLoop,(head_of_drop hline).1,Option.bind_eq_bind,Option.bind_some,
      if_neg fun hand => hand.1 rfl]
  | cons c text ih =>
    obtain ⟨fuel,rfl⟩ := Nat.exists_eq_succ_of_ne_zero (Nat.ne_of_gt (Nat.zero_lt_of_lt hfuel))
    obtain ⟨hread,hrest⟩ := head_of_drop hline
    obtain ⟨hc,hclean⟩ := not_or.mp (mt List.mem_cons.mpr hnul)
    rw [parseLoop,hread,Option.bind_eq_bind,Option.bind_some]
    rcases Nat.lt_or_eq_of_le hargc with hlt | hfull
    · rw [if_pos ⟨Ne.symm hc,Int.ofNat_lt.mpr hlt⟩]
      refine ih ?_ hclean (Nat.le_trans (parseChar_argc_le s c) hlt) hmax
        (Nat.lt_of_succ_lt_succ hfuel)
      rw [parseChar_i,parseChar_ahead]
      exact hrest
    · rw [if_neg fun hand => Nat.lt_irrefl _ (hfull ▸ Int.ofNat_lt.mp hand.2)]
      exact ⟨s,rfl,hfull⟩

theorem shellParseArgs_full (tail : List Char) (argv : ℕ → Option ℕ)
    (hr : Reads isQuote isBlank words line) (hnul : nul ∉ line) (hmax : max_args ≤ words.length) :
    ∃ buffer argv', shellParseArgs (line ++ nul :: tail) argv max_args =
      some ((max_args : ℤ),buffer,argv') ∧ argv' max_args = none := by
  obtain ⟨done,-,hended⟩ := parse_ended tail argv hr hnul
  have hargc := hended.argc
  rw [List.length_map] at hargc
  have hfuel : line.length < (line ++ nul :: tail).length := by
    rw [List.length_append,List.length_cons]
    omega
  have hline : (parseStart (line ++ nul :: tail) argv).command_line.drop 0 = line ++ nul :: tail :=
    rfl
  obtain ⟨t,hloop,ht⟩ := parseLoop_stop hline hnul (Nat.zero_le _) (hargc.symm ▸ hmax) hfuel
  refine ⟨t.command_line,Function.update t.argv max_args none,?_,Function.update_self ..⟩
  rw [parseStart] at hloop
  rw [shellParseArgs,hloop,Option.bind_eq_bind,Option.bind_some,ht]

end Limit

section Bounds

-- argv has 64 entries; the bytes behind the line keep what they held, and an argument ends within
-- its own word
def ParsesInBounds (words : List (Word Char)) (line : List Char) : Prop :=
  ∀ (more stale : List Char) (argv : ℕ → Option ℕ), stale.length = 256 → ∃ argc buffer argv',
    commandArgs (line ++ nul :: more) stale argv = some (argc,buffer,argv') ∧
    (∀ k, 64 ≤ k → argv' k = argv k) ∧
    buffer.drop line.length = nul :: stale.drop (line.length + 1) ∧
    ∀ j : ℕ, (j : ℤ) < argc → ∃ w p, words[j]? = some w ∧ argv' j = some p ∧
      content nul buffer p <:+: render w

variable {words : List (Word Char)} {line : List Char}

theorem commandArgs_eq {more stale : List Char} {argv : ℕ → Option ℕ} (hnul : nul ∉ line)
    (hlen : line.length < 256) (hstale : stale.length = 256) :
    commandArgs (line ++ nul :: more) stale argv =
      shellParseArgs (line ++ nul :: stale.drop (line.length + 1)) argv 64 := by
  rw [commandArgs,strCopy_line hnul hlen hstale]
  rfl

theorem parses_in_bounds (hr : Reads isQuote isBlank words line) (hnul : nul ∉ line)
    (hlen : line.length < 256) (hmax : words.length < 64) : ParsesInBounds words line := by
  intro more stale argv hstale
  obtain ⟨done,argv',hparse,hdone,hbeyond,htoken⟩ := shellParseArgs_tokens
    (stale.drop (line.length + 1)) argv hr hnul (Int.ofNat_lt.mpr hmax)
  refine ⟨words.length,_,argv',(commandArgs_eq hnul hlen hstale).trans hparse,
    fun k hk => hbeyond k (Nat.lt_of_lt_of_le hmax hk),?_,fun j hj => ?_⟩
  · rw [← hdone,List.drop_left]
  · have hlt := Int.ofNat_lt.mp hj
    obtain ⟨p,hp,hcontent⟩ := htoken j words[j] (List.getElem?_eq_getElem hlt)
    exact ⟨words[j],p,List.getElem?_eq_getElem hlt,hp,hcontent ▸ token_infix words[j]⟩

-- the closing NULL goes to argv[64] once 64 arguments have begun
theorem argv_overrun (hr : Reads isQuote isBlank words line) (hnul : nul ∉ line)
    (hlen : line.length < 256) (hmax : 64 ≤ words.length) : ¬ ParsesInBounds words line := by
  intro h
  have hstale : (List.replicate 256 nul).length = 256 := List.length_replicate
  obtain ⟨argc,buffer,argv',hparse,hbeyond,-⟩ := h [] _ (fun _ => some 0) hstale
  obtain ⟨buffer',argv'',hfull,hnull⟩ := shellParseArgs_full
    ((List.replicate 256 nul).drop (line.length + 1)) (fun _ => some 0) hr hnul hmax
  cases hparse.symm.trans ((commandArgs_eq hnul hlen hstale).trans hfull)
  cases hnull.symm.trans (hbeyond 64 (Nat.le_refl 64))

theorem command_args_in_bounds_iff (line : List Char) (hnul : nul ∉ line)
    (hlen : line.length < 256) :
    (∃ words, Reads isQuote isBlank words line) ∧ ∀ words, Reads isQuote isBlank words line →
      (ParsesInBounds words line ↔ words.length < 64) := by
  refine ⟨(reads_total line).1,fun words hr => ⟨fun h => ?_,parses_in_bounds hr hnul hlen⟩⟩
  exact Nat.lt_of_not_le fun hmax => argv_overrun hr hnul hlen hmax h

theorem command_args_in_bounds_pair : ParsesInBounds
    [[.plain 'l',.plain 's'],[.quoted '"' ['a',' ','b']]] ['l','s',' ','"','a',' ','b','"'] := by
  have hr : Reads isQuote isBlank [[.plain 'l',.plain 's'],[.quoted '"' ['a',' ','b']]]
      (render [.plain 'l',.plain 's'] ++ ' ' :: (render [.quoted '"' ['a',' ','b']] ++ [])) :=
    .word (by decide) (by simp [Closed,isQuote,isBlank]) (by simp [Ends,isBlank])
      (.blank (.inl rfl) (.word (by decide) (by simp [Closed,isQuote]) (by simp [Ends]) .nil))
  exact ((command_args_in_bounds_iff ['l','s',' ','"','a',' ','b','"'] (by decide)
    (by decide)).2 _ hr).mpr (by decide)

theorem reads_letters (n : ℕ) : Reads isQuote isBlank (List.replicate n [.plain 'a'])
    (List.replicate n ['a',' ']).flatten := by
  induction n with
  | zero => exact .nil
  | succ n ih =>
    rw [List.replicate_succ,List.replicate_succ,List.flatten_cons]
    exact .word (by decide) (by simp [Closed,isQuote,isBlank]) (by simp [Ends,isBlank])
      (.blank (.inl rfl) ih)

-- 64 arguments of one letter
theorem full_argv_overrun : ¬ ∀ (words : List (Word Char)) (line : List Char), nul ∉ line →
    line.length < 256 → Reads isQuote isBlank words line → ParsesInBounds words line := by
  intro h
  have hclean : nul ∉ (List.replicate 64 ['a',' ']).flatten := by
    rw [List.mem_flatten]
    rintro ⟨text,htext,hmem⟩
    rw [List.eq_of_mem_replicate htext] at hmem
    exact absurd hmem (by decide)
  have hlen : (List.replicate 64 ['a',' ']).flatten.length < 256 := by
    rw [List.length_flatten,List.map_replicate,List.sum_replicate_nat]
    decide
  exact argv_overrun (reads_letters 64) hclean hlen (by decide)
    (h _ _ hclean hlen (reads_letters 64))

end Bounds

end KluxOS.Shell
