import KluxOS.Kernel.State
import KluxOS.Lib.Terminated

namespace KluxOS.Shell

open Terminated

def nul : Char := '\x00'

def isQuote (c : Char) : Prop := c = '"' ∨ c = '\''

def isBlank (c : Char) : Prop := c = ' ' ∨ c = '\t'

instance (c : Char) : Decidable (isQuote c) := inferInstanceAs (Decidable (_ ∨ _))

instance (c : Char) : Decidable (isBlank c) := inferInstanceAs (Decidable (_ ∨ _))

-- an entry of argv points into command_line, or is NULL
structure ParseState where
  command_line : List Char
  argv : ℕ → Option ℕ
  argc : ℕ
  i : ℕ
  in_quote : Bool
  in_arg : Bool
  quote_char : Char

def startArg (s : ParseState) (p : ℕ) : ParseState :=
  { s with argv := Function.update s.argv s.argc (some p), argc := s.argc + 1, in_arg := true }

def parseChar (s : ParseState) (c : Char) : ParseState :=
  let t :=
    if isQuote c ∧ s.in_quote = false then
      let s := { s with in_quote := true, quote_char := c }
      if s.in_arg = false then startArg s (s.i + 1) else s
    else if c = s.quote_char ∧ s.in_quote = true then
      { s with
        in_quote := false
        quote_char := nul
        command_line := s.command_line.set s.i nul }
    else if isBlank c ∧ s.in_quote = false then
      if s.in_arg = true then
        { s with command_line := s.command_line.set s.i nul, in_arg := false }
      else s
    else
      if s.in_arg = false then startArg s s.i else s
  { t with i := t.i + 1 }

-- the fuel is the buffer's length: a longer scan has left it
def parseLoop (max_args : ℤ) : ℕ → ParseState → Option ParseState
  | 0, _ => none
  | fuel + 1, s => do
    let c ← s.command_line[s.i]?
    if c ≠ nul ∧ (s.argc : ℤ) < max_args then parseLoop max_args fuel (parseChar s c) else some s

def shellParseArgs (command_line : List Char) (argv : ℕ → Option ℕ) (max_args : ℤ) :
    Option (ℤ × List Char × (ℕ → Option ℕ)) := do
  let s ← parseLoop max_args command_line.length ⟨command_line,argv,0,0,false,false,nul⟩
  some (s.argc,s.command_line,Function.update s.argv s.argc none)

section ParseChar

variable (s : ParseState) (c : Char)

theorem parseChar_i : (parseChar s c).i = s.i + 1 := by
  simp only [parseChar,startArg]
  split_ifs <;> rfl

theorem parseChar_argc : s.argc ≤ (parseChar s c).argc := by
  simp only [parseChar,startArg]
  split_ifs <;> simp only [Nat.le_refl,Nat.le_succ]

theorem parseChar_ahead :
    (parseChar s c).command_line.drop (s.i + 1) = s.command_line.drop (s.i + 1) := by
  simp only [parseChar,startArg]
  split_ifs <;> simp only [List.drop_set_of_lt (Nat.lt_succ_self s.i)]

theorem foldl_argc (text : List Char) : s.argc ≤ (text.foldl parseChar s).argc := by
  induction text generalizing s with
  | nil => exact Nat.le_refl _
  | cons c text ih => exact Nat.le_trans (parseChar_argc s c) (ih (parseChar s c))

variable {s c}

theorem parseChar_open (hc : isQuote c) (hquote : s.in_quote = false) (harg : s.in_arg = false) :
    parseChar s c =
      { startArg s (s.i + 1) with in_quote := true, quote_char := c, i := s.i + 1 } := by
  simp only [parseChar,startArg,hc,hquote,harg,and_self,if_true]

theorem parseChar_close (hc : c = s.quote_char) (hquote : s.in_quote = true) :
    parseChar s c = { s with
      in_quote := false
      quote_char := nul
      command_line := s.command_line.set s.i nul
      i := s.i + 1 } := by
  simp only [parseChar,hc,hquote,Bool.true_eq_false,and_false,and_self,if_false,if_true]

theorem parseChar_start (hc : ¬ isQuote c ∧ ¬ isBlank c) (hquote : s.in_quote = false)
    (harg : s.in_arg = false) : parseChar s c = { startArg s s.i with i := s.i + 1 } := by
  simp only [parseChar,startArg,hc.1,hc.2,hquote,harg,Bool.false_eq_true,false_and,and_false,
    if_false,if_true]

theorem parseChar_inside (hc : c ≠ s.quote_char) (hquote : s.in_quote = true)
    (harg : s.in_arg = true) : parseChar s c = { s with i := s.i + 1 } := by
  simp only [parseChar,hc,hquote,harg,Bool.true_eq_false,and_false,false_and,if_false]

theorem parseChar_more (hc : ¬ isQuote c ∧ ¬ isBlank c) (hquote : s.in_quote = false)
    (harg : s.in_arg = true) : parseChar s c = { s with i := s.i + 1 } := by
  simp only [parseChar,hc.1,hc.2,hquote,harg,Bool.false_eq_true,Bool.true_eq_false,false_and,
    and_false,if_false]

theorem not_quote (hc : isBlank c) : ¬ isQuote c := by
  rcases hc with rfl | rfl <;> decide

theorem parseChar_blank (hc : isBlank c) (hquote : s.in_quote = false) (harg : s.in_arg = true) :
    parseChar s c =
      { s with command_line := s.command_line.set s.i nul, in_arg := false, i := s.i + 1 } := by
  simp only [parseChar,not_quote hc,hc,hquote,harg,Bool.false_eq_true,false_and,and_false,and_self,
    if_false,if_true]

theorem parseChar_skip (hc : isBlank c) (hquote : s.in_quote = false) (harg : s.in_arg = false) :
    parseChar s c = { s with i := s.i + 1 } := by
  simp only [parseChar,not_quote hc,hc,hquote,harg,Bool.false_eq_true,false_and,and_false,and_self,
    if_false,if_true]

theorem foldl_inert (t : ParseState) (text : List Char)
    (h : ∀ c ∈ text, ∀ i, parseChar { t with i } c = { t with i := i + 1 }) :
    text.foldl parseChar t = { t with i := t.i + text.length } := by
  induction text generalizing t with
  | nil => rfl
  | cons c text ih =>
    have hrest := ih { t with i := t.i + 1 } fun d hd => h d (List.mem_cons_of_mem c hd)
    rw [List.foldl_cons,h c List.mem_cons_self t.i,hrest,List.length_cons,Nat.add_assoc,
      Nat.add_comm 1]

theorem foldl_plain {arg : List Char} (hne : arg ≠ [])
    (hplain : ∀ c ∈ arg, ¬ isQuote c ∧ ¬ isBlank c) (hquote : s.in_quote = false)
    (harg : s.in_arg = false) :
    arg.foldl parseChar s = { startArg s s.i with i := s.i + arg.length } := by
  cases arg with
  | nil => exact absurd rfl hne
  | cons c arg =>
    have hfirst := parseChar_start (hplain c List.mem_cons_self) hquote harg
    have hinert := foldl_inert (parseChar s c) arg fun d hd i => by
      rw [hfirst]
      exact parseChar_more (hplain d (List.mem_cons_of_mem c hd)) hquote rfl
    rw [List.foldl_cons,hinert,hfirst,List.length_cons,Nat.add_comm arg.length,← Nat.add_assoc]

section Quotes

variable {q : Char} {text : List Char}

theorem foldl_inside {s : ParseState} (hquote : s.in_quote = true) (harg : s.in_arg = true)
    (hmem : s.quote_char ∉ text) :
    text.foldl parseChar s = { s with i := s.i + text.length } :=
  foldl_inert s text fun _ hd _ =>
    parseChar_inside (fun heq => hmem (heq ▸ hd)) hquote harg

theorem foldl_opened (hq : isQuote q) (hmem : q ∉ text) (hquote : s.in_quote = false)
    (harg : s.in_arg = false) : (q :: text).foldl parseChar s =
      { startArg s (s.i + 1) with
        in_quote := true
        quote_char := q
        i := s.i + 1 + text.length } := by
  rw [List.foldl_cons,parseChar_open hq hquote harg]
  exact foldl_inside rfl rfl hmem

-- the closing quote becomes the terminator
theorem foldl_quoted (hq : isQuote q) (hmem : q ∉ text) (hquote : s.in_quote = false)
    (harg : s.in_arg = false) : (q :: text ++ [q]).foldl parseChar s = { startArg s (s.i + 1) with
      in_quote := false
      quote_char := nul
      command_line := s.command_line.set (s.i + 1 + text.length) nul
      i := s.i + 1 + text.length + 1 } := by
  rw [List.foldl_append,foldl_opened hq hmem hquote harg]
  exact parseChar_close rfl rfl

-- the closing quote is overwritten by a terminator
theorem set_closing {done rest : List Char}
    (hline : s.command_line = done ++ (q :: text ++ [q] ++ rest))
    (hi : s.i = done.length) : s.command_line.set (s.i + 1 + text.length) nul =
      done ++ q :: text ++ [nul] ++ rest ∧
      s.i + 1 + text.length + 1 = (done ++ q :: text ++ [nul]).length := by
  have hsplit : s.command_line = (done ++ q :: text) ++ q :: rest := by
    rw [hline]
    simp
  have hplace : s.i + 1 + text.length = (done ++ q :: text).length := by
    rw [hi,List.length_append,List.length_cons]
    omega
  rw [hsplit,hplace,List.set_append_right _ _ (Nat.le_refl _),Nat.sub_self,List.set_cons_zero]
  have hlen : (done ++ q :: text ++ [nul]).length = (done ++ q :: text).length + [nul].length :=
    List.length_append
  exact ⟨by simp,hlen.symm⟩

end Quotes

theorem foldl_blanks {blanks : List Char} (hne : blanks ≠ []) (hblanks : ∀ c ∈ blanks, isBlank c)
    (hquote : s.in_quote = false) (harg : s.in_arg = true) :
    blanks.foldl parseChar s = { s with
      command_line := s.command_line.set s.i nul
      in_arg := false
      i := s.i + blanks.length } := by
  cases blanks with
  | nil => exact absurd rfl hne
  | cons c blanks =>
    have hfirst := parseChar_blank (hblanks c List.mem_cons_self) hquote harg
    have hinert := foldl_inert (parseChar s c) blanks fun d hd i => by
      rw [hfirst]
      exact parseChar_skip (hblanks d (List.mem_cons_of_mem c hd)) hquote rfl
    rw [List.foldl_cons,hinert,hfirst,List.length_cons,Nat.add_comm blanks.length,← Nat.add_assoc]

end ParseChar

section Loop

theorem head_of_drop {α : Type} {l rest : List α} {i : ℕ} {a : α} (h : l.drop i = a :: rest) :
    l[i]? = some a ∧ l.drop (i + 1) = rest := by
  rw [← List.head?_drop,← List.tail_drop,h]
  exact ⟨rfl,rfl⟩

-- what the loop reads is the line as it was: it only writes behind itself
theorem parseLoop_eq {max_args : ℤ} {text tail : List Char} {s : ParseState} {fuel : ℕ}
    (hline : s.command_line.drop s.i = text ++ nul :: tail) (hnul : nul ∉ text)
    (hmax : ((text.foldl parseChar s).argc : ℤ) < max_args) (hfuel : text.length < fuel) :
    parseLoop max_args fuel s = some (text.foldl parseChar s) := by
  induction text generalizing s fuel with
  | nil =>
    obtain ⟨fuel,rfl⟩ := Nat.exists_eq_succ_of_ne_zero (Nat.ne_of_gt hfuel)
    rw [parseLoop,(head_of_drop hline).1,Option.bind_eq_bind,Option.bind_some,
      if_neg fun hand => hand.1 rfl]
    rfl
  | cons c text ih =>
    obtain ⟨fuel,rfl⟩ := Nat.exists_eq_succ_of_ne_zero (Nat.ne_of_gt (Nat.zero_lt_of_lt hfuel))
    obtain ⟨hread,hrest⟩ := head_of_drop hline
    have hc : c ≠ nul := fun hc => hnul (hc ▸ List.mem_cons_self)
    have hargc : (s.argc : ℤ) < max_args :=
      Int.lt_of_le_of_lt (Int.ofNat_le.mpr (foldl_argc s (c :: text))) hmax
    rw [parseLoop,hread,Option.bind_eq_bind,Option.bind_some,if_pos ⟨hc,hargc⟩,List.foldl_cons]
    refine ih ?_ (fun hmem => hnul (List.mem_cons_of_mem c hmem)) hmax (Nat.lt_of_succ_lt_succ hfuel)
    rw [parseChar_i,parseChar_ahead]
    exact hrest

end Loop

section Rendering

inductive Renders : CString → List Char → Prop
  | plain {arg} : arg ≠ [] → (∀ c ∈ arg, ¬ isQuote c ∧ ¬ isBlank c) → Renders arg arg
  | quoted {arg q} : isQuote q → q ∉ arg → Renders arg (q :: arg ++ [q])

inductive Line : List CString → List Char → Prop
  | nil : Line [] []
  | one {arg text} : Renders arg text → Line [arg] text
  | cons {arg text blanks args line} : Renders arg text → blanks ≠ [] →
      (∀ c ∈ blanks, isBlank c) → args ≠ [] → Line args line →
      Line (arg :: args) (text ++ blanks ++ line)

theorem renders_clean {arg text : List Char} (h : Renders arg text) (hnul : nul ∉ arg) :
    nul ∉ text := by
  cases h with
  | plain => exact hnul
  | quoted hq =>
    have hne : nul ≠ _ := fun heq => absurd (heq ▸ hq : isQuote nul) (by decide)
    simp [hne,hnul]

theorem line_clean {args : List CString} {line : List Char} (h : Line args line)
    (hnul : ∀ arg ∈ args, nul ∉ arg) : nul ∉ line := by
  induction h with
  | nil => exact List.not_mem_nil
  | one hr => exact renders_clean hr (hnul _ List.mem_cons_self)
  | cons hr _ hblanks _ _ ih =>
    have htext := renders_clean hr (hnul _ List.mem_cons_self)
    have hline := ih fun arg harg => hnul arg (List.mem_cons_of_mem _ harg)
    have hblank : nul ∉ _ := fun hmem => absurd (hblanks nul hmem) (by decide)
    simp [htext,hline,hblank]

end Rendering

section Scanned

-- the text up to i has been cut into args; the last one may still wait for its terminator
structure Scanned (s : ParseState) (args : List CString) (done rest : List Char) : Prop where
  command_line : s.command_line = done ++ rest
  i : s.i = done.length
  unquoted : s.in_quote = false
  argc : s.argc = args.length
  argv : ∀ (j : ℕ) (arg : CString), args[j]? = some arg → ∃ p, s.argv j = some p ∧
    Cut nul (if s.in_arg then done ++ [nul] else done) p arg

variable {s : ParseState} {args : List CString} {done rest : List Char}

theorem Scanned.blanks {blanks : List Char} (h : Scanned s args done (blanks ++ rest))
    (harg : s.in_arg = true) (hne : blanks ≠ []) (hblanks : ∀ c ∈ blanks, isBlank c) :
    ∃ done, Scanned (blanks.foldl parseChar s) args done rest ∧
      (blanks.foldl parseChar s).in_arg = false := by
  rw [foldl_blanks hne hblanks h.unquoted harg]
  obtain ⟨c,blanks,rfl⟩ := List.exists_cons_of_ne_nil hne
  refine ⟨done ++ nul :: blanks,⟨?_,?_,h.unquoted,h.argc,fun j arg hj => ?_⟩,rfl⟩
  · simp [h.command_line,h.i]
  · simp [h.i]
  · obtain ⟨p,hp,hcut⟩ := h.argv j arg hj
    rw [if_pos harg] at hcut
    have happend := hcut.append blanks
    rw [List.append_assoc] at happend
    exact ⟨p,hp,happend⟩

theorem Scanned.argv_append {arg text more : List Char} {q : ℕ}
    (h : Scanned s args done text) (harg : s.in_arg = false)
    (hq : Cut nul (done ++ more) q arg) (j : ℕ) (a : CString)
    (hj : (args ++ [arg])[j]? = some a) :
    ∃ p, Function.update s.argv s.argc (some q) j = some p ∧ Cut nul (done ++ more) p a := by
  rcases CArray.concat_cases hj with hj | ⟨rfl,rfl⟩
  · obtain ⟨p,hp,hcut⟩ := h.argv j a hj
    obtain ⟨hlt,-⟩ := List.getElem?_eq_some_iff.mp hj
    rw [harg,if_neg Bool.false_ne_true] at hcut
    rw [Function.update_of_ne (h.argc ▸ Nat.ne_of_lt hlt)]
    exact ⟨p,hp,hcut.append more⟩
  · rw [← h.argc,Function.update_self]
    exact ⟨q,rfl,hq⟩

theorem Scanned.argv_quoted {text more : List Char} (h : Scanned s args done more)
    (harg : s.in_arg = false) (hnul : nul ∉ text) (q : Char) (j : ℕ) (a : CString)
    (hj : (args ++ [text])[j]? = some a) :
    ∃ p, Function.update s.argv s.argc (some (s.i + 1)) j = some p ∧
      Cut nul (done ++ q :: text ++ [nul]) p a := by
  have hcut := cut_end (done ++ [q]) hnul
  rw [List.length_append,List.length_singleton,← h.i,List.append_assoc done] at hcut
  rw [List.append_assoc]
  exact h.argv_append harg (by rwa [List.append_assoc] at hcut) j a hj

theorem Scanned.plain {arg : List Char} (h : Scanned s args done (arg ++ rest))
    (harg : s.in_arg = false) (hne : arg ≠ []) (hplain : ∀ c ∈ arg, ¬ isQuote c ∧ ¬ isBlank c)
    (hnul : nul ∉ arg) : ∃ done, Scanned (arg.foldl parseChar s) (args ++ [arg]) done rest ∧
      (arg.foldl parseChar s).in_arg = true := by
  rw [foldl_plain hne hplain h.unquoted harg]
  refine ⟨done ++ arg,⟨?_,?_,h.unquoted,?_,?_⟩,rfl⟩
  · rw [List.append_assoc]
    exact h.command_line
  · rw [List.length_append,h.i]
  · rw [List.length_append,List.length_singleton,← h.argc]
    rfl
  · have hcut := cut_end done hnul
    rw [← h.i,List.append_assoc] at hcut
    rw [if_pos (by rfl),List.append_assoc]
    exact h.argv_append harg hcut

theorem Scanned.quoted {arg : List Char} {q : Char}
    (h : Scanned s args done (q :: arg ++ [q] ++ rest)) (harg : s.in_arg = false)
    (hquote : isQuote q) (hq : q ∉ arg) (hnul : nul ∉ arg) :
    ∃ done, Scanned ((q :: arg ++ [q]).foldl parseChar s) (args ++ [arg]) done rest ∧
      ((q :: arg ++ [q]).foldl parseChar s).in_arg = true := by
  rw [foldl_quoted hquote hq h.unquoted harg]
  obtain ⟨hset,hplace⟩ := set_closing h.command_line h.i
  refine ⟨done ++ q :: arg ++ [nul],⟨hset,hplace,rfl,?_,fun j a hj => ?_⟩,rfl⟩
  · rw [List.length_append,List.length_singleton,← h.argc]
    rfl
  · obtain ⟨p,hp,hcut⟩ := h.argv_quoted harg hnul q j a hj
    rw [if_pos (by rfl)]
    exact ⟨p,hp,hcut.append [nul]⟩

theorem Scanned.renders {arg text : List Char} (h : Scanned s args done (text ++ rest))
    (harg : s.in_arg = false) (hr : Renders arg text) (hnul : nul ∉ arg) :
    ∃ done, Scanned (text.foldl parseChar s) (args ++ [arg]) done rest ∧
      (text.foldl parseChar s).in_arg = true := by
  cases hr with
  | plain hne hplain => exact h.plain harg hne hplain hnul
  | quoted hquote hq => exact h.quoted harg hquote hq hnul

theorem Scanned.line {more : List CString} {line : List Char}
    (h : Scanned s args done (line ++ rest)) (harg : s.in_arg = false) (hl : Line more line)
    (hnul : ∀ arg ∈ more, nul ∉ arg) :
    ∃ done, Scanned (line.foldl parseChar s) (args ++ more) done rest := by
  induction hl generalizing s args done with
  | nil => exact ⟨done,by rw [List.append_nil]; exact h⟩
  | one hr =>
    obtain ⟨done,hscanned,-⟩ := h.renders harg hr (hnul _ List.mem_cons_self)
    exact ⟨done,hscanned⟩
  | cons hr hne hblanks _ _ ih =>
    rw [List.append_assoc,List.append_assoc] at h
    obtain ⟨mid,hmid,hin⟩ := h.renders harg hr (hnul _ List.mem_cons_self)
    obtain ⟨after,hafter,hout⟩ := hmid.blanks hin hne hblanks
    obtain ⟨last,hlast⟩ := ih hafter hout fun arg ha => hnul arg (List.mem_cons_of_mem _ ha)
    rw [List.foldl_append,List.foldl_append]
    rw [List.append_assoc] at hlast
    exact ⟨last,hlast⟩

end Scanned

-- tail is what the buffer holds behind the line
theorem quoted_arguments_survive (args : List CString) (line tail : List Char)
    (argv : ℕ → Option ℕ) (max_args : ℤ) (hline : Line args line)
    (hnul : ∀ arg ∈ args, nul ∉ arg) (hmax : (args.length : ℤ) < max_args) :
    ∃ buffer argv', shellParseArgs (line ++ nul :: tail) argv max_args =
        some ((args.length : ℤ),buffer,argv') ∧
      argv' args.length = none ∧
      ∀ (j : ℕ) (arg : CString), args[j]? = some arg →
        ∃ p, argv' j = some p ∧ content nul buffer p = arg := by
  let s : ParseState := ⟨line ++ nul :: tail,argv,0,0,false,false,nul⟩
  have hstart : Scanned s [] [] (line ++ nul :: tail) :=
    ⟨rfl,rfl,rfl,rfl,fun j arg hj => by cases hj⟩
  obtain ⟨done,hdone⟩ := hstart.line rfl hline hnul
  rw [List.nil_append] at hdone
  have hloop : parseLoop max_args (line ++ nul :: tail).length s =
      some (line.foldl parseChar s) := by
    refine parseLoop_eq rfl (line_clean hline hnul) (by rw [hdone.argc]; exact hmax) ?_
    rw [List.length_append,List.length_cons]
    omega
  refine ⟨(line.foldl parseChar s).command_line,
    Function.update (line.foldl parseChar s).argv args.length none,?_,Function.update_self ..,
    fun j arg hj => ?_⟩
  · rw [shellParseArgs,hloop,Option.bind_eq_bind,Option.bind_some,hdone.argc]
  · obtain ⟨hlt,-⟩ := List.getElem?_eq_some_iff.mp hj
    obtain ⟨p,hp,hcut⟩ := hdone.argv j arg hj
    refine ⟨p,by rw [Function.update_of_ne (Nat.ne_of_lt hlt),hp],?_⟩
    have hfinal : Cut nul (done ++ nul :: tail) p arg := by
      split at hcut
      · have happend := hcut.append tail
        rw [List.append_assoc] at happend
        exact happend
      · exact hcut.append (nul :: tail)
    rw [hdone.command_line]
    exact hfinal.content

-- a plain word, a sentence between double quotes and an empty string between single quotes
theorem quoted_arguments_survive_mixed : ∃ buffer argv',
    shellParseArgs ['l','s',' ','"','a',' ','\'','b','"','\t',' ','\'','\'',nul]
      (fun _ => none) 4 = some (3,buffer,argv') ∧
      argv' 3 = none ∧
      ∀ (j : ℕ) (arg : CString), [['l','s'],['a',' ','\'','b'],[]][j]? = some arg →
        ∃ p, argv' j = some p ∧ content nul buffer p = arg := by
  have hplain : Renders ['l','s'] ['l','s'] := .plain (by decide) (by simp [isQuote,isBlank])
  have hdouble : Renders ['a',' ','\'','b'] ('"' :: ['a',' ','\'','b'] ++ ['"']) :=
    .quoted (by decide) (by decide)
  have hsingle : Renders [] ('\'' :: [] ++ ['\'']) := .quoted (by decide) (by decide)
  have hrest : Line [['a',' ','\'','b'],[]]
      (('"' :: ['a',' ','\'','b'] ++ ['"']) ++ ['\t',' '] ++ ('\'' :: [] ++ ['\''])) :=
    .cons hdouble (by decide) (by simp [isBlank]) (by decide) (.one hsingle)
  have hline : Line [['l','s'],['a',' ','\'','b'],[]] (['l','s'] ++ [' '] ++ _) :=
    .cons hplain (by decide) (by simp [isBlank]) (by decide) hrest
  exact quoted_arguments_survive _ _ [] (fun _ => none) 4 hline (by decide) (by decide)

end KluxOS.Shell
