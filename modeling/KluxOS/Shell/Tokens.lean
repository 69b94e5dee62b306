import KluxOS.Lib.QuotedWords
import KluxOS.Shell.ParseArgs

namespace KluxOS.Shell

open QuotedWords Terminated

section Token

-- a run of plain characters goes on to the first closing quote, its opening quote included
def tokenTail : Word Char → List Char
  | [] => []
  | .plain c :: w => c :: tokenTail w
  | .quoted q text :: _ => q :: text
  | .opened q text :: _ => q :: text

-- what shell_parse_args makes of a word: a word that starts with a quote ends where it closes
def token : Word Char → List Char
  | .quoted _ text :: _ => text
  | .opened _ text :: _ => text
  | w => tokenTail w

theorem tokenTail_starts (w : Word Char) : tokenTail w <+: render w := by
  induction w with
  | nil => exact List.nil_prefix
  | cons p w ih =>
    cases p with
    | plain c => exact List.cons_prefix_cons.mpr ⟨rfl,ih⟩
    | quoted q text => exact ⟨q :: render w,by simp [tokenTail,Piece.render]⟩
    | opened q text => exact ⟨render w,by simp [tokenTail,Piece.render]⟩

theorem token_infix (w : Word Char) : token w <:+: render w := by
  cases w with
  | nil => exact List.nil_infix
  | cons p w =>
    cases p with
    | plain c => exact (tokenTail_starts (.plain c :: w)).isInfix
    | quoted q text => exact ⟨[q],q :: render w,by simp [token,Piece.render]⟩
    | opened q text => exact ⟨[q],render w,by simp [token,Piece.render]⟩

end Token

section Quotes

variable {s : ParseState} {q : Char} {text : List Char}

theorem parseChar_reopen (hq : isQuote q) (hquote : s.in_quote = false) (harg : s.in_arg = true) :
    parseChar s q = { s with in_quote := true, quote_char := q, i := s.i + 1 } := by
  simp only [parseChar,hq,hquote,harg,and_self,if_true,Bool.true_eq_false,if_false]

theorem foldl_reopened (hq : isQuote q) (hmem : q ∉ text) (hquote : s.in_quote = false)
    (harg : s.in_arg = true) : (q :: text).foldl parseChar s =
      { s with in_quote := true, quote_char := q, i := s.i + 1 + text.length } := by
  rw [List.foldl_cons,parseChar_reopen hq hquote harg]
  exact foldl_inside rfl harg hmem

theorem foldl_requoted (hq : isQuote q) (hmem : q ∉ text) (hquote : s.in_quote = false)
    (harg : s.in_arg = true) : (q :: text ++ [q]).foldl parseChar s = { s with
      in_quote := false
      quote_char := nul
      command_line := s.command_line.set (s.i + 1 + text.length) nul
      i := s.i + 1 + text.length + 1 } := by
  rw [List.foldl_append,foldl_reopened hq hmem hquote harg]
  exact parseChar_close rfl rfl

end Quotes

section Word

-- within a word that no quote has closed in yet: its token runs up to the scan
structure Running (s : ParseState) (args : List CString) (a done rest : List Char) : Prop where
  command_line : s.command_line = done ++ rest
  i : s.i = done.length
  inside : s.in_arg = true
  unquoted : s.in_quote = false
  argc : s.argc = args.length + 1
  argv : ∀ (j : ℕ) (arg : CString), args[j]? = some arg → ∃ p, s.argv j = some p ∧
    Cut nul done p arg
  last : ∃ before, done = before ++ a ∧ s.argv args.length = some before.length
  clean : nul ∉ a

-- within a word behind a closing quote: its token is cut
structure Sealed (s : ParseState) (args : List CString) (done rest : List Char) : Prop where
  command_line : s.command_line = done ++ rest
  i : s.i = done.length
  inside : s.in_arg = true
  unquoted : s.in_quote = false
  argc : s.argc = args.length
  argv : ∀ (j : ℕ) (arg : CString), args[j]? = some arg → ∃ p, s.argv j = some p ∧
    Cut nul done p arg

-- where the line ends: the NUL behind it cuts the token that is still open
structure Ended (s : ParseState) (args : List CString) (done rest : List Char) : Prop where
  command_line : s.command_line = done ++ rest
  argc : s.argc = args.length
  argv : ∀ (j : ℕ) (arg : CString), args[j]? = some arg → ∃ p, s.argv j = some p ∧
    Cut nul (done ++ [nul]) p arg

variable {s : ParseState} {args : List CString} {a done rest : List Char}

theorem cuts_append {argv : ℕ → Option ℕ} (h : ∀ (j : ℕ) (arg : CString), args[j]? = some arg →
      ∃ p, argv j = some p ∧ Cut nul done p arg) (more : List Char) (j : ℕ) (arg : CString)
    (hj : args[j]? = some arg) : ∃ p, argv j = some p ∧ Cut nul (done ++ more) p arg := by
  obtain ⟨p,hp,hcut⟩ := h j arg hj
  exact ⟨p,hp,hcut.append more⟩

theorem Scanned.ended (h : Scanned s args done rest) : Ended s args done rest := by
  refine ⟨h.command_line,h.argc,fun j arg hj => ?_⟩
  obtain ⟨p,hp,hcut⟩ := h.argv j arg hj
  refine ⟨p,hp,?_⟩
  split at hcut
  · exact hcut
  · exact hcut.append [nul]

theorem Sealed.scanned (h : Sealed s args done rest) : Scanned s args done rest := by
  refine ⟨h.command_line,h.i,h.unquoted,h.argc,?_⟩
  rw [h.inside,if_pos rfl]
  exact cuts_append h.argv [nul]

theorem last_token {t : ParseState} (hlast : ∃ before, done = before ++ a ∧
      t.argv args.length = some before.length) (hclean : nul ∉ a) {more : List Char}
    (hmore : nul ∉ more) (hargv : ∀ (j : ℕ) (arg : CString), args[j]? = some arg →
      ∃ p, t.argv j = some p ∧ Cut nul done p arg) (j : ℕ) (arg : CString)
    (hj : (args ++ [a ++ more])[j]? = some arg) :
    ∃ p, t.argv j = some p ∧ Cut nul (done ++ more ++ [nul]) p arg := by
  rcases CArray.concat_cases hj with hj | ⟨rfl,rfl⟩
  · rw [List.append_assoc]
    exact cuts_append hargv _ j arg hj
  · obtain ⟨before,hdone,hp⟩ := hlast
    have hmem : nul ∉ a ++ more := by
      rw [List.mem_append,not_or]
      exact ⟨hclean,hmore⟩
    have hcut := cut_end before hmem
    rw [← List.append_assoc before,← hdone] at hcut
    exact ⟨_,hp,hcut⟩

theorem Running.scanned (h : Running s args a done rest) : Scanned s (args ++ [a]) done rest := by
  refine ⟨h.command_line,h.i,h.unquoted,?_,fun j arg hj => ?_⟩
  · rw [h.argc,List.length_append,List.length_singleton]
  · rw [h.inside,if_pos rfl]
    have htoken := last_token h.last h.clean List.not_mem_nil h.argv j arg
      (by rwa [List.append_nil])
    rwa [List.append_nil] at htoken

variable {c q : Char} {text : List Char}

theorem Running.plain (h : Running s args a done (c :: rest)) (hc : ¬ isQuote c ∧ ¬ isBlank c)
    (hnul : c ≠ nul) : Running (parseChar s c) args (a ++ [c]) (done ++ [c]) rest := by
  rw [parseChar_more hc h.unquoted h.inside]
  refine ⟨?_,?_,h.inside,h.unquoted,h.argc,cuts_append h.argv [c],?_,?_⟩
  · rw [List.append_assoc]
    exact h.command_line
  · rw [List.length_append,List.length_singleton,← h.i]
  · obtain ⟨before,hdone,hp⟩ := h.last
    exact ⟨before,by rw [hdone,List.append_assoc],hp⟩
  · rw [List.mem_append,List.mem_singleton,not_or]
    exact ⟨h.clean,Ne.symm hnul⟩

theorem Sealed.plain (h : Sealed s args done (c :: rest)) (hc : ¬ isQuote c ∧ ¬ isBlank c) :
    Sealed (parseChar s c) args (done ++ [c]) rest := by
  rw [parseChar_more hc h.unquoted h.inside]
  refine ⟨?_,?_,h.inside,h.unquoted,h.argc,cuts_append h.argv [c]⟩
  · rw [List.append_assoc]
    exact h.command_line
  · rw [List.length_append,List.length_singleton,← h.i]

theorem Running.quoted (h : Running s args a done (q :: text ++ [q] ++ rest)) (hq : isQuote q)
    (hmem : q ∉ text) (hnul : nul ∉ q :: text) : Sealed ((q :: text ++ [q]).foldl parseChar s)
      (args ++ [a ++ q :: text]) (done ++ q :: text ++ [nul]) rest := by
  rw [foldl_requoted hq hmem h.unquoted h.inside]
  obtain ⟨hset,hplace⟩ := set_closing h.command_line h.i
  refine ⟨hset,hplace,h.inside,rfl,?_,fun j arg hj => ?_⟩
  · rw [List.length_append,List.length_singleton]
    exact h.argc
  · exact last_token h.last h.clean hnul h.argv j arg hj

theorem Sealed.quoted (h : Sealed s args done (q :: text ++ [q] ++ rest)) (hq : isQuote q)
    (hmem : q ∉ text) : Sealed ((q :: text ++ [q]).foldl parseChar s) args
      (done ++ q :: text ++ [nul]) rest := by
  rw [foldl_requoted hq hmem h.unquoted h.inside]
  obtain ⟨hset,hplace⟩ := set_closing h.command_line h.i
  refine ⟨hset,hplace,h.inside,rfl,h.argc,?_⟩
  rw [List.append_assoc]
  exact cuts_append h.argv _

theorem Scanned.plain_first (h : Scanned s args done (c :: rest)) (harg : s.in_arg = false)
    (hc : ¬ isQuote c ∧ ¬ isBlank c) (hnul : c ≠ nul) :
    Running (parseChar s c) args [c] (done ++ [c]) rest := by
  rw [parseChar_start hc h.unquoted harg]
  refine ⟨?_,?_,rfl,h.unquoted,?_,fun j arg hj => ?_,⟨done,rfl,?_⟩,?_⟩
  · rw [List.append_assoc]
    exact h.command_line
  · rw [List.length_append,List.length_singleton,← h.i]
  · rw [← h.argc]
    rfl
  · obtain ⟨p,hp,hcut⟩ := h.argv j arg hj
    obtain ⟨hlt,-⟩ := List.getElem?_eq_some_iff.mp hj
    rw [harg,if_neg Bool.false_ne_true] at hcut
    refine ⟨p,?_,hcut.append [c]⟩
    change Function.update s.argv s.argc (some s.i) j = some p
    rw [Function.update_of_ne (h.argc ▸ Nat.ne_of_lt hlt),hp]
  · change Function.update s.argv s.argc (some s.i) args.length = some done.length
    rw [← h.argc,Function.update_self,h.i]
  · rw [List.mem_singleton]
    exact Ne.symm hnul

theorem Scanned.quoted_first (h : Scanned s args done (q :: text ++ [q] ++ rest))
    (harg : s.in_arg = false) (hq : isQuote q) (hmem : q ∉ text) (hnul : nul ∉ text) :
    Sealed ((q :: text ++ [q]).foldl parseChar s) (args ++ [text]) (done ++ q :: text ++ [nul])
      rest := by
  rw [foldl_quoted hq hmem h.unquoted harg]
  obtain ⟨hset,hplace⟩ := set_closing h.command_line h.i
  refine ⟨hset,hplace,rfl,rfl,?_,h.argv_quoted harg hnul q⟩
  rw [List.length_append,List.length_singleton,← h.argc]
  rfl

theorem Running.opened (h : Running s args a done (q :: text ++ rest)) (hq : isQuote q)
    (hmem : q ∉ text) (hnul : nul ∉ q :: text) : Ended ((q :: text).foldl parseChar s)
      (args ++ [a ++ q :: text]) (done ++ q :: text) rest := by
  rw [foldl_reopened hq hmem h.unquoted h.inside]
  refine ⟨by rw [List.append_assoc]; exact h.command_line,?_,fun j arg hj => ?_⟩
  · rw [List.length_append,List.length_singleton]
    exact h.argc
  · exact last_token h.last h.clean hnul h.argv j arg hj

theorem Sealed.opened (h : Sealed s args done (q :: text ++ rest)) (hq : isQuote q)
    (hmem : q ∉ text) : Ended ((q :: text).foldl parseChar s) args (done ++ q :: text) rest := by
  rw [foldl_reopened hq hmem h.unquoted h.inside]
  refine ⟨by rw [List.append_assoc]; exact h.command_line,h.argc,?_⟩
  rw [List.append_assoc]
  exact cuts_append h.argv _

theorem Scanned.opened (h : Scanned s args done (q :: text ++ rest)) (harg : s.in_arg = false)
    (hq : isQuote q) (hmem : q ∉ text) (hnul : nul ∉ text) :
    Ended ((q :: text).foldl parseChar s) (args ++ [text]) (done ++ q :: text) rest := by
  rw [foldl_opened hq hmem h.unquoted harg]
  refine ⟨by rw [List.append_assoc]; exact h.command_line,?_,h.argv_quoted harg hnul q⟩
  rw [List.length_append,List.length_singleton,← h.argc]
  rfl

end Word

section Words

variable {s : ParseState} {args : List CString} {a done rest : List Char} {w : Word Char}

theorem Sealed.word (h : Sealed s args done (render w ++ rest))
    (hw : ∀ p ∈ w, Closed isQuote isBlank p) :
    ∃ done, Sealed ((render w).foldl parseChar s) args done rest := by
  induction w generalizing s done with
  | nil => exact ⟨done,h⟩
  | cons p w ih =>
    obtain ⟨hp,hmore⟩ := List.forall_mem_cons.mp hw
    rw [render_cons,List.append_assoc] at h
    rw [render_cons,List.foldl_append]
    cases p with
    | plain c => exact ih (h.plain hp) hmore
    | quoted q text => exact ih (h.quoted hp.1 hp.2) hmore
    | opened q text => exact hp.elim

-- behind some pieces of a word its token still runs on, or a quote has cut it
theorem Running.pieces (h : Running s args a done (render w ++ rest))
    (hw : ∀ p ∈ w, Closed isQuote isBlank p) (hnul : nul ∉ render w) : ∃ done,
      (Running ((render w).foldl parseChar s) args (a ++ tokenTail w) done rest ∧
        ∀ more, tokenTail (w ++ more) = tokenTail w ++ tokenTail more) ∨
      (Sealed ((render w).foldl parseChar s) (args ++ [a ++ tokenTail w]) done rest ∧
        ∀ more, tokenTail (w ++ more) = tokenTail w) := by
  induction w generalizing s a done with
  | nil =>
    rw [tokenTail,List.append_nil]
    exact ⟨done,.inl ⟨h,fun _ => rfl⟩⟩
  | cons p w ih =>
    obtain ⟨hp,hmore⟩ := List.forall_mem_cons.mp hw
    rw [render_cons,List.append_assoc] at h
    rw [render_cons,List.mem_append,not_or] at hnul
    rw [render_cons,List.foldl_append]
    cases p with
    | plain c =>
      have hrunning := h.plain hp fun hc => hnul.1 (hc ▸ List.mem_cons_self)
      obtain ⟨done,hafter⟩ := ih hrunning hmore hnul.2
      rw [List.append_assoc] at hafter
      exact ⟨done,hafter.imp (fun hrun => ⟨hrun.1,fun more => congrArg (c :: ·) (hrun.2 more)⟩)
        fun hcut => ⟨hcut.1,fun more => congrArg (c :: ·) (hcut.2 more)⟩⟩
    | quoted q text =>
      have hsealed := h.quoted hp.1 hp.2 fun hmem => hnul.1 (List.mem_append_left _ hmem)
      obtain ⟨done,hsealed⟩ := hsealed.word hmore
      exact ⟨done,.inr ⟨hsealed,fun _ => rfl⟩⟩
    | opened q text => exact hp.elim

theorem Scanned.pieces (h : Scanned s args done (render w ++ rest)) (harg : s.in_arg = false)
    (hne : w ≠ []) (hw : ∀ p ∈ w, Closed isQuote isBlank p) (hnul : nul ∉ render w) : ∃ done,
      (Running ((render w).foldl parseChar s) args (token w) done rest ∧
        ∀ more, token (w ++ more) = token w ++ tokenTail more) ∨
      (Sealed ((render w).foldl parseChar s) (args ++ [token w]) done rest ∧
        ∀ more, token (w ++ more) = token w) := by
  obtain ⟨p,w,rfl⟩ := List.exists_cons_of_ne_nil hne
  obtain ⟨hp,hmore⟩ := List.forall_mem_cons.mp hw
  rw [render_cons,List.append_assoc] at h
  rw [render_cons,List.mem_append,not_or] at hnul
  rw [render_cons,List.foldl_append]
  cases p with
  | plain c =>
    have hrunning := h.plain_first harg hp fun hc => hnul.1 (hc ▸ List.mem_cons_self)
    obtain ⟨done,hafter⟩ := hrunning.pieces hmore hnul.2
    exact ⟨done,hafter.imp (fun hrun => ⟨hrun.1,fun more => congrArg (c :: ·) (hrun.2 more)⟩)
      fun hcut => ⟨hcut.1,fun more => congrArg (c :: ·) (hcut.2 more)⟩⟩
  | quoted q text =>
    have hsealed := h.quoted_first harg hp.1 hp.2 fun hmem =>
      hnul.1 (List.mem_append_left _ (List.mem_cons_of_mem q hmem))
    obtain ⟨done,hsealed⟩ := hsealed.word hmore
    exact ⟨done,.inr ⟨hsealed,fun _ => rfl⟩⟩
  | opened q text => exact hp.elim

theorem Scanned.word (h : Scanned s args done (render w ++ rest)) (harg : s.in_arg = false)
    (hne : w ≠ []) (hw : ∀ p ∈ w, Closed isQuote isBlank p) (hnul : nul ∉ render w) :
    ∃ done, Scanned ((render w).foldl parseChar s) (args ++ [token w]) done rest ∧
      ((render w).foldl parseChar s).in_arg = true := by
  obtain ⟨done,⟨hrunning,-⟩ | ⟨hsealed,-⟩⟩ := h.pieces harg hne hw hnul
  · exact ⟨done,hrunning.scanned,hrunning.inside⟩
  · exact ⟨done,hsealed.scanned,hsealed.inside⟩

theorem Scanned.opened_word {q : Char} {text : List Char}
    (h : Scanned s args done (render w ++ q :: text ++ rest)) (harg : s.in_arg = false)
    (hw : ∀ p ∈ w, Closed isQuote isBlank p) (hq : isQuote q) (hmem : q ∉ text)
    (hnul : nul ∉ render w ++ q :: text) : ∃ done,
      Ended ((render w ++ q :: text).foldl parseChar s) (args ++ [token (w ++ [.opened q text])])
        done rest := by
  by_cases hne : w = []
  · subst hne
    exact ⟨_,h.opened harg hq hmem fun hn => hnul (List.mem_cons_of_mem q hn)⟩
  · rw [List.append_assoc] at h
    rw [List.mem_append,not_or] at hnul
    rw [List.foldl_append]
    obtain ⟨done,⟨hrunning,htoken⟩ | ⟨hsealed,htoken⟩⟩ := h.pieces harg hne hw hnul.1
    · rw [htoken]
      exact ⟨_,hrunning.opened hq hmem hnul.2⟩
    · rw [htoken]
      exact ⟨_,hsealed.opened hq hmem⟩

theorem Scanned.blank {c : Char} (h : Scanned s args done (c :: rest)) (hc : isBlank c) :
    ∃ done, Scanned (parseChar s c) args done rest ∧ (parseChar s c).in_arg = false := by
  by_cases harg : s.in_arg = true
  · have hblanks : ∀ d ∈ [c], isBlank d := fun d hd => (List.mem_singleton.mp hd) ▸ hc
    exact Scanned.blanks h harg (List.cons_ne_nil c []) hblanks
  · have harg' : s.in_arg = false := Bool.not_eq_true _ ▸ harg
    rw [parseChar_skip hc h.unquoted harg']
    refine ⟨done ++ [c],⟨?_,?_,h.unquoted,h.argc,fun j arg hj => ?_⟩,harg'⟩
    · rw [List.append_assoc]
      exact h.command_line
    · rw [List.length_append,List.length_singleton,← h.i]
    · obtain ⟨p,hp,hcut⟩ := h.argv j arg hj
      rw [if_neg harg] at hcut
      exact ⟨p,hp,by rw [if_neg harg]; exact hcut.append [c]⟩

theorem isBlank_disjoint (c : Char) (hc : isBlank c) : ¬ isQuote c := not_quote hc

theorem Scanned.reads {words : List (Word Char)} {line : List Char}
    (h : Scanned s args done (line ++ rest)) (harg : s.in_arg = true → Ends isBlank line)
    (hr : Reads isQuote isBlank words line) (hnul : nul ∉ line) :
    ∃ done, Ended (line.foldl parseChar s) (args ++ words.map token) done rest := by
  induction hr generalizing s args done with
  | nil =>
    rw [List.map_nil,List.append_nil]
    exact ⟨done,h.ended⟩
  | blank hc _ ih =>
    obtain ⟨done,hscanned,hout⟩ := h.blank hc
    exact ih hscanned (fun hin => absurd (hout.symm.trans hin) Bool.false_ne_true)
      fun hmem => hnul (List.mem_cons_of_mem _ hmem)
  | @word w words line hne hw hends _ ih =>
    rw [List.append_assoc] at h
    rw [List.mem_append,not_or] at hnul
    obtain ⟨c,more,hhead,hc⟩ := render_head isBlank_disjoint hne hw
    have hout : s.in_arg = false := by
      rw [← Bool.not_eq_true]
      exact fun hin => hc (harg hin c (more ++ line) (by rw [hhead,List.cons_append]))
    obtain ⟨done,hscanned,-⟩ := h.word hout hne hw hnul.1
    obtain ⟨done,hended⟩ := ih hscanned (fun _ => hends) hnul.2
    rw [List.append_assoc] at hended
    rw [List.foldl_append,List.map_cons]
    exact ⟨done,hended⟩
  | @opened w q text hw hq hmem =>
    have hout : s.in_arg = false := by
      rw [← Bool.not_eq_true]
      intro hin
      cases w with
      | nil => exact isBlank_disjoint q (harg hin q text rfl) hq
      | cons p w =>
        obtain ⟨c,more,hhead,hc⟩ := render_head isBlank_disjoint (List.cons_ne_nil p w) hw
        exact hc (harg hin c (more ++ q :: text) (by rw [hhead,List.cons_append]))
    exact h.opened_word hout hw hq hmem hnul

theorem parseChar_length (s : ParseState) (c : Char) :
    (parseChar s c).command_line.length = s.command_line.length := by
  simp only [parseChar,startArg]
  split_ifs <;> simp only [List.length_set]

theorem foldl_length (text : List Char) (s : ParseState) :
    (text.foldl parseChar s).command_line.length = s.command_line.length := by
  induction text generalizing s with
  | nil => rfl
  | cons c text ih => rw [List.foldl_cons,ih,parseChar_length]

theorem parseChar_argv (s : ParseState) (c : Char) {k : ℕ} (hk : (parseChar s c).argc ≤ k) :
    (parseChar s c).argv k = s.argv k := by
  revert hk
  simp only [parseChar,startArg]
  -- only a branch that starts an argument writes argv, at the old argc
  split_ifs <;> intro hk <;> first | rfl | exact Function.update_of_ne (Nat.ne_of_gt hk) ..

theorem foldl_argv (text : List Char) (s : ParseState) {k : ℕ}
    (hk : (text.foldl parseChar s).argc ≤ k) : (text.foldl parseChar s).argv k = s.argv k := by
  induction text generalizing s with
  | nil => rfl
  | cons c text ih =>
    rw [List.foldl_cons] at hk ⊢
    rw [ih (parseChar s c) hk,parseChar_argv s c (Nat.le_trans (foldl_argc _ text) hk)]

-- the state before the first character
def parseStart (command_line : List Char) (argv : ℕ → Option ℕ) : ParseState :=
  ⟨command_line,argv,0,0,false,false,nul⟩

theorem parseStart_scanned (command_line : List Char) (argv : ℕ → Option ℕ) :
    Scanned (parseStart command_line argv) [] [] command_line :=
  ⟨rfl,rfl,rfl,rfl,fun _ _ hj => by cases hj⟩

-- the whole line scanned: one token a word, and nothing behind the line touched
theorem parse_ended {words : List (Word Char)} {line : List Char} (tail : List Char)
    (argv : ℕ → Option ℕ) (hr : Reads isQuote isBlank words line) (hnul : nul ∉ line) :
    ∃ done, done.length = line.length ∧ Ended
      (line.foldl parseChar (parseStart (line ++ nul :: tail) argv)) (words.map token) done
      (nul :: tail) := by
  have hstart := parseStart_scanned (line ++ nul :: tail) argv
  obtain ⟨done,hended⟩ := hstart.reads (fun hin => by cases hin) hr hnul
  refine ⟨done,?_,hended⟩
  have hlen := foldl_length line (parseStart (line ++ nul :: tail) argv)
  rw [hended.command_line,parseStart,List.length_append,List.length_append] at hlen
  omega

theorem Ended.content {tail : List Char} (h : Ended s args done (nul :: tail)) {j : ℕ}
    {arg : CString} (hj : args[j]? = some arg) :
    ∃ p, s.argv j = some p ∧ content nul s.command_line p = arg := by
  obtain ⟨p,hp,hcut⟩ := h.argv j arg hj
  have hfinal := hcut.append tail
  rw [List.append_assoc,List.singleton_append,← h.command_line] at hfinal
  exact ⟨p,hp,hfinal.content⟩

theorem shellParseArgs_tokens {words : List (Word Char)} {line : List Char} (tail : List Char)
    (argv : ℕ → Option ℕ) {max_args : ℤ} (hr : Reads isQuote isBlank words line)
    (hnul : nul ∉ line) (hmax : (words.length : ℤ) < max_args) : ∃ done argv',
      shellParseArgs (line ++ nul :: tail) argv max_args =
        some ((words.length : ℤ),done ++ nul :: tail,argv') ∧ done.length = line.length ∧
      (∀ k, words.length < k → argv' k = argv k) ∧ ∀ (j : ℕ) (w : Word Char), words[j]? = some w →
        ∃ p, argv' j = some p ∧ content nul (done ++ nul :: tail) p = token w := by
  obtain ⟨done,hlen,hended⟩ := parse_ended tail argv hr hnul
  have hargc := hended.argc
  rw [List.length_map] at hargc
  have hloop : parseLoop max_args (line ++ nul :: tail).length
      (parseStart (line ++ nul :: tail) argv) =
        some (line.foldl parseChar (parseStart (line ++ nul :: tail) argv)) := by
    refine parseLoop_eq rfl hnul (by rw [hargc]; exact hmax) ?_
    rw [List.length_append,List.length_cons]
    omega
  refine ⟨done,Function.update (line.foldl parseChar
    (parseStart (line ++ nul :: tail) argv)).argv words.length none,?_,hlen,
    fun k hk => ?_,fun j w hj => ?_⟩
  · rw [parseStart] at hloop
    rw [shellParseArgs,hloop,Option.bind_eq_bind,Option.bind_some,← parseStart,hargc,
      hended.command_line]
  · rw [Function.update_of_ne (Nat.ne_of_gt hk),foldl_argv line _ (hargc ▸ Nat.le_of_lt hk)]
    rfl
  · obtain ⟨hlt,-⟩ := List.getElem?_eq_some_iff.mp hj
    have htoken : (words.map token)[j]? = some (token w) := by rw [List.getElem?_map,hj]; rfl
    obtain ⟨p,hp,hcontent⟩ := hended.content htoken
    rw [hended.command_line] at hcontent
    exact ⟨p,by rw [Function.update_of_ne (Nat.ne_of_lt hlt),hp],hcontent⟩

end Words

end KluxOS.Shell
