import KluxOS.Shell.Tokens

namespace KluxOS.Shell

open QuotedWords Terminated

section Survives

def IsPlain (p : Piece Char) : Prop := ∃ c, p = .plain c

-- a word comes out whole without quotes, behind one quoted piece, or where the quote that is kept
-- stands for itself
def Survives (w : Word Char) : Prop :=
  (∀ p ∈ w, IsPlain p) ∨ (∃ q text more, w = .quoted q text :: more ∧ meaning more = []) ∨
    ∃ run q more, run ≠ [] ∧ (∀ p ∈ run, IsPlain p) ∧ w = run ++ .quoted q [] :: more ∧
      meaning more = [q]

variable {w run more : Word Char} {q : Char} {text : List Char}

theorem plain_or_quoted (hw : ∀ p ∈ w, Closed isQuote isBlank p) : (∀ p ∈ w, IsPlain p) ∨
    ∃ run q text more, (∀ p ∈ run, IsPlain p) ∧ q ∉ text ∧ w = run ++ .quoted q text :: more := by
  induction w with
  | nil => exact .inl fun _ hp => absurd hp List.not_mem_nil
  | cons p w ih =>
    obtain ⟨hp,hmore⟩ := List.forall_mem_cons.mp hw
    cases p with
    | plain c =>
      have hc : IsPlain (.plain c) := ⟨c,rfl⟩
      rcases ih hmore with hplain | ⟨run,q,text,more,hrun,hmem,rfl⟩
      · exact .inl (List.forall_mem_cons.mpr ⟨hc,hplain⟩)
      · exact .inr ⟨.plain c :: run,q,text,more,List.forall_mem_cons.mpr ⟨hc,hrun⟩,hmem,rfl⟩
    | quoted q text =>
      exact .inr ⟨[],q,text,w,fun _ hr => absurd hr List.not_mem_nil,hp.2,rfl⟩
    | opened q text => exact hp.elim

theorem tokenTail_run (hrun : ∀ p ∈ run, IsPlain p) (w : Word Char) :
    tokenTail (run ++ w) = meaning run ++ tokenTail w := by
  induction run with
  | nil => rfl
  | cons p run ih =>
    obtain ⟨⟨c,rfl⟩,hmore⟩ := List.forall_mem_cons.mp hrun
    rw [List.cons_append,tokenTail,ih hmore]
    rfl

theorem token_run (hne : run ≠ []) (hrun : ∀ p ∈ run, IsPlain p) (w : Word Char) :
    token (run ++ w) = meaning run ++ tokenTail w := by
  rw [← tokenTail_run hrun]
  cases run with
  | nil => exact absurd rfl hne
  | cons p run =>
    obtain ⟨c,rfl⟩ := hrun p List.mem_cons_self
    rfl

theorem token_plain (hw : ∀ p ∈ w, IsPlain p) : token w = meaning w := by
  cases w with
  | nil => rfl
  | cons p w =>
    have hrun := token_run (List.cons_ne_nil p w) hw []
    rwa [List.append_nil,tokenTail,List.append_nil] at hrun

theorem token_quoted (hne : run ≠ []) (hrun : ∀ p ∈ run, IsPlain p) (hmem : q ∉ text) :
    token (run ++ .quoted q text :: more) = meaning (run ++ .quoted q text :: more) ↔
      text = [] ∧ meaning more = [q] := by
  rw [token_run hne hrun,tokenTail,meaning_append,meaning_cons,Piece.meaning,
    List.append_cancel_left_eq]
  cases text with
  | nil => exact ⟨fun h => ⟨rfl,h.symm⟩,fun h => h.2.symm⟩
  | cons c text =>
    constructor
    · intro h
      rw [List.cons_append,List.cons.injEq] at h
      exact absurd (h.1 ▸ List.mem_cons_self) hmem
    · intro h
      exact absurd h.1 (List.cons_ne_nil c text)

theorem token_iff_survives (hw : ∀ p ∈ w, Closed isQuote isBlank p) :
    token w = meaning w ↔ Survives w := by
  constructor
  · intro htoken
    rcases plain_or_quoted hw with hplain | ⟨run,q,text,more,hrun,hmem,rfl⟩
    · exact .inl hplain
    · by_cases hne : run = []
      · subst hne
        rw [List.nil_append,token,meaning_cons,Piece.meaning,List.self_eq_append_right] at htoken
        exact .inr (.inl ⟨q,text,more,rfl,htoken⟩)
      · obtain ⟨rfl,hmore⟩ := (token_quoted hne hrun hmem).mp htoken
        exact .inr (.inr ⟨run,q,more,hne,hrun,rfl,hmore⟩)
  · rintro (hplain | ⟨q,text,more,rfl,hmore⟩ | ⟨run,q,more,hne,hrun,rfl,hmore⟩)
    · exact token_plain hplain
    · rw [token,meaning_cons,hmore,List.append_nil,Piece.meaning]
    · exact (token_quoted hne hrun List.not_mem_nil).mpr ⟨rfl,hmore⟩

end Survives

section ReturnsWords

-- argv[0..argc) are the words as their line means them
def ReturnsWords (command_line : List Char) (argv : ℕ → Option ℕ) (max_args : ℤ)
    (words : List (Word Char)) : Prop :=
  ∃ buffer argv', shellParseArgs command_line argv max_args =
      some ((words.length : ℤ),buffer,argv') ∧
    ∀ (j : ℕ) (w : Word Char), words[j]? = some w →
      ∃ p, argv' j = some p ∧ content nul buffer p = meaning w

variable {words : List (Word Char)} {line : List Char} {max_args : ℤ}

theorem returnsWords_iff (tail : List Char) (argv : ℕ → Option ℕ)
    (hr : Reads isQuote isBlank words line) (hnul : nul ∉ line)
    (hmax : (words.length : ℤ) < max_args) :
    ReturnsWords (line ++ nul :: tail) argv max_args words ↔ ∀ w ∈ words, token w = meaning w := by
  obtain ⟨done,argv',hparse,-,-,htoken⟩ := shellParseArgs_tokens tail argv hr hnul hmax
  constructor
  · rintro ⟨buffer,argv'',hresult,hmeaning⟩ w hw
    rw [hparse] at hresult
    cases hresult
    obtain ⟨j,hj⟩ := List.mem_iff_getElem?.mp hw
    obtain ⟨p,hp,hcontent⟩ := htoken j w hj
    obtain ⟨p',hp',hword⟩ := hmeaning j w hj
    cases hp.symm.trans hp'
    exact hcontent.symm.trans hword
  · intro hmeaning
    refine ⟨_,argv',hparse,fun j w hj => ?_⟩
    obtain ⟨p,hp,hcontent⟩ := htoken j w hj
    exact ⟨p,hp,hcontent.trans (hmeaning w (List.mem_of_getElem? hj))⟩

theorem parse_args_words_iff (line tail : List Char) (argv : ℕ → Option ℕ) (max_args : ℤ)
    (hnul : nul ∉ line) (hbalanced : Balanced isQuote line) :
    (∃ words, Reads isQuote isBlank words line) ∧
      ∀ words, Reads isQuote isBlank words line → (words.length : ℤ) < max_args →
        (ReturnsWords (line ++ nul :: tail) argv max_args words ↔ ∀ w ∈ words, Survives w) := by
  refine ⟨(reads_total line).1,fun words hr hmax => ?_⟩
  have hclosed := hr.closed isBlank_disjoint hbalanced
  rw [returnsWords_iff tail argv hr hnul hmax]
  exact forall₂_congr fun w hw => token_iff_survives (hclosed w hw).2

-- cd "a b"
theorem parse_args_words_quoted : ReturnsWords
    (['c','d',' ','"','a',' ','b','"'] ++ nul :: []) (fun _ => none) 64
    [[.plain 'c',.plain 'd'],[.quoted '"' ['a',' ','b']]] := by
  have hr : Reads isQuote isBlank [[.plain 'c',.plain 'd'],[.quoted '"' ['a',' ','b']]]
      ['c','d',' ','"','a',' ','b','"'] := by
    have hrest : Reads isQuote isBlank [[.quoted '"' ['a',' ','b']]]
        (render [.quoted '"' ['a',' ','b']] ++ []) :=
      .word (by decide) (by simp [Closed,isQuote]) (by simp [Ends]) .nil
    exact .word (w := [.plain 'c',.plain 'd']) (by decide) (by simp [Closed,isQuote,isBlank])
      (by simp [Ends,isBlank]) (.blank (.inl rfl) hrest)
  refine ((parse_args_words_iff ['c','d',' ','"','a',' ','b','"'] [] (fun _ => none) 64
    (by decide) rfl).2 _ hr (by decide)).mpr ?_
  exact List.forall_mem_cons.mpr ⟨.inl (by simp [IsPlain]),List.forall_mem_cons.mpr
    ⟨.inr (.inl ⟨'"',['a',' ','b'],[],rfl,rfl⟩),fun _ hw => absurd hw List.not_mem_nil⟩⟩

-- the opening quote of x"y" stays in the word
theorem quote_inside_word_kept : ¬ ∀ (words : List (Word Char)) (line tail : List Char)
    (argv : ℕ → Option ℕ) (max_args : ℤ), nul ∉ line → Balanced isQuote line →
      Reads isQuote isBlank words line → (words.length : ℤ) < max_args →
      ReturnsWords (line ++ nul :: tail) argv max_args words := by
  intro h
  have hr : Reads isQuote isBlank [[.plain 'x',.quoted '"' ['y']]]
      (render [.plain 'x',.quoted '"' ['y']] ++ []) :=
    .word (by decide) (by simp [Closed,isQuote,isBlank]) (by simp [Ends]) .nil
  have hclean : nul ∉ render [.plain 'x',.quoted '"' ['y']] ++ [] := by decide
  have hreturns := h _ _ [] (fun _ => none) 64 hclean rfl hr (by decide)
  rw [returnsWords_iff [] _ hr hclean (by decide)] at hreturns
  exact absurd (hreturns _ List.mem_cons_self) (by decide)

end ReturnsWords

end KluxOS.Shell
