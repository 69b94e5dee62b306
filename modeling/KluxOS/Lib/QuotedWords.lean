import Mathlib.Data.List.Basic
import Mathlib.Data.Nat.Notation

namespace QuotedWords

variable {α : Type}

-- opened is a quote that the line never closes
inductive Piece (α : Type) where
  | plain (c : α)
  | quoted (q : α) (text : List α)
  | opened (q : α) (text : List α)

namespace Piece

def render : Piece α → List α
  | plain c => [c]
  | quoted q text => q :: text ++ [q]
  | opened q text => q :: text

def meaning : Piece α → List α
  | plain c => [c]
  | quoted _ text => text
  | opened _ text => text

end Piece

abbrev Word (α : Type) := List (Piece α)

def render (w : Word α) : List α := w.flatMap Piece.render

def meaning (w : Word α) : List α := w.flatMap Piece.meaning

section Render

variable (p : Piece α) (w w' : Word α)

@[simp] theorem render_nil : render ([] : Word α) = [] := rfl

@[simp] theorem render_cons : render (p :: w) = p.render ++ render w := List.flatMap_cons

@[simp] theorem render_append : render (w ++ w') = render w ++ render w' := List.flatMap_append

@[simp] theorem meaning_nil : meaning ([] : Word α) = [] := rfl

@[simp] theorem meaning_cons : meaning (p :: w) = p.meaning ++ meaning w := List.flatMap_cons

@[simp] theorem meaning_append : meaning (w ++ w') = meaning w ++ meaning w' := List.flatMap_append

end Render

section Grammar

variable (quote blank : α → Prop)

def Closed : Piece α → Prop
  | .plain c => ¬ quote c ∧ ¬ blank c
  | .quoted q text => quote q ∧ q ∉ text
  | .opened _ _ => False

def Ends (line : List α) : Prop := ∀ c rest, line = c :: rest → blank c

-- words set apart by blanks; pieces that touch are one word
inductive Reads : List (Word α) → List α → Prop
  | nil : Reads [] []
  | blank {c words line} : blank c → Reads words line → Reads words (c :: line)
  | word {w words line} : w ≠ [] → (∀ p ∈ w, Closed quote blank p) → Ends blank line →
      Reads words line → Reads (w :: words) (render w ++ line)
  | opened {w q text} : (∀ p ∈ w, Closed quote blank p) → quote q → q ∉ text →
      Reads [w ++ [.opened q text]] (render w ++ q :: text)

variable {quote blank} {w : Word α} {line : List α}

theorem render_head (hdisjoint : ∀ c, blank c → ¬ quote c) (hne : w ≠ [])
    (hw : ∀ p ∈ w, Closed quote blank p) : ∃ c rest, render w = c :: rest ∧ ¬ blank c := by
  obtain ⟨p,more,rfl⟩ := List.exists_cons_of_ne_nil hne
  have hp := hw p List.mem_cons_self
  cases p with
  | plain c => exact ⟨c,render more,rfl,hp.2⟩
  | quoted q text =>
    refine ⟨q,text ++ [q] ++ render more,?_,fun hblank => hdisjoint q hblank hp.1⟩
    rw [render_cons,Piece.render,List.cons_append,List.cons_append]
  | opened q text => exact hp.elim

section Total

-- how a line goes on within a word: to the word's end, or into a quote that stays open
inductive Continues (quote blank : α → Prop) (line : List α) : Prop
  | ends (w : Word α) (rest : List α) (words : List (Word α)) :
      (∀ p ∈ w, Closed quote blank p) → line = render w ++ rest → Ends blank rest →
      Reads quote blank words rest → Continues quote blank line
  | opens (w : Word α) (q : α) (text : List α) : (∀ p ∈ w, Closed quote blank p) → quote q →
      q ∉ text → line = render w ++ q :: text → Continues quote blank line

theorem Continues.cons {p : Piece α} (hp : Closed quote blank p) (h : Continues quote blank line) :
    Continues quote blank (p.render ++ line) := by
  have hmore {w : Word α} (hw : ∀ p ∈ w, Closed quote blank p) :
      ∀ r ∈ p :: w, Closed quote blank r := List.forall_mem_cons.mpr ⟨hp,hw⟩
  cases h with
  | ends w rest words hw hline hends hreads =>
    refine .ends (p :: w) rest words (hmore hw) ?_ hends hreads
    rw [hline,render_cons,List.append_assoc]
  | opens w q text hw hq htext hline =>
    refine .opens (p :: w) q text (hmore hw) hq htext ?_
    rw [hline,render_cons,List.append_assoc]

def Closes (quote blank : α → Prop) (q : α) (line : List α) : Prop :=
  q ∉ line ∨ ∃ text rest, line = text ++ q :: rest ∧ q ∉ text ∧ Continues quote blank rest

theorem Closes.cons {c q : α} (hc : c ≠ q) (h : Closes quote blank q line) :
    Closes quote blank q (c :: line) := by
  rcases h with hopen | ⟨text,rest,rfl,htext,hrest⟩
  · exact .inl (List.not_mem_cons_of_ne_of_not_mem (Ne.symm hc) hopen)
  · exact .inr ⟨c :: text,rest,rfl,List.not_mem_cons_of_ne_of_not_mem (Ne.symm hc) htext,hrest⟩

theorem Continues.of_quote {q : α} (hq : quote q) (h : Closes quote blank q line) :
    Continues quote blank (q :: line) := by
  rcases h with hopen | ⟨text,rest,rfl,htext,hrest⟩
  · exact .opens [] q line (fun _ hp => absurd hp List.not_mem_nil) hq hopen rfl
  · have hpiece := hrest.cons (p := .quoted q text) ⟨hq,htext⟩
    rw [Piece.render,List.cons_append,List.cons_append,List.append_assoc] at hpiece
    exact hpiece

-- a word begins where the line does not go on with a blank
theorem Continues.reads {c : α} (hc : ¬ blank c) (h : Continues quote blank (c :: line)) :
    ∃ words, Reads quote blank words (c :: line) := by
  cases h with
  | ends w rest words hw hline hends hreads =>
    refine ⟨w :: words,?_⟩
    rw [hline]
    refine .word ?_ hw hends hreads
    rintro rfl
    exact hc (hends c line hline.symm)
  | opens w q text hw hq htext hline =>
    refine ⟨[w ++ [.opened q text]],?_⟩
    rw [hline]
    exact .opened hw hq htext

theorem reads_total (line : List α) : (∃ words, Reads quote blank words line) ∧
    Continues quote blank line ∧ ∀ q, quote q → Closes quote blank q line := by
  induction line with
  | nil =>
    refine ⟨⟨[],.nil⟩,.ends [] [] [] (fun _ hp => absurd hp List.not_mem_nil) rfl ?_ .nil,
      fun _ _ => .inl List.not_mem_nil⟩
    intro c rest hcons
    cases hcons
  | cons c line ih =>
    obtain ⟨⟨words,hreads⟩,hcontinues,hcloses⟩ := ih
    have hquoted : ∀ q, quote q → Closes quote blank q (c :: line) := by
      intro q hq
      by_cases hc : c = q
      · subst hc
        exact .inr ⟨[],line,rfl,List.not_mem_nil,hcontinues⟩
      · exact (hcloses q hq).cons hc
    by_cases hblank : blank c
    · have hline : Reads quote blank words (c :: line) := .blank hblank hreads
      refine ⟨⟨words,hline⟩,.ends [] (c :: line) words (fun _ hp => absurd hp List.not_mem_nil) rfl
        ?_ hline,hquoted⟩
      intro d rest hcons
      cases hcons
      exact hblank
    · have hword : Continues quote blank (c :: line) := by
        by_cases hquote : quote c
        · exact .of_quote hquote (hcloses c hquote)
        · exact hcontinues.cons (p := .plain c) ⟨hquote,hblank⟩
      exact ⟨hword.reads hblank,hword,hquoted⟩

end Total

section Balanced

variable [DecidablePred quote] [DecidableEq α]

-- the quote that is open after one more character
def nextQuote (quote : α → Prop) [DecidablePred quote] (q : Option α) (c : α) : Option α :=
  match q with
  | none => if quote c then some c else none
  | some q => if c = q then none else some q

def Balanced (quote : α → Prop) [DecidablePred quote] (line : List α) : Prop :=
  line.foldl (nextQuote quote) none = none

theorem nextQuote_inside {q c : α} (hc : c ≠ q) : nextQuote quote (some q) c = some q := if_neg hc

theorem nextQuote_opens {q : α} (hq : quote q) : nextQuote quote none q = some q := if_pos hq

theorem nextQuote_outside {c : α} (hc : ¬ quote c) : nextQuote quote none c = none := if_neg hc

theorem foldl_nextQuote_inside {q : α} {text : List α} (h : q ∉ text) :
    text.foldl (nextQuote quote) (some q) = some q := by
  induction text with
  | nil => rfl
  | cons c text ih =>
    obtain ⟨hc,htext⟩ := not_or.mp (mt List.mem_cons.mpr h)
    rw [List.foldl_cons,nextQuote_inside (Ne.symm hc)]
    exact ih htext

theorem foldl_nextQuote_piece {p : Piece α} (hp : Closed quote blank p) :
    p.render.foldl (nextQuote quote) none = none := by
  cases p with
  | plain c => exact nextQuote_outside hp.1
  | quoted q text =>
    rw [Piece.render,List.foldl_append,List.foldl_cons,List.foldl_nil,List.foldl_cons,
      nextQuote_opens hp.1,foldl_nextQuote_inside hp.2]
    exact if_pos rfl
  | opened q text => exact hp.elim

theorem foldl_nextQuote_word (hw : ∀ p ∈ w, Closed quote blank p) :
    (render w).foldl (nextQuote quote) none = none := by
  induction w with
  | nil => rfl
  | cons p w ih =>
    obtain ⟨hp,hw⟩ := List.forall_mem_cons.mp hw
    rw [render_cons,List.foldl_append,foldl_nextQuote_piece hp,ih hw]

theorem Reads.closed {words : List (Word α)} (hdisjoint : ∀ c, blank c → ¬ quote c)
    (h : Reads quote blank words line) (hbalanced : Balanced quote line) :
    ∀ w ∈ words, w ≠ [] ∧ ∀ p ∈ w, Closed quote blank p := by
  induction h with
  | nil => exact fun _ hw => absurd hw List.not_mem_nil
  | blank hc _ ih =>
    refine ih ?_
    rw [Balanced,List.foldl_cons,nextQuote_outside (hdisjoint _ hc)] at hbalanced
    exact hbalanced
  | word hne hw _ _ ih =>
    refine List.forall_mem_cons.mpr ⟨⟨hne,hw⟩,ih ?_⟩
    rw [Balanced,List.foldl_append,foldl_nextQuote_word hw] at hbalanced
    exact hbalanced
  | opened hw hq htext =>
    rw [Balanced,List.foldl_append,foldl_nextQuote_word hw,List.foldl_cons,
      nextQuote_opens hq,foldl_nextQuote_inside htext] at hbalanced
    cases hbalanced

end Balanced

end Grammar

end QuotedWords
