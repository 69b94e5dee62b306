import Mathlib.Data.List.Basic
import Mathlib.Data.Nat.Notation

namespace Terminated

variable {α : Type} {nul : α} {buffer text : List α} {p : ℕ}

-- the text at p ends at the first terminator
def content [DecidableEq α] (nul : α) (buffer : List α) (p : ℕ) : List α :=
  (buffer.drop p).takeWhile (· ≠ nul)

structure Cut (nul : α) (buffer : List α) (p : ℕ) (text : List α) : Prop where
  clean : nul ∉ text
  stops : ∃ rest, buffer.drop p = text ++ nul :: rest

theorem Cut.append (h : Cut nul buffer p text) (more : List α) :
    Cut nul (buffer ++ more) p text := by
  obtain ⟨rest,hrest⟩ := h.stops
  have hp : p ≤ buffer.length := by
    by_contra hlt
    rw [List.drop_eq_nil_of_le (by omega)] at hrest
    cases text <;> cases hrest
  refine ⟨h.clean,rest ++ more,?_⟩
  rw [List.drop_append_of_le_length hp,hrest,List.append_assoc,List.cons_append]

theorem cut_end (before : List α) (h : nul ∉ text) :
    Cut nul (before ++ text ++ [nul]) before.length text := by
  refine ⟨h,[],?_⟩
  rw [List.append_assoc,List.drop_left]

theorem Cut.content [DecidableEq α] (h : Cut nul buffer p text) :
    content nul buffer p = text := by
  obtain ⟨rest,hrest⟩ := h.stops
  have hclean : ∀ a ∈ text, decide (a ≠ nul) = true := fun a ha =>
    decide_eq_true fun heq => h.clean (heq ▸ ha)
  rw [Terminated.content,hrest,List.takeWhile_append_of_pos hclean,
    List.takeWhile_cons_of_neg (by simp),List.append_nil]

end Terminated
