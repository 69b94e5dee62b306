import KluxOS.Lib.Run
import Mathlib.Data.Option.NAry

namespace Interleaving

open Run

variable {σ α β ι κ₁ κ₂ : Type}

-- the machine whose events c picks out of those of a larger one
def half (step : α → κ₁ → Option α) (c : ι → Option κ₁) (a : α) (e : ι) : Option α :=
  (c e).elim (some a) (step a)

def both (step₁ : α → ι → Option α) (step₂ : β → ι → Option β) (p : α × β) (e : ι) :
    Option (α × β) :=
  Option.map₂ Prod.mk (step₁ p.1 e) (step₂ p.2 e)

theorem run_half (step : α → κ₁ → Option α) (c : ι → Option κ₁) (a : α) (es : List ι) :
    run (half step c) a es = run step a (es.filterMap c) := by
  induction es generalizing a with
  | nil => rfl
  | cons e es ih =>
    cases hc : c e with
    | none =>
      rw [List.filterMap_cons_none hc,run,half,hc]
      exact ih a
    | some k =>
      rw [List.filterMap_cons_some hc,run,half,hc]
      exact Option.bind_congr fun b _ => ih b

theorem run_both (step₁ : α → ι → Option α) (step₂ : β → ι → Option β) (a : α) (b : β)
    (es : List ι) : run (both step₁ step₂) (a,b) es =
      Option.map₂ Prod.mk (run step₁ a es) (run step₂ b es) := by
  induction es generalizing a b with
  | nil => rfl
  | cons e es ih =>
    simp only [run,both]
    cases step₁ a e with
    | none => rfl
    | some a' =>
      cases step₂ b e with
      | none => rw [Option.map₂_none_right,Option.bind_none,Option.bind_none,Option.map₂_none_right]
      | some b' => exact ih a' b'

theorem run_related {T : σ → α → Prop} {step : σ → ι → Option σ} {step' : α → ι → Option α}
    (hstep : ∀ s a e, T s a → Option.Rel T (step s e) (step' a e)) {s : σ} {a : α} (h : T s a)
    (es : List ι) : Option.Rel T (run step s es) (run step' a es) := by
  induction es generalizing s a with
  | nil => exact .some h
  | cons e es ih =>
    have hrel := hstep s a e h
    rw [run,run]
    generalize step s e = x,step' a e = y at hrel
    cases hrel with
    | none => exact .none
    | some ht => exact ih ht

-- two halves that no event ties together run each on its own events
theorem run_apart {R : σ → α → Prop} {S : σ → β → Prop} {step : σ → ι → Option σ}
    {step₁ : α → κ₁ → Option α} {step₂ : β → κ₂ → Option β} {c₁ : ι → Option κ₁}
    {c₂ : ι → Option κ₂}
    (hstep : ∀ s a b e, R s a → S s b → Option.Rel (fun t (p : α × β) => R t p.1 ∧ S t p.2)
      (step s e) (Option.map₂ Prod.mk (half step₁ c₁ a e) (half step₂ c₂ b e)))
    {s : σ} {a : α} {b : β} (ha : R s a) (hb : S s b) (es : List ι) :
    Option.Rel (fun t (p : α × β) => R t p.1 ∧ S t p.2) (run step s es)
      (Option.map₂ Prod.mk (run step₁ a (es.filterMap c₁)) (run step₂ b (es.filterMap c₂))) := by
  rw [← run_half,← run_half,← run_both]
  exact run_related (T := fun t (p : α × β) => R t p.1 ∧ S t p.2)
    (fun s p e h => hstep s p.1 p.2 e h.1 h.2) ⟨ha,hb⟩ es

end Interleaving
