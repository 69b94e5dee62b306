import Mathlib.Data.List.Induction
import Mathlib.Data.Option.Basic

namespace PathWalk

variable {N M C : Type}

inductive Step (C : Type) where
  | stay
  | up
  | down (name : C)

structure PathGraph (N C : Type) where
  up : N → N
  child : N → C → Option N

def PathGraph.step (G : PathGraph N C) (n : N) : Step C → Option N
  | .stay => some n
  | .up => some (G.up n)
  | .down c => G.child n c

def PathGraph.walk (G : PathGraph N C) : N → List (Step C) → Option N
  | n,[] => some n
  | n,step :: steps => (G.step n step).bind fun m => G.walk m steps

theorem PathGraph.walk_append (G : PathGraph N C) (n : N) (as bs : List (Step C)) :
    G.walk n (as ++ bs) = (G.walk n as).bind fun m => G.walk m bs := by
  induction as generalizing n with
  | nil => rfl
  | cons a as ih =>
    rw [List.cons_append,walk,walk]
    cases G.step n a with
    | none => rfl
    | some m => exact ih m

theorem PathGraph.walk_map {A : Type} (G : PathGraph N C) (toStep : A → Step C) (n : N)
    (as : List A) :
    G.walk n (as.map toStep) = as.foldlM (fun n a => G.step n (toStep a)) n := by
  induction as generalizing n with
  | nil => rfl
  | cons a as ih =>
    rw [List.map_cons,walk,List.foldlM_cons]
    exact Option.bind_congr fun m _ => ih m

-- f maps the part V of G into H and the children there correspond
structure Embeds (G : PathGraph N C) (H : PathGraph M C) (V : N → Prop) (f : N → M) : Prop where
  up : ∀ n, V n → H.up (f n) = f (G.up n) ∧ V (G.up n)
  child : ∀ n c, V n → H.child (f n) c = (G.child n c).map f ∧ ∀ m, G.child n c = some m → V m

theorem Embeds.step {G : PathGraph N C} {H : PathGraph M C} {V : N → Prop} {f : N → M}
    (h : Embeds G H V f) {n : N} (hn : V n) (a : Step C) :
    H.step (f n) a = (G.step n a).map f ∧ ∀ m, G.step n a = some m → V m := by
  cases a with
  | stay => exact ⟨rfl,fun m hm => Option.some.inj hm ▸ hn⟩
  | up => exact ⟨congrArg some (h.up n hn).1,fun m hm => Option.some.inj hm ▸ (h.up n hn).2⟩
  | down c => exact h.child n c hn

theorem Embeds.walk {G : PathGraph N C} {H : PathGraph M C} {V : N → Prop} {f : N → M}
    (h : Embeds G H V f) {n : N} (hn : V n) (steps : List (Step C)) :
    H.walk (f n) steps = (G.walk n steps).map f := by
  induction steps generalizing n with
  | nil => rfl
  | cons a steps ih =>
    obtain ⟨hstep,hvalid⟩ := h.step hn a
    rw [PathGraph.walk,PathGraph.walk,hstep]
    cases hm : G.step n a with
    | none => rfl
    | some m => exact ih (hvalid m hm)

theorem Embeds.valid {G : PathGraph N C} {H : PathGraph M C} {V : N → Prop} {f : N → M}
    (h : Embeds G H V f) {n m : N} (hn : V n) {steps : List (Step C)}
    (hm : G.walk n steps = some m) : V m := by
  induction steps generalizing n with
  | nil => exact Option.some.inj hm ▸ hn
  | cons a steps ih =>
    obtain ⟨r,hr,hm⟩ := Option.bind_eq_some_iff.mp hm
    exact ih ((h.step hn a).2 r hr) hm

section Spells

-- the nodes that a list of labels leads to along the edges
inductive Spells (E : N → C → N → Prop) (root : N) : List C → N → Prop
  | nil : Spells E root [] root
  | snoc {as : List C} {n m : N} {c : C} : Spells E root as n → E n c m →
      Spells E root (as ++ [c]) m

variable {E : N → C → N → Prop} {root : N}

theorem spells_nil {m : N} : Spells E root [] m ↔ root = m := by
  constructor
  · intro h
    generalize hnil : ([] : List C) = as at h
    cases h with
    | nil => rfl
    | snoc hn he => exact absurd hnil.symm (by simp)
  · rintro rfl
    exact .nil

theorem spells_snoc {as : List C} {c : C} {m : N} :
    Spells E root (as ++ [c]) m ↔ ∃ n, Spells E root as n ∧ E n c m := by
  constructor
  · intro h
    generalize hsnoc : as ++ [c] = bs at h
    cases h with
    | nil => exact absurd hsnoc (by simp)
    | snoc hn he =>
      obtain ⟨rfl,hc⟩ := List.append_inj' hsnoc rfl
      cases hc
      exact ⟨_,hn,he⟩
  · rintro ⟨n,hn,he⟩
    exact .snoc hn he

theorem Spells.labels {V : C → Prop} (hedge : ∀ n c m, E n c m → V c) {as : List C} {m : N}
    (h : Spells E root as m) : ∀ c ∈ as, V c := by
  induction h with
  | nil => exact fun c hc => by cases hc
  | snoc hn he ih =>
    intro c hc
    rcases List.mem_append.mp hc with hc | hc
    · exact ih c hc
    · exact List.mem_singleton.mp hc ▸ hedge _ _ _ he

-- in a tree there is one way to every node
theorem Spells.unique (hback : ∀ n n' c c' m, E n c m → E n' c' m → n = n' ∧ c = c')
    (hroot : ∀ n c, ¬ E n c root) {as bs : List C} {m : N} (h : Spells E root as m)
    (h' : Spells E root bs m) : as = bs := by
  induction h generalizing bs with
  | nil =>
    generalize hm : root = m at h'
    cases h' with
    | nil => rfl
    | snoc _ he => exact absurd (hm ▸ he) (hroot _ _)
  | snoc _ he ih =>
    cases h' with
    | nil => exact absurd he (hroot _ _)
    | snoc hn' he' =>
      obtain ⟨rfl,rfl⟩ := hback _ _ _ _ _ he he'
      rw [ih hn']

-- a graph that picks one edge of each label finds every node by its labels when there is one to pick
theorem walk_spells_iff {G : PathGraph N C} {V : C → Prop}
    (hpick : ∀ n c m, V c → G.child n c = some m → E n c m)
    (hedge : ∀ n c m, E n c m → V c ∧ G.child n c ≠ none) :
    (∀ as, (∀ c ∈ as, V c) → ∀ m, G.walk root (as.map .down) = some m ↔ Spells E root as m) ↔
      ∀ as n c m m', Spells E root as n → E n c m → E n c m' → m = m' := by
  constructor
  · intro h as n c m m' hn hm hm'
    have hlabels := (hn.snoc hm).labels fun n c m he => (hedge n c m he).1
    have hfound := (h _ hlabels m).mpr (hn.snoc hm)
    exact Option.some.inj (hfound.symm.trans ((h _ hlabels m').mpr (hn.snoc hm')))
  · intro hone as
    induction as using List.reverseRecOn with
    | nil =>
      intro _ m
      rw [spells_nil]
      exact Option.some.injEq root m ▸ Iff.rfl
    | append_singleton as c ih =>
      intro hlabels m
      have hold := ih fun d hd => hlabels d (List.mem_append_left _ hd)
      have hc := hlabels c (List.mem_append_right _ List.mem_cons_self)
      have hlast : ∀ n, G.walk n [.down c] = G.child n c := fun n => Option.bind_fun_some _
      rw [List.map_append,PathGraph.walk_append,Option.bind_eq_some_iff,spells_snoc]
      refine exists_congr fun n => ?_
      rw [hold n,List.map_singleton,hlast]
      refine and_congr_right fun hn => ⟨hpick n c m hc,fun he => ?_⟩
      obtain ⟨m',hm'⟩ := Option.ne_none_iff_exists'.mp (hedge n c m he).2
      rw [hm',hone as n c m m' hn he (hpick n c m' hc hm')]

end Spells

section Extend

variable [DecidableEq N] [DecidableEq C] (G : PathGraph N C) (p : N) (c : C)

-- G with one more leaf, none, below p
def extend : PathGraph (Option N) C where
  up
    | none => some p
    | some n => some (G.up n)
  child
    | none,_ => none
    | some n,name =>
      match G.child n name with
      | some m => some (some m)
      | none => if n = p ∧ name = c then some none else none

theorem extend_step_old {n m : N} {a : Step C} (h : G.step n a = some m) :
    (extend G p c).step (some n) a = some (some m) := by
  cases a with
  | stay => exact congrArg (some ∘ some) (Option.some.inj h)
  | up => exact congrArg (some ∘ some) (Option.some.inj h)
  | down name =>
    simp only [PathGraph.step] at h
    simp only [PathGraph.step,extend,h]

theorem extend_walk_old {n m : N} {steps : List (Step C)} (h : G.walk n steps = some m) :
    (extend G p c).walk (some n) steps = some (some m) := by
  induction steps generalizing n with
  | nil => exact congrArg (some ∘ some) (Option.some.inj h)
  | cons a steps ih =>
    obtain ⟨r,hr,hm⟩ := Option.bind_eq_some_iff.mp h
    rw [PathGraph.walk,extend_step_old G p c hr]
    exact ih hm

theorem extend_child_new (h : G.child p c = none) :
    (extend G p c).step (some p) (.down c) = some none := by
  simp [PathGraph.step,extend,h]

end Extend

end PathWalk
