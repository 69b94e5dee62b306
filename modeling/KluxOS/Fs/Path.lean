import Mathlib.Data.List.TakeWhile
import KluxOS.Fs.Fs

namespace KluxOS.Fs

def flush (component : CString) : List CString := if component = [] then [] else [component]

-- the non-empty components as the 127-byte buffer cuts them
def componentsFrom : CString → CString → List CString
  | acc,[] => flush acc
  | acc,c :: path =>
    if c = '/' then flush acc ++ componentsFrom [] path
    else if acc.length = 127 then acc :: componentsFrom [c] path
    else componentsFrom (acc ++ [c]) path

def components (path : CString) : List CString := componentsFrom [] path

section Components

theorem componentsFrom_next {acc : CString} (hacc : acc.length ≤ 127) (path : CString) :
    componentsFrom acc path =
      flush (acc ++ (path.takeWhile (· ≠ '/')).take (127 - acc.length)) ++
      components (skipSlash
        (path.drop ((path.takeWhile (· ≠ '/')).take (127 - acc.length)).length)) := by
  induction path generalizing acc with
  | nil => simp [componentsFrom,components,skipSlash,flush]
  | cons c path ih =>
    by_cases hc : c = '/'
    · subst hc
      simp [componentsFrom,components,skipSlash]
    · by_cases hfull : acc.length = 127
      · have hne : acc ≠ [] := by
          rintro rfl
          simp at hfull
        simp [componentsFrom,components,skipSlash,hc,hfull,flush,hne]
      · have hroom : 127 - acc.length = (127 - (acc ++ [c]).length) + 1 := by
          rw [List.length_append,List.length_singleton]
          omega
        rw [componentsFrom,if_neg hc,if_neg hfull,ih (by simp; omega),hroom]
        simp [hc]

theorem components_cons (c : Char) (path : CString) : components (c :: path) =
    flush (nextComponent (c :: path)) ++
      components (skipSlash ((c :: path).drop (nextComponent (c :: path)).length)) := by
  rw [components,componentsFrom_next (by simp)]
  simp [nextComponent]

theorem componentsFrom_slash (acc d f : CString) :
    componentsFrom acc (d ++ '/' :: f) = componentsFrom acc d ++ components f := by
  induction d generalizing acc with
  | nil => simp [componentsFrom,components]
  | cons c d ih =>
    rw [List.cons_append,componentsFrom,componentsFrom]
    split
    · rw [ih,List.append_assoc]
    · split
      · rw [ih,List.cons_append]
      · exact ih _

theorem components_slash (d f : CString) :
    components (d ++ '/' :: f) = components d ++ components f := componentsFrom_slash [] d f

theorem components_skipSlash (path : CString) : components (skipSlash path) = components path := by
  unfold skipSlash
  split
  · simp [components,componentsFrom,flush]
  · rfl

theorem componentsFrom_plain {acc f : CString} (hf : '/' ∉ f) (hlen : (acc ++ f).length ≤ 127) :
    componentsFrom acc f = flush (acc ++ f) := by
  induction f generalizing acc with
  | nil => simp [componentsFrom]
  | cons c f ih =>
    obtain ⟨hc,hf⟩ := List.ne_and_not_mem_of_not_mem_cons hf
    rw [List.length_append,List.length_cons] at hlen
    rw [componentsFrom,if_neg (Ne.symm hc),if_neg (by omega),ih hf (by simp; omega),
      List.append_assoc,List.singleton_append]

theorem components_plain {f : CString} (hf : '/' ∉ f) (hlen : f.length ≤ 127) :
    components f = flush f := componentsFrom_plain hf (by simpa using hlen)

-- a name of more than 127 bytes is looked up in pieces
theorem components_long {f : CString} (hf : '/' ∉ f) (hlen : 127 < f.length) :
    components f = f.take 127 :: components (f.drop 127) := by
  have hall : f.takeWhile (· ≠ '/') = f := by
    rw [List.takeWhile_eq_self_iff]
    intro c hc
    simpa using fun heq : c = '/' => hf (heq ▸ hc)
  have hdrop : f.drop 127 ≠ [] := by
    intro h
    have hle := List.drop_eq_nil_iff.mp h
    omega
  have hskip : skipSlash (f.drop 127) = f.drop 127 := by
    unfold skipSlash
    split
    · next path heq => exact absurd (List.mem_of_mem_drop (heq ▸ List.mem_cons_self)) hf
    · rfl
  have htake : f.take 127 ≠ [] := by
    intro h
    rw [List.take_eq_nil_iff] at h
    rcases h with h | rfl
    · omega
    · simp at hlen
  rw [components,componentsFrom_next (by simp),hall]
  simp only [List.nil_append,List.length_nil,Nat.sub_zero,flush,if_neg htake,List.length_take]
  rw [Nat.min_eq_left (by omega),hskip]
  rfl

end Components

section Slash

theorem strrchr_none {c : Char} {path : CString} (h : strrchr c path = none) : c ∉ path := by
  induction path with
  | nil => simp
  | cons x path ih =>
    rw [strrchr] at h
    cases hrest : strrchr c path with
    | some j =>
      rw [hrest] at h
      cases h
    | none =>
      rw [hrest] at h
      simp only at h
      split at h
      · cases h
      · next hx =>
        rw [List.mem_cons]
        rintro (rfl | hmem)
        · exact hx rfl
        · exact ih hrest hmem

theorem strrchr_some {c : Char} {path : CString} {i : ℕ} (h : strrchr c path = some i) :
    path = path.take i ++ c :: path.drop (i + 1) ∧ c ∉ path.drop (i + 1) ∧ i < path.length := by
  induction path generalizing i with
  | nil => cases h
  | cons x path ih =>
    rw [strrchr] at h
    cases hrest : strrchr c path with
    | some j =>
      rw [hrest] at h
      cases h
      obtain ⟨hpath,hlast,hlt⟩ := ih hrest
      exact ⟨congrArg (List.cons x) hpath,hlast,Nat.succ_lt_succ hlt⟩
    | none =>
      rw [hrest] at h
      simp only at h
      split at h
      · next hx =>
        cases h
        subst hx
        exact ⟨rfl,strrchr_none hrest,Nat.succ_pos _⟩
      · cases h

end Slash

section Walk

variable (hooks : Hooks) (s : KernelState)

def walks : NodePtr → List CString → Option (Option NodePtr)
  | current,[] => some (some current)
  | current,c :: cs => do
    match ← walk hooks s current c with
    | none => some none
    | some next => walks next cs

theorem walks_flush (current : NodePtr) (component : CString) (cs : List CString) :
    walks hooks s current (flush component ++ cs) = (do
      match ← walk hooks s current component with
      | none => some none
      | some next => walks hooks s next cs) := by
  unfold flush
  split
  · next h =>
    subst h
    simp [walk]
  · rfl

theorem resolveLoop_eq (current : NodePtr) (path : CString) :
    resolveLoop hooks s current path = walks hooks s current (components path) := by
  induction hlen : path.length using Nat.strong_induction_on generalizing current path with
  | _ n ih =>
    cases path with
    | nil => simp [resolveLoop,components,componentsFrom,flush,walks]
    | cons c path =>
      rw [resolveLoop,components_cons,walks_flush]
      congr 1
      funext next
      cases next with
      | none => rfl
      | some next => exact ih _ (hlen ▸ nextComponent_rest_lt c path) next _ rfl

theorem fsResolvePath_eq {path : CString} {root : NodePtr} (hroot : s.fs_root = some root) :
    fsResolvePath hooks s (some path) = walks hooks s root (components path) := by
  simp only [fsResolvePath,hroot]
  split
  · next h =>
    rw [← components_skipSlash,h]
    simp [components,componentsFrom,flush,walks]
  · rw [resolveLoop_eq,components_skipSlash]

end Walk

end KluxOS.Fs
