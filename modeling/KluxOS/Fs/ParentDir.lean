import KluxOS.Fs.Graph

namespace KluxOS.Fs

open KernelState

section Slash

theorem strrchr_absent {c : Char} {path : CString} (h : c ∉ path) : strrchr c path = none := by
  cases hslash : strrchr c path with
  | none => rfl
  | some i =>
    rw [(strrchr_some hslash).1] at h
    simp at h

theorem strrchr_last {c : Char} (d : CString) {name : CString} (h : c ∉ name) :
    strrchr c (d ++ c :: name) = some d.length := by
  induction d with
  | nil =>
    rw [List.nil_append,strrchr,strrchr_absent h]
    exact if_pos rfl
  | cons x d ih => rw [List.cons_append,strrchr,ih,List.length_cons]

-- a path cut at the last slash of its first part
theorem components_cut (u v : CString) : components (u ++ v) = components (dirName u) ++
    components ((u ++ v).drop (dirName u).length) := by
  unfold dirName
  cases hslash : strrchr '/' u with
  | none => rfl
  | some i =>
    have hpath : u ++ v = u.take i ++ '/' :: (u.drop (i + 1) ++ v) := by
      conv_lhs => rw [(strrchr_some hslash).1]
      rw [List.append_assoc,List.cons_append]
    have hdrop : (u ++ v).drop (u.take i).length = '/' :: (u.drop (i + 1) ++ v) := by
      rw [hpath,List.drop_left]
    have hskip := components_slash [] (u.drop (i + 1) ++ v)
    simp only [hdrop]
    rw [hpath,components_slash]
    exact congrArg _ hskip.symm

end Slash

section Walk

variable (hooks : Hooks) (s : KernelState)

theorem walks_append (current : NodePtr) (cs ds : List CString) :
    walks hooks s current (cs ++ ds) = (do
      match ← walks hooks s current cs with
      | none => some none
      | some next => walks hooks s next ds) := by
  induction cs generalizing current with
  | nil => rfl
  | cons c cs ih =>
    rw [List.cons_append,walks,walks]
    cases hwalk : walk hooks s current c with
    | none => rfl
    | some found =>
      cases found with
      | none => rfl
      | some next => exact ih next

-- from the directory that the components ended within the first 255 bytes name, what is left of
-- these bytes leads where the whole rest of the path does
def CutMeets (d : CString) : Prop :=
  ∀ root p, s.fs_root = some root →
    walks hooks s root (components (dirName (d.take 255))) = some (some p) →
    walks hooks s p (components ((d.take 255).drop (dirName (d.take 255)).length)) =
      walks hooks s p (components (d.drop (dirName (d.take 255)).length))

variable {hooks s} {d name : CString}

theorem fsGetParentDir_cut (hd : d ≠ []) (hname : '/' ∉ name) :
    fsGetParentDir hooks s (some (d ++ '/' :: name)) =
      fsResolvePath hooks s (some (d.take 255)) := by
  cases hroot : s.fs_root with
  | none => simp only [fsGetParentDir,fsResolvePath,hroot]
  | some root =>
    have hlen : d.length ≠ 0 := fun h => hd (List.eq_nil_of_length_eq_zero h)
    have htake : (d ++ '/' :: name).take (if d.length > 255 then 255 else d.length) =
        d.take 255 := by
      split
      · next hlong => rw [List.take_append_of_le_length (Nat.le_of_lt hlong)]
      · next hshort => rw [List.take_left,List.take_of_length_le (Nat.le_of_not_lt hshort)]
    simp only [fsGetParentDir,hroot,strrchr_last d hname,if_neg hlen,htake]

theorem cut_resolves_iff : fsResolvePath hooks s (some (d.take 255)) =
    fsResolvePath hooks s (some d) ↔ CutMeets hooks s d := by
  unfold CutMeets
  cases hroot : s.fs_root with
  | none =>
    refine iff_of_true ?_ fun root p h => by cases h
    simp only [fsResolvePath,hroot]
  | some root =>
    have hcut := components_cut (d.take 255) []
    have hwhole := components_cut (d.take 255) (d.drop 255)
    rw [List.append_nil] at hcut
    rw [List.take_append_drop] at hwhole
    rw [fsResolvePath_eq hooks s hroot,fsResolvePath_eq hooks s hroot]
    conv_lhs => rw [hcut,hwhole,walks_append,walks_append]
    cases hwalk : walks hooks s root (components (dirName (d.take 255))) with
    | none =>
      refine iff_of_true rfl ?_
      rintro _ p ⟨⟩ hp
      rw [hwalk] at hp
      cases hp
    | some found =>
      cases found with
      | none =>
        refine iff_of_true rfl ?_
        rintro _ p ⟨⟩ hp
        rw [hwalk] at hp
        cases hp
      | some q =>
        refine ⟨?_,fun h => h root q rfl hwalk⟩
        rintro h _ p ⟨⟩ hp
        rw [hwalk] at hp
        cases hp
        exact h

variable (hooks s) in
theorem parent_dir_is_resolved (hd : d ≠ []) (hname : '/' ∉ name) :
    (d.length ≤ 255 → CutMeets hooks s d) ∧
    (fsGetParentDir hooks s (some (d ++ '/' :: name)) = fsResolvePath hooks s (some d) ↔
      CutMeets hooks s d) := by
  refine ⟨fun hlen => ?_,?_⟩
  · rw [← cut_resolves_iff,List.take_of_length_le hlen]
  · rw [fsGetParentDir_cut hd hname,cut_resolves_iff]

theorem parent_dir_is_resolved_file : fsGetParentDir treeHooks rootWithFile
    (some ['a','/','b']) = fsResolvePath treeHooks rootWithFile (some ['a']) := by
  have hd : ['a'] ≠ [] := by decide
  have hname : '/' ∉ ['b'] := by decide
  have hcut := parent_dir_is_resolved treeHooks rootWithFile hd hname
  exact hcut.2.mpr (hcut.1 (by decide))

end Walk

-- a directory in a directory of a directory, two of them with names of 127 bytes
def rootWithDeepDirectory : KernelState :=
  { KernelState.boot with
    nodes := [{ createdNode KernelState.boot ['/'] .directory with children := some 1 },
      { createdNode KernelState.boot (List.replicate 127 'a') .directory with
        parent := some 0, children := some 2 },
      { createdNode KernelState.boot (List.replicate 127 'b') .directory with
        parent := some 1, children := some 3 },
      { createdNode KernelState.boot ['c'] .directory with parent := some 2 }]
    fs_root := some 0 }

def deepDirectory : CString :=
  List.replicate 127 'a' ++ '/' :: List.replicate 127 'b' ++ ['/','c']

-- the parent is taken to be the directory above
theorem parent_dir_above : Tree rootWithDeepDirectory ∧ ExactFinddir treeHooks ∧
    fsGetParentDir treeHooks rootWithDeepDirectory (some (deepDirectory ++ ['/','f'])) =
      some (some 2) ∧
    fsResolvePath treeHooks rootWithDeepDirectory (some deepDirectory) = some (some 3) := by
  have htree : Tree rootWithDeepDirectory := tree_of_checks (by decide)
  refine ⟨htree,treeHooks_exact,?_,?_⟩
  · rw [fsGetParentDir_graph htree treeHooks_exact]
    decide +kernel
  · rw [fsResolvePath_graph htree treeHooks_exact]
    decide +kernel

end KluxOS.Fs
