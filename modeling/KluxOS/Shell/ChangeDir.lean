import KluxOS.Fs.Graph
import KluxOS.Fs.ParentDir
import KluxOS.Lib.Run
import KluxOS.Shell.ArgvBounds

namespace KluxOS.Shell

open Fs Run Terminated

inductive ShellStatus where
  | ok
  | errorCommandNotFound
  | errorInvalidArguments
  | errorPermissionDenied
  | errorInternal
  | exit
deriving DecidableEq

structure ShellState where
  kernel : KernelState
  current_dir : List Char

section Cd

-- sizeof(shell_ctx.current_dir)
def currentDirSize : Uint32 := 256#32

def strLength (s : List Char) : Option ℕ := if nul ∈ s then some (content nul s 0).length else none

-- the last slash below i
def lastSlash (dir : List Char) : ℕ → Option (Option ℕ)
  | 0 => some none
  | i + 1 => do
    let c ← dir[i]?
    if c = '/' then some (some i) else lastSlash dir i

def shellInit (kernel : KernelState) (current_dir : List Char) : Option ShellState :=
  (strCopy current_dir ['/',nul] currentDirSize).map fun dir => ⟨kernel,dir⟩

def cutParent (dir : List Char) : Option (List Char) := do
  let len ← strLength dir
  match ← lastSlash dir len with
  | none => some dir
  | some last_slash =>
    if last_slash = 0 then strCopy dir ['/',nul] currentDirSize else store dir last_slash nul

def ShellState.enter (s : ShellState) (dir : Option (List Char)) :
    Option (ShellState × ShellStatus) :=
  dir.map fun dir => ({ s with current_dir := dir },.ok)

def ShellState.refuse (s : ShellState) (text path : CString) : Option (ShellState × ShellStatus) :=
  some ({ s with kernel := ((s.kernel.print text).print path).print ['\n'] },
    .errorInvalidArguments)

def cmdCd (hooks : Hooks) (argv : List CString) (s : ShellState) :
    Option (ShellState × ShellStatus) :=
  match argv[1]? with
  | none => s.enter (strCopy s.current_dir ['/',nul] currentDirSize)
  | some path =>
    if path = ['/'] then s.enter (strCopy s.current_dir ['/',nul] currentDirSize)
    else if path = ['.','.'] then s.enter (cutParent s.current_dir)
    else do
      match ← fsFinddir hooks s.kernel s.kernel.fs_root path with
      | none => s.refuse "Dizin bulunamadi: ".toList path
      | some node =>
        let n ← s.kernel.nodes[node]?
        if n.type ≠ .directory then s.refuse "Dizin degil: ".toList path
        else s.enter (strCopy s.current_dir (path ++ [nul]) currentDirSize)

def cdStep (hooks : Hooks) (s : ShellState) (argv : List CString) : Option ShellState :=
  (cmdCd hooks argv s).map Prod.fst

end Cd

section Text

-- what cd .. makes of the text of current_dir
def parentText (dir : CString) : CString :=
  match strrchr '/' dir with
  | none => dir
  | some last_slash => if last_slash = 0 then ['/'] else dir.take last_slash

def SlashFirst (dir : CString) : Prop :=
  ∃ rest, '/' ∉ rest ∧ (dir = '/' :: rest ∨ dir = '/' :: '/' :: rest)

variable {dir text tail : List Char}

theorem parentText_root_iff : parentText dir = ['/'] ↔ SlashFirst dir := by
  constructor
  · intro h
    rw [parentText] at h
    cases hslash : strrchr '/' dir with
    | none =>
      simp only [hslash] at h
      subst h
      exact absurd List.mem_cons_self (strrchr_none hslash)
    | some i =>
      simp only [hslash] at h
      obtain ⟨heq,hrest,-⟩ := strrchr_some hslash
      refine ⟨dir.drop (i + 1),hrest,?_⟩
      by_cases hzero : i = 0
      · subst hzero
        exact .inl heq
      · rw [if_neg hzero] at h
        rw [h] at heq
        exact .inr heq
  · rintro ⟨rest,hrest,rfl | rfl⟩
    · have hslash : strrchr '/' ('/' :: rest) = some 0 := strrchr_last [] hrest
      simp only [parentText,hslash]
      rfl
    · have hslash : strrchr '/' ('/' :: '/' :: rest) = some 1 := strrchr_last ['/'] hrest
      simp only [parentText,hslash]
      rfl

theorem strrchr_other {c x : Char} (hx : x ≠ c) (text : List Char) :
    strrchr c (text ++ [x]) = strrchr c text := by
  induction text with
  | nil =>
    rw [List.nil_append,strrchr,strrchr]
    exact if_neg hx
  | cons y text ih => rw [List.cons_append,strrchr,strrchr,ih]

theorem lastSlash_eq (text tail : List Char) :
    lastSlash (text ++ tail) text.length = some (strrchr '/' text) := by
  induction text using List.reverseRecOn generalizing tail with
  | nil => rfl
  | append_singleton text c ih =>
    have hread : (text ++ [c] ++ tail)[text.length]? = some c := by
      rw [List.append_assoc,List.getElem?_append_right (Nat.le_refl _),Nat.sub_self]
      rfl
    rw [List.length_append,List.length_singleton,lastSlash,hread,Option.bind_eq_bind,
      Option.bind_some]
    split
    · next hc =>
      subst hc
      rw [strrchr_last text List.not_mem_nil]
    · next hc => rw [strrchr_other hc,List.append_assoc,ih]

end Text

section Buffer

variable {buffer dir text : List Char}

structure Holds (buffer dir : List Char) : Prop where
  length : buffer.length = 256
  cut : Cut nul buffer 0 dir

theorem strCopy_holds (hlen : buffer.length = 256) (hclean : nul ∉ text) :
    ∃ b, strCopy buffer (text ++ [nul]) currentDirSize = some b ∧ Holds b (text.take 255) := by
  refine ⟨_,strCopy_take hclean hlen,?_,fun hmem => hclean (List.mem_of_mem_take hmem),_,rfl⟩
  rw [List.length_append,List.length_cons,List.length_take,List.length_drop]
  omega

theorem strCopy_root (hlen : buffer.length = 256) :
    ∃ b, strCopy buffer ['/',nul] currentDirSize = some b ∧ Holds b ['/'] :=
  strCopy_holds hlen (by decide : nul ∉ ['/'])

theorem cutParent_holds (h : Holds buffer dir) :
    ∃ b, cutParent buffer = some b ∧ Holds b (parentText dir) := by
  obtain ⟨rest,hrest⟩ := h.cut.stops
  rw [List.drop_zero] at hrest
  have hend : nul ∈ buffer := by
    rw [hrest]
    exact List.mem_append_right _ List.mem_cons_self
  have hlast : lastSlash buffer dir.length = some (strrchr '/' dir) := by
    rw [hrest]
    exact lastSlash_eq dir (nul :: rest)
  rw [cutParent,strLength,if_pos hend,h.cut.content,parentText]
  simp only [Option.bind_eq_bind,Option.bind_some,hlast]
  cases hslash : strrchr '/' dir with
  | none => exact ⟨buffer,rfl,h⟩
  | some i =>
    simp only
    split
    · exact strCopy_root h.length
    · obtain ⟨heq,-,hi⟩ := strrchr_some hslash
      have htake : (dir.take i).length = i := List.length_take_of_le hi.le
      have hstore := store_next (dir.take i) (dir.drop (i + 1) ++ nul :: rest) '/' nul
      rw [htake,← List.cons_append,← List.append_assoc,← heq,← hrest] at hstore
      refine ⟨_,hstore,?_,fun hmem => h.cut.clean (List.mem_of_mem_take hmem),_,rfl⟩
      have hlen := h.length
      rw [hrest,List.length_append,List.length_cons] at hlen
      rw [List.length_append,List.length_cons,List.length_append,List.length_cons,htake,
        List.length_drop]
      omega

end Buffer

section Step

variable {hooks : Hooks} {k : KernelState} {s : ShellState} {dir name : CString}
  {argv : List CString}

-- the node that fs_finddir finds by name in the root directory
def rootNode (k : KernelState) (name : CString) : Option NodePtr :=
  k.fs_root.bind fun root => (k.nodes[root]?).bind fun d =>
    if d.type = .directory then lookup k d name else none

def rootNodeType (k : KernelState) (name : CString) : Option FsNodeType :=
  (rootNode k name).bind fun node => (k.nodes[node]?).map FsNode.type

-- cd name finds a directory of the root and copies its name
def Entered (k : KernelState) (name : CString) : Prop :=
  name ≠ ['/'] ∧ name ≠ ['.','.'] ∧ rootNodeType k name = some .directory

instance (k : KernelState) (name : CString) : Decidable (Entered k name) :=
  inferInstanceAs (Decidable (_ ∧ _))

-- the kernel only prints between two commands
structure At (k : KernelState) (s : ShellState) (dir : CString) : Prop where
  kernel : ∃ text, s.kernel = k.print text
  current_dir : Holds s.current_dir dir

inductive Moves (k : KernelState) (dir : CString) :
    Option CString → CString → ShellStatus → Prop
  | home : Moves k dir none ['/'] .ok
  | root : Moves k dir (some ['/']) ['/'] .ok
  | up : Moves k dir (some ['.','.']) (parentText dir) .ok
  | enter {name : CString} : Entered k name → Moves k dir (some name) (name.take 255) .ok
  | stay {name : CString} : name ≠ ['/'] → name ≠ ['.','.'] → ¬ Entered k name →
      Moves k dir (some name) dir .errorInvalidArguments

theorem print_sameTree (k : KernelState) (text : CString) : SameTree k (k.print text) := ⟨rfl,rfl⟩

theorem fsFinddir_root (htree : Tree k) (hexact : ExactFinddir hooks) (name : CString) :
    fsFinddir hooks k k.fs_root name = some (rootNode k name) := by
  cases hroot : k.fs_root with
  | none =>
    rw [rootNode,hroot]
    rfl
  | some root =>
    have hd := List.getElem?_eq_getElem (htree.root root hroot)
    rw [fsFinddir_lookup htree hexact hd,rootNode,hroot,Option.bind_some,hd]
    rfl

theorem rootNode_node {q : NodePtr} (h : rootNode k name = some q) : ∃ n, k.nodes[q]? = some n := by
  obtain ⟨root,-,h⟩ := Option.bind_eq_some_iff.mp h
  obtain ⟨d,-,h⟩ := Option.bind_eq_some_iff.mp h
  split at h
  · obtain ⟨n,hn,-⟩ := lookup_node h
    exact ⟨n,hn⟩
  · cases h

theorem At.lookups (h : At k s dir) (htree : Tree k) (hexact : ExactFinddir hooks)
    (name : CString) : fsFinddir hooks s.kernel s.kernel.fs_root name = some (rootNode k name) ∧
      s.kernel.nodes = k.nodes := by
  obtain ⟨printed,hk⟩ := h.kernel
  rw [hk]
  exact ⟨fsFinddir_root ((print_sameTree k printed).tree htree) hexact name,rfl⟩

theorem At.entered (h : At k s dir) {b : List Char} {dir' : CString} (hb : Holds b dir') :
    At k { s with current_dir := b } dir' := ⟨h.kernel,hb⟩

theorem At.refused (h : At k s dir) (text path : CString) :
    At k { s with kernel := ((s.kernel.print text).print path).print ['\n'] } dir := by
  obtain ⟨printed,hk⟩ := h.kernel
  refine ⟨⟨printed ++ (text ++ (path ++ ['\n'])),?_⟩,h.current_dir⟩
  rw [hk,KernelState.print_print,KernelState.print_print,KernelState.print_print]

theorem cmdCd_finds (htree : Tree k) (hexact : ExactFinddir hooks) (h : At k s dir)
    (hname : argv[1]? = some name) (hclean : nul ∉ name) (hslash : name ≠ ['/'])
    (hdots : name ≠ ['.','.']) : ∃ t dir' status,
      cmdCd hooks argv s = some (t,status) ∧ Moves k dir (some name) dir' status ∧ At k t dir' := by
  obtain ⟨hfind,hnodes⟩ := h.lookups htree hexact name
  simp only [cmdCd,hname]
  rw [if_neg hslash,if_neg hdots,hfind,Option.bind_eq_bind,Option.bind_some]
  cases hnode : rootNode k name with
  | none =>
    refine ⟨_,_,_,rfl,.stay hslash hdots fun hin => ?_,h.refused _ name⟩
    have htype := hin.2.2
    rw [rootNodeType,hnode] at htype
    cases htype
  | some q =>
    obtain ⟨n,hn⟩ := rootNode_node hnode
    have htype : rootNodeType k name = some n.type := by
      rw [rootNodeType,hnode,Option.bind_some,hn]
      rfl
    simp only [hnodes,hn,Option.bind_eq_bind,Option.bind_some]
    by_cases hdir : n.type = .directory
    · obtain ⟨c,hc,hcopied⟩ := strCopy_holds h.current_dir.length hclean
      have hin : Entered k name := ⟨hslash,hdots,htype.trans (congrArg some hdir)⟩
      refine ⟨_,_,_,?_,.enter hin,h.entered hcopied⟩
      simp only [if_neg (not_not.mpr hdir),ShellState.enter,hc,Option.map_some]
    · rw [if_pos hdir]
      refine ⟨_,_,_,rfl,.stay hslash hdots fun hin => ?_,h.refused _ name⟩
      exact hdir (Option.some.inj (htype.symm.trans hin.2.2))

theorem cmdCd_moves (htree : Tree k) (hexact : ExactFinddir hooks) (h : At k s dir)
    (hclean : ∀ name ∈ argv, nul ∉ name) : ∃ t dir' status,
      cmdCd hooks argv s = some (t,status) ∧ Moves k dir argv[1]? dir' status ∧ At k t dir' := by
  obtain ⟨b,hb,hroot⟩ := strCopy_root h.current_dir.length
  cases hname : argv[1]? with
  | none =>
    refine ⟨_,_,_,?_,.home,h.entered hroot⟩
    simp only [cmdCd,hname,ShellState.enter,hb,Option.map_some]
  | some name =>
    by_cases hslash : name = ['/']
    · subst hslash
      refine ⟨_,_,_,?_,.root,h.entered hroot⟩
      simp only [cmdCd,hname,if_true,ShellState.enter,hb,Option.map_some]
    by_cases hdots : name = ['.','.']
    · subst hdots
      obtain ⟨c,hc,hup⟩ := cutParent_holds h.current_dir
      refine ⟨_,_,_,?_,.up,h.entered hup⟩
      simp only [cmdCd,hname,if_neg hslash,if_true,ShellState.enter,hc,Option.map_some]
    exact cmdCd_finds htree hexact h hname (hclean name (List.mem_of_getElem? hname)) hslash hdots

end Step

section Undo

def Rooted (k : KernelState) : Prop :=
  ∃ root d, k.fs_root = some root ∧ k.nodes[root]? = some d ∧ d.type = .directory

def LeadsToDirectory (hooks : Hooks) (k : KernelState) (path : CString) : Prop :=
  ∃ p n, fsResolvePath hooks k (some path) = some (some p) ∧ k.nodes[p]? = some n ∧
    n.type = .directory

-- the text is a path of its own: its last slash is its first character or its second
def OwnPath (hooks : Hooks) (k : KernelState) (dir : CString) : Prop :=
  SlashFirst dir ∧ LeadsToDirectory hooks k dir

def UpUndoes (hooks : Hooks) (k : KernelState) (argv : List CString) : Prop :=
  ∀ s t, At k s ['/'] → cmdCd hooks argv s = some (t,.ok) →
    ∃ u, cmdCd hooks [['c','d'],['.','.']] t = some (u,.ok) ∧ content nul u.current_dir 0 = ['/']

-- after each of the commands, from shell_init on
def StaysAbsolute (hooks : Hooks) (k : KernelState) (current_dir : List Char)
    (commands : List (List CString)) : Prop :=
  ∀ done, done <+: commands → ∃ s t, shellInit k current_dir = some s ∧
    run (cdStep hooks) s done = some t ∧
    (∃ rest, content nul t.current_dir 0 = '/' :: rest) ∧
    LeadsToDirectory hooks t.kernel (content nul t.current_dir 0)

variable {hooks : Hooks} {k : KernelState} {s t : ShellState} {dir name : CString}
  {argv : List CString} {commands : List (List CString)} {current_dir : List Char}

theorem shellInit_at (k : KernelState) (hlen : current_dir.length = 256) :
    ∃ s, shellInit k current_dir = some s ∧ At k s ['/'] := by
  obtain ⟨b,hb,hroot⟩ := strCopy_root hlen
  refine ⟨⟨k,b⟩,?_,⟨[],(KernelState.print_nil k).symm⟩,hroot⟩
  rw [shellInit,hb]
  rfl

theorem At.content (h : At k s dir) : content nul s.current_dir 0 = dir := h.current_dir.cut.content

variable (htree : Tree k) (hexact : ExactFinddir hooks)

include htree hexact

theorem leadsToDirectory_print (text path : CString) :
    LeadsToDirectory hooks (k.print text) path ↔ LeadsToDirectory hooks k path := by
  have hsame := print_sameTree k text
  rw [LeadsToDirectory,LeadsToDirectory,fsResolvePath_graph htree hexact,
    fsResolvePath_graph (hsame.tree htree) hexact,hsame.resolve_eq]
  rfl

theorem At.leads (h : At k s dir) :
    LeadsToDirectory hooks s.kernel (Terminated.content nul s.current_dir 0) ↔
      LeadsToDirectory hooks k dir := by
  obtain ⟨printed,hk⟩ := h.kernel
  rw [h.content,hk,leadsToDirectory_print htree hexact]

theorem root_ownPath (hroot : Rooted k) : OwnPath hooks k ['/'] := by
  obtain ⟨root,d,hfs,hd,htype⟩ := hroot
  refine ⟨⟨[],List.not_mem_nil,.inl rfl⟩,root,d,?_,hd,htype⟩
  rw [fsResolvePath_graph htree hexact,resolve,hfs]
  rfl

theorem cdUp_moves (h : At k t dir) : ∃ u,
    cmdCd hooks [['c','d'],['.','.']] t = some (u,.ok) ∧ At k u (parentText dir) := by
  have hclean : ∀ name ∈ [['c','d'],['.','.']], nul ∉ name := by decide
  obtain ⟨u,dir',status,hcall,hmoves,hu⟩ := cmdCd_moves htree hexact h hclean
  cases hmoves with
  | up => exact ⟨u,hcall,hu⟩
  | enter hin => exact absurd rfl hin.2.1
  | stay _ hdots => exact absurd rfl hdots

theorem cmdCd_enters (h : At k s dir) (hclean : ∀ name ∈ argv, nul ∉ name)
    (hname : argv[1]? = some name) (hin : Entered k name) :
    ∃ t, cmdCd hooks argv s = some (t,.ok) ∧ At k t (name.take 255) := by
  obtain ⟨t,dir',status,hcall,hmoves,ht⟩ := cmdCd_moves htree hexact h hclean
  rw [hname] at hmoves
  cases hmoves with
  | root => exact absurd rfl hin.1
  | up => exact absurd rfl hin.2.1
  | enter => exact ⟨t,hcall,ht⟩
  | stay _ _ hout => exact absurd hin hout

theorem upUndoes_of_slashFirst (hclean : ∀ name ∈ argv, nul ∉ name)
    (hown : ∀ name, argv[1]? = some name → Entered k name → SlashFirst (name.take 255)) :
    UpUndoes hooks k argv := by
  intro s t hs hcall
  obtain ⟨t,dir,status,hcall',hmoves,ht⟩ := cmdCd_moves htree hexact hs hclean
  cases hcall.symm.trans hcall'
  obtain ⟨u,hup,hu⟩ := cdUp_moves htree hexact ht
  refine ⟨u,hup,hu.content.trans (parentText_root_iff.mpr ?_)⟩
  have hslash : SlashFirst ['/'] := ⟨[],List.not_mem_nil,.inl rfl⟩
  generalize hname : argv[1]? = name at hmoves
  cases hmoves with
  | home => exact hslash
  | root => exact hslash
  | up => exact hslash
  | enter hin => exact hown _ hname hin

-- one command keeps current_dir on a path of its own
theorem cdStep_ownPath (hroot : Rooted k) (hclean : ∀ name ∈ argv, nul ∉ name)
    (hown : ∀ name, argv[1]? = some name → Entered k name → OwnPath hooks k (name.take 255))
    (h : ∃ dir, At k s dir ∧ OwnPath hooks k dir) :
    ∃ t, cdStep hooks s argv = some t ∧ ∃ dir, At k t dir ∧ OwnPath hooks k dir := by
  obtain ⟨dir,hs,hdir⟩ := h
  obtain ⟨t,dir',status,hcall,hmoves,ht⟩ := cmdCd_moves htree hexact hs hclean
  refine ⟨t,by rw [cdStep,hcall,Option.map_some],dir',ht,?_⟩
  have hslash := root_ownPath htree hexact hroot
  generalize hname : argv[1]? = name at hmoves
  cases hmoves with
  | home => exact hslash
  | root => exact hslash
  | up =>
    rw [parentText_root_iff.mpr hdir.1]
    exact hslash
  | enter hin => exact hown _ hname hin
  | stay => exact hdir

theorem staysAbsolute_of_ownPath (hroot : Rooted k) (hlen : current_dir.length = 256)
    (hclean : ∀ argv ∈ commands, ∀ name ∈ argv, nul ∉ name)
    (hown : ∀ argv ∈ commands, ∀ name, argv[1]? = some name → Entered k name →
      OwnPath hooks k (name.take 255)) : StaysAbsolute hooks k current_dir commands := by
  intro done hdone
  obtain ⟨s,hinit,hs⟩ := shellInit_at k hlen
  have hkeep : ∀ s, (∃ dir, At k s dir ∧ OwnPath hooks k dir) → ∀ argv ∈ done,
      ∃ t, cdStep hooks s argv = some t ∧ ∃ dir, At k t dir ∧ OwnPath hooks k dir :=
    fun s h argv hargv => cdStep_ownPath htree hexact hroot (hclean argv (hdone.subset hargv))
      (hown argv (hdone.subset hargv)) h
  obtain ⟨t,hrun,dir,ht,hdir⟩ := foldlM_keeps hkeep ⟨['/'],hs,root_ownPath htree hexact hroot⟩
  rw [← run_eq_foldlM] at hrun
  refine ⟨s,t,hinit,hrun,?_,(ht.leads htree hexact).mpr hdir.2⟩
  rw [ht.content]
  obtain ⟨rest,-,rfl | rfl⟩ := hdir.1
  · exact ⟨rest,rfl⟩
  · exact ⟨'/' :: rest,rfl⟩

theorem ownPath_of_undoes (hlen : current_dir.length = 256)
    (hclean : ∀ argv ∈ commands, ∀ name ∈ argv, nul ∉ name)
    (hundo : ∀ argv ∈ commands, UpUndoes hooks k argv)
    (hstays : StaysAbsolute hooks k current_dir commands) (hargv : argv ∈ commands)
    (hname : argv[1]? = some name) (hin : Entered k name) : OwnPath hooks k (name.take 255) := by
  obtain ⟨s,hinit,hs⟩ := shellInit_at k hlen
  constructor
  · obtain ⟨t,hcall,ht⟩ := cmdCd_enters htree hexact hs (hclean argv hargv) hname hin
    obtain ⟨u,hup,hu⟩ := cdUp_moves htree hexact ht
    obtain ⟨v,hup',hv⟩ := hundo argv hargv s t hs hcall
    cases hup.symm.trans hup'
    exact parentText_root_iff.mp (hu.content.symm.trans hv)
  · obtain ⟨before,after,rfl⟩ := List.append_of_mem hargv
    have hdone : before ++ [argv] <+: before ++ argv :: after := ⟨after,by simp⟩
    obtain ⟨s',t,hinit',hrun,-,hleads⟩ := hstays _ hdone
    cases hinit.symm.trans hinit'
    have hkeep : ∀ s, (∃ dir, At k s dir) → ∀ argv ∈ before,
        ∃ t, cdStep hooks s argv = some t ∧ ∃ dir, At k t dir := by
      rintro s ⟨dir,hs⟩ argv hargv
      obtain ⟨t,dir',status,hcall,-,ht⟩ := cmdCd_moves htree hexact hs
        (hclean argv (List.mem_append_left _ hargv))
      exact ⟨t,by rw [cdStep,hcall,Option.map_some],dir',ht⟩
    obtain ⟨u,hbefore,dir,hu⟩ := foldlM_keeps hkeep ⟨['/'],hs⟩
    rw [← run_eq_foldlM] at hbefore
    obtain ⟨v,hcall,hv⟩ := cmdCd_enters htree hexact hu (hclean argv hargv) hname hin
    rw [run_append,hbefore,Option.bind_some,run,cdStep,hcall] at hrun
    cases hrun
    exact (hv.leads htree hexact).mp hleads

end Undo

theorem cd_up_undoes_cd (hooks : Hooks) (k : KernelState) (htree : Tree k)
    (hexact : ExactFinddir hooks) (hroot : Rooted k) (current_dir : List Char)
    (hlen : current_dir.length = 256) (commands : List (List CString))
    (hclean : ∀ argv ∈ commands, ∀ name ∈ argv, nul ∉ name) :
    ((∀ argv ∈ commands, UpUndoes hooks k argv) ∧ StaysAbsolute hooks k current_dir commands) ↔
      ∀ argv ∈ commands, ∀ name, argv[1]? = some name → Entered k name →
        OwnPath hooks k (name.take 255) := by
  constructor
  · rintro ⟨hundo,hstays⟩ argv hargv name hname hin
    exact ownPath_of_undoes htree hexact hlen hclean hundo hstays hargv hname hin
  · intro hown
    refine ⟨fun argv hargv => ?_,staysAbsolute_of_ownPath htree hexact hroot hlen hclean hown⟩
    exact upUndoes_of_slashFirst htree hexact (hclean argv hargv) fun name hname hin =>
      (hown argv hargv name hname hin).1

-- a root directory with the one directory etc in it
def rootWithDir : KernelState :=
  { KernelState.boot with
    nodes := [{ createdNode KernelState.boot ['/'] .directory with children := some 1 },
      { createdNode KernelState.boot ['e','t','c'] .directory with parent := some 0 }]
    fs_root := some 0 }

theorem rootWithDir_tree : Tree rootWithDir := tree_of_checks (by decide)

-- the directory a, and beside it one whose name is a path to it
def slashedRoot : KernelState :=
  { KernelState.boot with
    nodes := [{ createdNode KernelState.boot ['/'] .directory with children := some 1 },
      { createdNode KernelState.boot ['a'] .directory with parent := some 0, next := some 2 },
      { createdNode KernelState.boot ['/','a'] .directory with parent := some 0 }]
    fs_root := some 0 }

theorem slashedRoot_tree : Tree slashedRoot := tree_of_checks (by decide)

theorem slashedRoot_path : fsResolvePath treeHooks slashedRoot (some ['/','a']) = some (some 1) := by
  rw [fsResolvePath_eq treeHooks slashedRoot rfl]
  decide

def slashedCommands : List (List CString) :=
  [[['c','d'],['/','a']],[['c','d'],['.','.']],[['c','d'],['/']]]

theorem cd_up_undoes_cd_slashed : Entered slashedRoot ['/','a'] ∧
    (∀ argv ∈ slashedCommands, UpUndoes treeHooks slashedRoot argv) ∧
      StaysAbsolute treeHooks slashedRoot (List.replicate 256 nul) slashedCommands := by
  refine ⟨by decide,(cd_up_undoes_cd treeHooks slashedRoot slashedRoot_tree treeHooks_exact
    ⟨0,_,rfl,rfl,rfl⟩ (List.replicate 256 nul) List.length_replicate slashedCommands
    (by decide)).mpr ?_⟩
  intro argv hargv name hname hin
  have hnames : ∀ argv ∈ slashedCommands, argv[1]? = some ['/','a'] ∨
      argv[1]? = some ['.','.'] ∨ argv[1]? = some ['/'] := by decide
  rcases hnames argv hargv with ha | hup | hhome
  · obtain rfl := Option.some.inj (hname.symm.trans ha)
    exact ⟨⟨['a'],by decide,.inl rfl⟩,1,_,slashedRoot_path,rfl,rfl⟩
  · obtain rfl := Option.some.inj (hname.symm.trans hup)
    exact absurd rfl hin.2.1
  · obtain rfl := Option.some.inj (hname.symm.trans hhome)
    exact absurd rfl hin.1

theorem etc_left_in_place : Entered rootWithDir ['e','t','c'] ∧
    ¬ ((∀ argv ∈ [[['c','d'],['e','t','c']]], UpUndoes treeHooks rootWithDir argv) ∧
      StaysAbsolute treeHooks rootWithDir (List.replicate 256 nul)
        [[['c','d'],['e','t','c']]]) := by
  have hin : Entered rootWithDir ['e','t','c'] := by decide
  refine ⟨hin,fun ⟨hundo,hstays⟩ => ?_⟩
  have hown := ownPath_of_undoes rootWithDir_tree treeHooks_exact List.length_replicate (by decide)
    hundo hstays List.mem_cons_self rfl hin
  exact absurd (parentText_root_iff.mpr hown.1) (by decide)

end KluxOS.Shell
