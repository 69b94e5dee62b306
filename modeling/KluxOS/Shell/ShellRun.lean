import KluxOS.Drivers.ReadLine
import KluxOS.Shell.Session

namespace KluxOS.Shell

open Fs LinkedList Processes QuotedWords Terminated

-- the buffer of the console is command_line, a local array of shell_run; the one terminal is kept
-- apart: the screen with the echoed keys in console, the text that the commands print in shell.kernel
structure ShellContext where
  shell : ShellState
  last_command : List Char
  exit_code : ℤ
  console : Console maxCommandLength.toNat

section Loop

def ShellStatus.code : ShellStatus → ℤ
  | .ok => 0
  | .errorCommandNotFound => 1
  | .errorInvalidArguments => 2
  | .errorPermissionDenied => 3
  | .errorInternal => 4
  | .exit => 5

-- username and hostname are what shell_init copies into the context
def username : CString := "root".toList

def hostname : CString := "kluxos".toList

def promptText (dir : CString) : CString := username ++ ['@'] ++ hostname ++ [':'] ++ dir ++ ['$',' ']

def bannerText : CString :=
  "\n  _  __ _               ___  ____  \n".toList ++
    " | |/ /| | _   _ __  __/ _ \\/ ___| \n".toList ++
    " | ' / | || | | |\\ \\/ / | | \\___ \\ \n".toList ++
    " | . \\ | || |_| | >  <| |_| |___) |\n".toList ++
    " |_|\\_\\|_| \\__,_|/_/\\_\\\\___/|____/ \n\n".toList ++
    "KluxOS Terminal - Version ".toList ++ shellVersion ++
    "\nType 'help' for assistance.\n\n".toList

-- shell_init, and the banner that shell_run starts with
def shellStart (kernel : KernelState) (current_dir last_command : List Char)
    (console : Console maxCommandLength.toNat) : Option ShellContext := do
  let shell ← shellInit { kernel with terminal := bannerText } current_dir
  some ⟨shell,List.replicate last_command.length nul,0,console⟩

variable (hooks : Hooks) (env : Environment)

-- one turn of the loop, and whether it leaves the loop; none also waits for a key
def shellTurn (s : ShellContext) (frame : Frame) : Option (ShellContext × Bool) := do
  let dir ← bufferText s.shell.current_dir
  let shell := { s.shell with kernel := s.shell.kernel.print (promptText dir) }
  let console ← terminalGets maxCommandLength s.console
  let command_line := console.buffer.toList.map charOf
  let first ← command_line[0]?
  if first = nul then some ({ s with shell := shell, console := console },false)
  else do
    let last_command ← strCopy s.last_command command_line maxCommandLength
    let (shell,status) ← shellExecuteCommand hooks env frame command_line shell
    some (if status = .exit then (⟨shell,last_command,s.exit_code,console⟩,true)
      else (⟨shell,last_command,status.code,console⟩,false))

-- the first turns of the loop, one for each frame
def shellRun : ShellContext → List Frame → Option (ShellContext × Bool)
  | s,[] => some (s,false)
  | s,frame :: frames => do
    let (s,left) ← shellTurn hooks env s frame
    if left then some (s,true) else shellRun s frames

end Loop

section View

def lineText (line : List Uint8) : CString := (editedLine line).map charOf

-- the keys of a line before KEY_ENTER, and the words that its text reads as
structure Typed where
  line : List Uint8
  words : List (Word Char)

def Typed.argv (t : Typed) : List CString := t.words.map token

structure Typed.Fits (t : Typed) : Prop where
  enter : keyEnter ∉ t.line
  roomy : ∀ typed, typed <+: t.line → (editedLine typed).length < 255
  reads : Reads isQuote isBlank t.words (lineText t.line)
  few : t.words.length < 64

variable (env : Environment) (k : KernelState) (find : CString → Option (Option NodePtr))
  (contents : NodePtr → List Uint8)

namespace View

def start : View := ⟨bannerText,['/'],[],0⟩

def turn (v : View) (typed : Typed) : Option (View × Bool) :=
  let v := { v with written := v.written ++ promptText v.dir }
  if lineText typed.line = [] then some (v,false)
  else do
    let (u,status) ← commandEffect env k find contents
      { v with last_command := lineText typed.line } typed.argv
    some (if status = .exit then (u,true) else ({ u with exit_code := status.code },false))

-- the lines behind the one that leaves the loop are not read
def session (v : View) : List Typed → Option (View × Bool × List Typed)
  | [] => some (v,false,[])
  | typed :: more => do
    let (u,left) ← v.turn env k find contents typed
    if left then some (u,true,more) else u.session more

end View

end View

section Turn

structure ShowsAll (k : KernelState) (s : ShellContext) (v : View) : Prop where
  shell : Shows k s.shell v
  last_command : Holds s.last_command v.last_command
  exit_code : s.exit_code = v.exit_code
  screen : OnScreen s.console.terminal

theorem charOf_zero {b : Uint8} (h : charOf b = nul) : b = 0#8 := by
  have hlt := b.isLt
  have hvalid : b.toNat.isValidChar := .inl (by omega)
  have hchar : charOf b = Char.ofNatAux b.toNat hvalid := dif_pos hvalid
  exact BitVec.eq_of_toNat_eq (congrArg Char.toNat (hchar.symm.trans h))

theorem lineText_clean (line : List Uint8) : nul ∉ lineText line := by
  rw [lineText,List.mem_map]
  rintro ⟨b,hb,hnul⟩
  rw [charOf_zero hnul] at hb
  exact editedLine_clean List.not_mem_nil line hb

theorem content_clean (buffer : List Char) (p : ℕ) : nul ∉ content nul buffer p := by
  intro hmem
  have hne := List.mem_takeWhile_imp hmem
  exact of_decide_eq_true hne rfl

theorem arguments_eq {buffer : List Char} {argv : ℕ → Option ℕ} {args : List CString}
    (h : ∀ (j : ℕ) (arg : CString), args[j]? = some arg →
      ∃ p, argv j = some p ∧ content nul buffer p = arg) {argc : ℕ} (hargc : argc ≤ args.length) :
    arguments buffer argv argc = some (args.take argc) := by
  induction argc with
  | zero => rfl
  | succ argc ih =>
    have hget := List.getElem?_eq_getElem hargc
    obtain ⟨p,hp,hcontent⟩ := h argc args[argc] hget
    rw [arguments,ih (Nat.le_of_succ_le hargc),Option.bind_eq_bind,Option.bind_some,hp,
      Option.bind_eq_bind,Option.bind_some,hcontent,List.take_add_one,hget]
    rfl

structure SameRecord (v u : View) : Prop where
  last_command : u.last_command = v.last_command
  exit_code : u.exit_code = v.exit_code

def KeepsRecord (v : View) (result : Option (View × ShellStatus)) : Prop :=
  ∀ u status, result = some (u,status) → SameRecord v u

theorem KeepsRecord.of {v u : View} {status : ShellStatus} (h : SameRecord v u) :
    KeepsRecord v (some (u,status)) := by
  rintro _ _ ⟨⟩
  exact h

theorem KeepsRecord.bind {α : Type} {v : View} {o : Option α} {f : α → Option (View × ShellStatus)}
    (h : ∀ a, KeepsRecord v (f a)) : KeepsRecord v (o.bind f) := by
  intro u status hbind
  obtain ⟨a,-,ha⟩ := Option.bind_eq_some_iff.mp hbind
  exact h a u status ha

-- a command leaves these two to shell_run
theorem commandEffect_keeps (env : Environment) (k : KernelState)
    (find : CString → Option (Option NodePtr)) (contents : NodePtr → List Uint8) (v : View)
    (argv : List CString) :
    KeepsRecord v (commandEffect env k find contents v argv) := by
  have hsay : ∀ text status, KeepsRecord v (v.say text status) := fun _ _ => .of ⟨rfl,rfl⟩
  have henter : ∀ dir, KeepsRecord v (v.enter dir) := fun _ => .of ⟨rfl,rfl⟩
  cases argv with
  | nil => exact .of ⟨rfl,rfl⟩
  | cons name args =>
    rw [commandEffect]
    cases findCommand name with
    | none => exact hsay _ _
    | some command =>
      dsimp only
      cases command.handler with
      | help =>
        cases args with
        | nil => exact hsay _ _
        | cons topic args =>
          rw [Handler.effect]
          cases findCommand topic <;> exact hsay _ _
      | clear => exact .of ⟨rfl,rfl⟩
      | ls =>
        refine .bind fun node => ?_
        cases node.bind (k.nodes[·]?) with
        | none => exact hsay _ _
        | some d =>
          rw [View.list]
          split <;> exact hsay _ _
      | cd =>
        cases args with
        | nil => exact henter _
        | cons path args =>
          rw [Handler.effect]
          split_ifs
          · exact henter _
          · exact henter _
          · refine .bind fun node => ?_
            split
            · exact hsay _ _
            · split
              · exact henter _
              · exact hsay _ _
      | cat =>
        cases args with
        | nil => exact hsay _ _
        | cons path args =>
          refine .bind fun node => ?_
          split
          · exact hsay _ _
          · split <;> exact hsay _ _
      | _ => exact hsay _ _

variable {hooks : Hooks} {env : Environment} {k : KernelState}
  {find : CString → Option (Option NodePtr)} {contents : NodePtr → List Uint8} {l : List ProcessPtr} (htree : Tree k)
  (hserves : Serves hooks k find contents)
  (hl : Chain Process.next env.processes env.process_list l)

include htree hserves hl

theorem execute_agrees {s : ShellState} {v : View} (h : Shows k s v) {frame : Frame}
    (hframe : frame.cmd_copy.length = 256) {typed : Typed} (hfits : typed.Fits)
    (hlen : (lineText typed.line).length < 256) (tail : List Char) :
    Agrees k (shellExecuteCommand hooks env frame (lineText typed.line ++ nul :: tail) s)
      (commandEffect env k find contents v typed.argv) := by
  have hclean := lineText_clean typed.line
  have hfew : (typed.words.length : ℤ) < 64 := Int.ofNat_lt.mpr hfits.few
  obtain ⟨done,argv,hparse,-,-,htoken⟩ := shellParseArgs_tokens
    (frame.cmd_copy.drop ((lineText typed.line).length + 1)) frame.argv hfits.reads hclean hfew
  have hget : ∀ (j : ℕ) (arg : CString), typed.argv[j]? = some arg →
      ∃ p, argv j = some p ∧ content nul
        (done ++ nul :: frame.cmd_copy.drop ((lineText typed.line).length + 1)) p = arg := by
    intro j arg hj
    rw [Typed.argv,List.getElem?_map] at hj
    obtain ⟨w,hw,rfl⟩ := Option.map_eq_some_iff.mp hj
    exact htoken j w hw
  have hargs := arguments_eq hget (Nat.le_refl typed.argv.length)
  rw [List.take_length,Typed.argv,List.length_map,← Typed.argv] at hargs
  have hcleans : ∀ arg ∈ typed.argv, nul ∉ arg := by
    intro arg harg
    obtain ⟨j,hj⟩ := List.getElem?_of_mem harg
    obtain ⟨p,-,rfl⟩ := hget j arg hj
    exact content_clean _ p
  rw [shellExecuteCommand,commandArgs_eq hclean hlen hframe,hparse]
  simp only [Option.bind_eq_bind,Option.bind_some,if_pos hfew,Int.toNat_natCast,hargs]
  exact runCommand_agrees htree hserves hl h hcleans

-- both do not return, or both return what the other shows, with the keys behind the line unread
def TurnAgrees (k : KernelState) (keys : List Uint8) (call : Option (ShellContext × Bool)) :
    Option (View × Bool) → Prop
  | none => call = none
  | some (v,left) => ∃ s, call = some (s,left) ∧ ShowsAll k s v ∧ s.console.keys = keys

theorem shellTurn_agrees {s : ShellContext} {v : View} (h : ShowsAll k s v) {frame : Frame}
    (hframe : frame.cmd_copy.length = 256) {typed : Typed} (hfits : typed.Fits)
    {more : List Uint8} (hkeys : s.console.keys = typed.line ++ keyEnter :: more) :
    TurnAgrees k more (shellTurn hooks env s frame) (v.turn env k find contents typed) := by
  obtain ⟨c,hgets,hscreen,hroomy,-⟩ :=
    terminalGets_line (show 2 ≤ maxCommandLength.toNat by decide) h.screen hfits.enter hkeys
  obtain ⟨hcut,hmore⟩ := hroomy hfits.roomy
  obtain ⟨rest,hrest⟩ := hcut.stops
  rw [List.drop_zero] at hrest
  have hline : c.buffer.toList.map charOf = lineText typed.line ++ nul :: rest.map charOf := by
    rw [hrest,List.map_append,List.map_cons]
    rfl
  have hlen : (lineText typed.line).length < 256 := by
    have hshort := hfits.roomy typed.line (List.prefix_refl typed.line)
    rw [lineText,List.length_map]
    omega
  have hshell : Shows k { s.shell with kernel := s.shell.kernel.print (promptText v.dir) }
      { v with written := v.written ++ promptText v.dir } :=
    ⟨h.shell.same.print _,congrArg (· ++ promptText v.dir) h.shell.terminal,h.shell.dir⟩
  rw [shellTurn,bufferText_eq h.shell.dir,hgets,View.turn]
  simp only [Option.bind_eq_bind,Option.bind_some,hline]
  by_cases hempty : lineText typed.line = []
  · rw [if_pos hempty,hempty]
    exact ⟨_,rfl,⟨hshell,h.last_command,h.exit_code,hscreen⟩,hmore⟩
  · obtain ⟨first,text,htext⟩ := List.exists_cons_of_ne_nil hempty
    have hfirst : first ≠ nul := by
      rintro rfl
      exact lineText_clean typed.line (htext ▸ List.mem_cons_self)
    have hread : (lineText typed.line ++ nul :: rest.map charOf)[0]? = some first := by
      rw [htext]
      rfl
    have hlast : strCopy s.last_command (lineText typed.line ++ nul :: rest.map charOf)
        maxCommandLength = some (lineText typed.line ++
          nul :: s.last_command.drop ((lineText typed.line).length + 1)) :=
      strCopy_line (lineText_clean typed.line) hlen h.last_command.length
    have hcalled := execute_agrees htree hserves hl
      (v := { v with written := v.written ++ promptText v.dir, last_command := lineText typed.line })
      ⟨hshell.same,hshell.terminal,hshell.dir⟩ hframe hfits hlen (rest.map charOf)
    have hkeeps := commandEffect_keeps env k find contents
      { v with written := v.written ++ promptText v.dir, last_command := lineText typed.line }
      typed.argv
    have hcopied : Holds (lineText typed.line ++
        nul :: s.last_command.drop ((lineText typed.line).length + 1)) (lineText typed.line) := by
      refine ⟨?_,lineText_clean typed.line,_,rfl⟩
      rw [List.length_append,List.length_cons,List.length_drop,h.last_command.length]
      omega
    rw [if_neg hempty,hread,Option.bind_some,if_neg hfirst,hlast,Option.bind_some]
    cases heffect : commandEffect env k find contents
        { v with written := v.written ++ promptText v.dir, last_command := lineText typed.line }
        typed.argv with
    | none =>
      rw [heffect] at hcalled
      change (shellExecuteCommand _ _ _ _ _).bind _ = none
      rw [hcalled]
      rfl
    | some result =>
      obtain ⟨u,status⟩ := result
      rw [heffect] at hcalled
      obtain ⟨t,hcall,ht⟩ := hcalled
      obtain ⟨hu,hcode⟩ := hkeeps u status heffect
      rw [hcall,Option.bind_some,Option.bind_some]
      split
      · exact ⟨_,rfl,⟨ht,hu ▸ hcopied,h.exit_code.trans hcode.symm,hscreen⟩,hmore⟩
      · exact ⟨_,rfl,⟨⟨ht.same,ht.terminal,ht.dir⟩,hu ▸ hcopied,rfl,hscreen⟩,hmore⟩

end Turn

section Run

def RunAgrees (k : KernelState) (rest : List Uint8) (call : Option (ShellContext × Bool)) :
    Option (View × Bool × List Typed) → Prop
  | none => call = none
  | some (v,left,unread) => ∃ s, call = some (s,left) ∧ ShowsAll k s v ∧
      s.console.keys = stream (unread.map Typed.line) ++ rest

variable {hooks : Hooks} {env : Environment} {k : KernelState}
  {find : CString → Option (Option NodePtr)} {contents : NodePtr → List Uint8} {l : List ProcessPtr} (htree : Tree k)
  (hserves : Serves hooks k find contents)
  (hl : Chain Process.next env.processes env.process_list l)

theorem shellStart_shows (k : KernelState) {current_dir last_command : List Char}
    (hdir : current_dir.length = 256) (hlast : last_command.length = 256)
    {console : Console maxCommandLength.toNat} (hon : OnScreen console.terminal) :
    ∃ s, shellStart k current_dir last_command console = some s ∧ ShowsAll k s View.start ∧
      s.console = console := by
  obtain ⟨b,hb,hroot⟩ := strCopy_root hdir
  refine ⟨⟨⟨{ k with terminal := bannerText },b⟩,List.replicate last_command.length nul,0,console⟩,
    ?_,⟨⟨⟨rfl,rfl⟩,rfl,hroot⟩,⟨?_,List.not_mem_nil,?_⟩,rfl,hon⟩,rfl⟩
  · rw [shellStart,shellInit,hb]
    rfl
  · rw [List.length_replicate,hlast]
  · rw [hlast]
    exact ⟨List.replicate 255 nul,rfl⟩

include htree hserves hl

theorem shellRun_agrees {typed : List Typed} (hfits : ∀ t ∈ typed, t.Fits) {frames : List Frame}
    (hcount : frames.length = typed.length) (hframes : ∀ frame ∈ frames, frame.cmd_copy.length = 256)
    {s : ShellContext} {v : View} (h : ShowsAll k s v) {rest : List Uint8}
    (hkeys : s.console.keys = stream (typed.map Typed.line) ++ rest) :
    RunAgrees k rest (shellRun hooks env s frames) (v.session env k find contents typed) := by
  induction typed generalizing s v frames with
  | nil =>
    rw [List.length_nil,List.length_eq_zero_iff] at hcount
    subst hcount
    exact ⟨s,rfl,h,hkeys⟩
  | cons t typed ih =>
    obtain ⟨frame,frames,rfl⟩ := List.exists_cons_of_length_eq_add_one hcount
    obtain ⟨ht,hfits⟩ := List.forall_mem_cons.mp hfits
    obtain ⟨hframe,hframes⟩ := List.forall_mem_cons.mp hframes
    rw [List.map_cons,stream_cons] at hkeys
    have hturn := shellTurn_agrees htree hserves hl h hframe ht hkeys
    rw [shellRun,View.session]
    cases hview : v.turn env k find contents t with
    | none =>
      rw [hview] at hturn
      exact Option.bind_eq_none_iff.mpr fun a ha => absurd (hturn.symm.trans ha) (by simp)
    | some result =>
      obtain ⟨u,left⟩ := result
      rw [hview] at hturn
      obtain ⟨c,hcall,hc,hmore⟩ := hturn
      rw [hcall,Option.bind_eq_bind,Option.bind_some,Option.bind_eq_bind,Option.bind_some]
      cases left with
      | true => exact ⟨c,rfl,hc,hmore⟩
      | false => exact ih hfits (Nat.succ.inj hcount) hframes hc hmore

end Run

-- on lines that fit, shell_run does what the session of views does, and reads no line behind exit
theorem shell_run_is_session (hooks : Hooks) (env : Environment) (k : KernelState)
    (find : CString → Option (Option NodePtr)) (contents : NodePtr → List Uint8) (htree : Tree k)
    (hserves : Serves hooks k find contents) (l : List ProcessPtr)
    (hl : Chain Process.next env.processes env.process_list l) (current_dir last_command : List Char)
    (hdir : current_dir.length = 256) (hlast : last_command.length = 256)
    (console : Console maxCommandLength.toNat) (hon : OnScreen console.terminal)
    (typed : List Typed) (hfits : ∀ t ∈ typed, t.Fits) (rest : List Uint8)
    (hkeys : console.keys = stream (typed.map Typed.line) ++ rest) (frames : List Frame)
    (hcount : frames.length = typed.length) (hframes : ∀ frame ∈ frames, frame.cmd_copy.length = 256) :
    ∃ s, shellStart k current_dir last_command console = some s ∧
      RunAgrees k rest (shellRun hooks env s frames) (View.start.session env k find contents typed) := by
  obtain ⟨s,hstart,hs,hconsole⟩ := shellStart_shows k hdir hlast hon
  exact ⟨s,hstart,shellRun_agrees htree hserves hl hfits hcount hframes hs (hconsole ▸ hkeys)⟩

section Example

theorem editedLine_length (kept line : List Uint8) :
    (line.foldl editKey kept).length ≤ kept.length + line.length := by
  induction line generalizing kept with
  | nil => exact Nat.le_refl _
  | cons c line ih =>
    have hkey := editKey_length kept c
    have hmore := ih (editKey kept c)
    rw [List.foldl_cons,List.length_cons]
    omega

theorem roomy_of_short {line : List Uint8} (h : line.length < 255) (typed : List Uint8)
    (htyped : typed <+: line) : (editedLine typed).length < 255 := by
  have hkept := editedLine_length [] typed
  rw [List.length_nil,Nat.zero_add] at hkept
  exact Nat.lt_of_le_of_lt (Nat.le_trans hkept htyped.length_le) h

theorem lookup_same {k t : KernelState} (h : SameNodes k t) (name : CString) :
    rootNode t name = rootNode k name := by
  have hlookup : ∀ d, lookup t d name = lookup k d name := fun d => by
    rw [lookup,lookup,h.nodes]
  simp only [rootNode,h.nodes,h.fs_root,hlookup]

-- drivers whose files are empty
def emptyFiles : Hooks := { treeHooks with read := fun _ s _ _ _ => some (s,0#32,[]) }

theorem emptyFiles_serve {k : KernelState} (htree : Tree k) :
    Serves emptyFiles k (fun name => some (rootNode k name)) fun _ => [] := by
  have hexact : ExactFinddir emptyFiles := treeHooks_exact
  have hnode : ∀ {t name node}, SameNodes k t → some (rootNode k name) = some (some node) →
      ∃ n, t.nodes[node]? = some n := fun ht hfound => by
    rw [ht.nodes]
    exact rootNode_node (Option.some.inj hfound)
  refine ⟨fun t name ht => ?_,fun name node hfound => ?_,fun t name node ht hfound => ?_,
    fun t name node count ht hfound => ?_,fun t name node ht hfound => ?_⟩
  · have hsame : SameTree k t := ⟨congrArg _ ht.nodes,ht.fs_root⟩
    rw [fsFinddir_root (hsame.tree htree) hexact,lookup_same ht]
  · obtain ⟨n,hn⟩ := rootNode_node (Option.some.inj hfound)
    exact lt_of_node hn
  · obtain ⟨n,hn⟩ := hnode ht hfound
    refine ⟨t,?_,ht,rfl⟩
    simp only [fsOpen,dispatch,hn,Option.bind_eq_bind,Option.bind_some]
    cases n.open_ <;> rfl
  · obtain ⟨n,hn⟩ := hnode ht hfound
    refine ⟨t,0#32,[],?_,Nat.le_refl 0,List.take_nil.symm,ht,rfl⟩
    simp only [fsRead,dispatch,hn,Option.bind_eq_bind,Option.bind_some]
    cases n.read <;> rfl
  · obtain ⟨n,hn⟩ := hnode ht hfound
    refine ⟨t,?_,ht,rfl⟩
    simp only [fsClose,dispatch,hn,Option.bind_eq_bind,Option.bind_some]
    cases n.close <;> rfl

def idleSystem : Environment := ⟨[],none,⟨0#32,0#32,0#32,0#32,0#32,0#32⟩⟩

-- cat a, then exit
def catThenExit : List Typed :=
  [⟨[99#8,97#8,116#8,32#8,97#8],[[.plain 'c',.plain 'a',.plain 't'],[.plain 'a']]⟩,
    ⟨[101#8,120#8,105#8,116#8],[[.plain 'e',.plain 'x',.plain 'i',.plain 't']]⟩]

theorem catThenExit_fits : ∀ t ∈ catThenExit, t.Fits := by
  have hcat : Reads isQuote isBlank [[.plain 'c',.plain 'a',.plain 't'],[.plain 'a']]
      (render [.plain 'c',.plain 'a',.plain 't'] ++ ' ' :: (render [.plain 'a'] ++ [])) :=
    .word (by decide) (by simp [Closed,isQuote,isBlank]) (by simp [Ends,isBlank])
      (.blank (.inl rfl) (.word (by decide) (by simp [Closed,isQuote,isBlank]) (by simp [Ends])
        .nil))
  have hexit : Reads isQuote isBlank [[.plain 'e',.plain 'x',.plain 'i',.plain 't']]
      (render [.plain 'e',.plain 'x',.plain 'i',.plain 't'] ++ []) :=
    .word (by decide) (by simp [Closed,isQuote,isBlank]) (by simp [Ends]) .nil
  refine List.forall_mem_cons.mpr ⟨?_,List.forall_mem_singleton.mpr ?_⟩
  · exact ⟨by decide,roomy_of_short (by decide),hcat,by decide⟩
  · exact ⟨by decide,roomy_of_short (by decide),hexit,by decide⟩

def blankConsole (keys : List Uint8) : Console maxCommandLength.toNat :=
  ⟨Vector.replicate maxCommandLength.toNat 0#8,blankTerminal,keys⟩

def blankFrame : Frame := ⟨List.replicate 256 nul,fun _ => none⟩

theorem shell_run_is_session_cat : ∃ s,
    shellStart rootWithFile (List.replicate 256 nul) (List.replicate 256 nul)
      (blankConsole (stream (catThenExit.map Typed.line) ++ [97#8])) = some s ∧
    RunAgrees rootWithFile [97#8] (shellRun emptyFiles idleSystem s [blankFrame,blankFrame])
      (View.start.session idleSystem rootWithFile
        (fun name => some (rootNode rootWithFile name)) (fun _ => []) catThenExit) :=
  shell_run_is_session emptyFiles idleSystem rootWithFile _ _ rootWithFile_tree
    (emptyFiles_serve rootWithFile_tree) [] .nil _ _ List.length_replicate List.length_replicate _
    ⟨by decide,by decide⟩ catThenExit catThenExit_fits [97#8] rfl [blankFrame,blankFrame] rfl
    (List.forall_mem_cons.mpr
      ⟨List.length_replicate,List.forall_mem_singleton.mpr List.length_replicate⟩)

end Example

end KluxOS.Shell
