import KluxOS.Fs.Dispatch
import KluxOS.Shell.ShellRun

namespace KluxOS.Shell

open Fs LinkedList Processes QuotedWords Terminated

section Names

def Handler.name : Handler → CString
  | .help => ['h','e','l','p']
  | .clear => ['c','l','e','a','r']
  | .echo => ['e','c','h','o']
  | .exit => ['e','x','i','t']
  | .version => ['v','e','r','s','i','o','n']
  | .ls => ['l','s']
  | .cd => ['c','d']
  | .cat => ['c','a','t']
  | .ps => ['p','s']
  | .uptime => ['u','p','t','i','m','e']
  | .meminfo => ['m','e','m','i','n','f','o']

theorem commands_named : ∀ command ∈ commands, command.name = command.handler.name := by decide

theorem findCommand_handler {name : CString} {command : ShellCommand}
    (h : findCommand name = some command) : name = command.handler.name := by
  have hname := of_decide_eq_true
    (List.find?_some (p := fun command : ShellCommand => decide (name = command.name)) h)
  exact hname.trans (commands_named command (List.mem_of_find?_eq_some h))

theorem findCommand_name (handler : Handler) :
    ∃ command, findCommand handler.name = some command ∧ command.handler = handler := by
  cases handler <;> exact ⟨_,rfl,rfl⟩

end Names

section Asks

-- the command looks a name up in the root directory
def Handler.Asks : Handler → List CString → Prop
  | .cat,_ :: _ => True
  | .cd,path :: _ => path ≠ ['/'] ∧ path ≠ ['.','.']
  | .ls,path :: _ => path ≠ ['/']
  | _,_ => False

def Asks (argv : List CString) : Prop :=
  ∃ handler args, argv = Handler.name handler :: args ∧ handler.Asks args

-- the lines up to the first one that leaves the shell
def executed : List Typed → List Typed
  | [] => []
  | typed :: more =>
    if typed.argv.head? = some Handler.exit.name then [typed] else typed :: executed more

variable {env : Environment} {k : KernelState} {contents : NodePtr → List Uint8} {v : View}

-- the command returns, in the root directory again
def Returned (exits : Prop) (result : Option (View × ShellStatus)) : Prop :=
  ∃ u status, result = some (u,status) ∧ u.dir = ['/'] ∧ (status = .exit ↔ exits)

theorem returned_say {exits : Prop} (hdir : v.dir = ['/']) (text : CString) {status : ShellStatus}
    (hstatus : status = .exit ↔ exits) : Returned exits (v.say text status) :=
  ⟨_,_,rfl,hdir,hstatus⟩

-- fs_finddir does not return, so only a command that needs no answer of it does
theorem effect_root (hdir : v.dir = ['/']) (handler : Handler) (args : List CString) :
    (handler.Asks args ∧ handler.effect env k (fun _ => none) contents v args = none) ∨
      ¬ handler.Asks args ∧
        Returned (handler = .exit) (handler.effect env k (fun _ => none) contents v args) := by
  cases handler with
  | help =>
    refine .inr ⟨id,?_⟩
    cases args with
    | nil => exact returned_say hdir _ (by decide)
    | cons topic args =>
      rw [Handler.effect]
      cases findCommand topic <;> exact returned_say hdir _ (by decide)
  | clear => exact .inr ⟨id,_,_,rfl,hdir,by decide⟩
  | ls =>
    have hroot : ∀ d, Returned (Handler.ls = .exit) (v.list k ['/'] d) := by
      rintro (_ | d)
      · exact returned_say hdir _ (by decide)
      · rw [View.list]
        split <;> exact returned_say hdir _ (by decide)
    cases args with
    | nil =>
      refine .inr ⟨id,?_⟩
      rw [Handler.effect,List.head?_nil,Option.getD_none,hdir,listed,if_pos rfl]
      exact hroot _
    | cons path args =>
      by_cases hslash : path = ['/']
      · subst hslash
        refine .inr ⟨fun hasks => hasks rfl,?_⟩
        rw [Handler.effect,List.head?_cons,Option.getD_some,listed,if_pos rfl]
        exact hroot _
      · refine .inl ⟨hslash,?_⟩
        rw [Handler.effect,List.head?_cons,Option.getD_some,listed,if_neg hslash]
        rfl
  | cd =>
    cases args with
    | nil => exact .inr ⟨id,_,_,rfl,rfl,by decide⟩
    | cons path args =>
      rw [Handler.effect]
      by_cases hslash : path = ['/']
      · rw [if_pos hslash]
        exact .inr ⟨fun hasks => hasks.1 hslash,_,_,rfl,rfl,by decide⟩
      · rw [if_neg hslash]
        by_cases hdots : path = ['.','.']
        · rw [if_pos hdots,hdir]
          have hup : parentText ['/'] = ['/'] := by decide
          exact .inr ⟨fun hasks => hasks.2 hdots,_,_,rfl,hup,by decide⟩
        · rw [if_neg hdots]
          exact .inl ⟨⟨hslash,hdots⟩,rfl⟩
  | cat =>
    cases args with
    | nil => exact .inr ⟨id,returned_say hdir _ (by decide)⟩
    | cons path args => exact .inl ⟨trivial,rfl⟩
  | exit => exact .inr ⟨id,returned_say hdir _ (by decide)⟩
  | _ => exact .inr ⟨id,returned_say hdir _ (by decide)⟩

theorem commandEffect_root (env : Environment) (k : KernelState)
    (contents : NodePtr → List Uint8) {v : View} (hdir : v.dir = ['/']) (argv : List CString) :
    (Asks argv ∧ commandEffect env k (fun _ => none) contents v argv = none) ∨
      ¬ Asks argv ∧ Returned (argv.head? = some Handler.exit.name)
        (commandEffect env k (fun _ => none) contents v argv) := by
  cases argv with
  | nil =>
    refine .inr ⟨?_,_,_,rfl,hdir,by decide⟩
    rintro ⟨_,_,h,-⟩
    cases h
  | cons name args =>
    rw [commandEffect,List.head?_cons,Option.some.injEq]
    cases hfind : findCommand name with
    | none =>
      have hother : ∀ handler : Handler, name ≠ handler.name := by
        rintro handler rfl
        obtain ⟨command,hcommand,-⟩ := findCommand_name handler
        cases hfind.symm.trans hcommand
      refine .inr ⟨?_,returned_say hdir _ (iff_of_false (by decide) (hother .exit))⟩
      rintro ⟨handler,_,heq,-⟩
      exact hother handler (List.cons.inj heq).1
    | some command =>
      have hname := findCommand_handler hfind
      have hasks : Asks (name :: args) ↔ command.handler.Asks args := by
        constructor
        · rintro ⟨handler,args',heq,hasks⟩
          obtain ⟨rfl,rfl⟩ := List.cons.inj heq
          obtain ⟨command',hfound,rfl⟩ := findCommand_name handler
          cases hfind.symm.trans hfound
          exact hasks
        · intro hasks
          exact ⟨command.handler,args,by rw [hname],hasks⟩
      have hexit : command.handler = .exit ↔ name = Handler.exit.name := by
        constructor
        · intro h
          rw [hname,h]
        · rintro rfl
          obtain ⟨command',hfound,hhandler⟩ := findCommand_name .exit
          cases hfind.symm.trans hfound
          exact hhandler
      rw [hasks,← hexit]
      exact effect_root hdir command.handler args

end Asks

section Session

theorem reads_nil {words : List (Word Char)} {line : List Char} (h : Reads isQuote isBlank words line)
    (hline : line = []) : words = [] := by
  cases h with
  | nil => rfl
  | blank => cases hline
  | @word w words line hne _ _ _ =>
    obtain ⟨p,w,rfl⟩ := List.exists_cons_of_ne_nil hne
    rw [render_cons] at hline
    cases p <;> cases hline
  | opened => exact absurd hline (by simp)

theorem session_root (env : Environment) (k : KernelState) (contents : NodePtr → List Uint8) {v : View}
    (hdir : v.dir = ['/']) {typed : List Typed} (hfits : ∀ t ∈ typed, t.Fits) :
    ((v.session env k (fun _ => none) contents typed).isSome ↔
      ∀ t ∈ executed typed, ¬ Asks t.argv) ∧
    ∀ u left unread, v.session env k (fun _ => none) contents typed = some (u,left,unread) →
      u.dir = ['/'] := by
  induction typed generalizing v with
  | nil =>
    refine ⟨iff_of_true rfl fun t ht => absurd ht List.not_mem_nil,?_⟩
    rintro _ _ _ ⟨⟩
    exact hdir
  | cons t typed ih =>
    obtain ⟨ht,hfits⟩ := List.forall_mem_cons.mp hfits
    rw [View.session,View.turn,executed]
    by_cases hempty : lineText t.line = []
    · have hargv : t.argv = [] := by rw [Typed.argv,reads_nil ht.reads hempty,List.map_nil]
      have hquiet : ¬ Asks t.argv := by
        rw [hargv]
        rintro ⟨_,_,h,-⟩
        cases h
      rw [if_pos hempty,hargv,List.head?_nil,if_neg (by simp),List.forall_mem_cons,
        and_iff_right hquiet]
      exact ih (v := { v with written := v.written ++ promptText v.dir }) hdir hfits
    · rw [if_neg hempty]
      obtain ⟨hasks,hnone⟩ | ⟨hquiet,u,status,heffect,hu,hexit⟩ :=
        commandEffect_root env k contents
          (v := { v with written := v.written ++ promptText v.dir, last_command := lineText t.line })
          hdir t.argv
      · rw [hnone]
        refine ⟨iff_of_false Bool.false_ne_true fun hall => ?_,by rintro _ _ _ ⟨⟩⟩
        split at hall
        · exact hall t List.mem_cons_self hasks
        · exact hall t List.mem_cons_self hasks
      · rw [heffect]
        by_cases hleft : status = .exit
        · rw [if_pos (hexit.mp hleft),List.forall_mem_singleton]
          simp only [Option.bind_eq_bind,Option.bind_some,if_pos hleft]
          refine ⟨iff_of_true rfl hquiet,?_⟩
          rintro _ _ _ ⟨⟩
          exact hu
        · rw [if_neg (mt hexit.mpr hleft),List.forall_mem_cons,and_iff_right hquiet]
          simp only [Option.bind_eq_bind,Option.bind_some,if_neg hleft]
          exact ih (v := { u with exit_code := status.code }) hu hfits

end Session

section Kernel

variable (drivers : Hooks) {k : KernelState}

theorem kernel_serves (hwired : Wired k) {root : NodePtr} (hroot : k.fs_root = some root)
    (contents : NodePtr → List Uint8) (depth : ℕ) :
    Serves (kernelHooks drivers depth) k (fun _ => none) contents := by
  obtain ⟨d,hd,htype⟩ := hwired.root root hroot
  refine ⟨fun t name ht => ?_,fun _ _ hfound => ?_,fun _ _ _ _ hfound => ?_,
    fun _ _ _ _ _ hfound => ?_,fun _ _ _ _ hfound => ?_⟩
  · rw [ht.fs_root,hroot]
    exact fsFinddir_never drivers (ht.nodes ▸ hd) (hwired.installed root d hd) htype name depth
  all_goals cases hfound

end Kernel

-- the functions of fs.c answer no lookup, so the shell stops at the first command that asks for one
theorem shell_stops_at_lookup (alloc : Allocator) (drivers : Hooks) (env : Environment)
    (k : KernelState) (hbuilt : Built alloc k) (htree : Tree k) (root : NodePtr)
    (hroot : k.fs_root = some root) (l : List ProcessPtr)
    (hl : Chain Process.next env.processes env.process_list l) (current_dir last_command : List Char)
    (hdir : current_dir.length = 256) (hlast : last_command.length = 256)
    (console : Console maxCommandLength.toNat) (hon : OnScreen console.terminal)
    (typed : List Typed) (hfits : ∀ t ∈ typed, t.Fits) (rest : List Uint8)
    (hkeys : console.keys = stream (typed.map Typed.line) ++ rest) (frames : List Frame)
    (hcount : frames.length = typed.length) (hframes : ∀ frame ∈ frames, frame.cmd_copy.length = 256) :
    ∃ s, shellStart k current_dir last_command console = some s ∧
      (Returns drivers (fun hooks => shellRun hooks env s frames) ↔
        ∀ t ∈ executed typed, ¬ Asks t.argv) ∧
      ∀ depth t left, shellRun (kernelHooks drivers depth) env s frames =
        some (t,left) → content nul t.shell.current_dir 0 = ['/'] := by
  obtain ⟨s,hstart,hs,hconsole⟩ := shellStart_shows k hdir hlast hon
  have hserves := kernel_serves drivers (wired_of_built alloc hbuilt) hroot fun _ => []
  -- what the views do does not depend on how deep the calls of the hooks are nested
  have hagrees : ∀ depth, RunAgrees k rest
      (shellRun (kernelHooks drivers depth) env s frames)
      (View.start.session env k (fun _ => none) (fun _ => []) typed) := fun depth =>
    shellRun_agrees htree (hserves depth) hl
      hfits hcount hframes hs (hconsole ▸ hkeys)
  obtain ⟨hiff,hend⟩ := session_root env k (fun _ => []) (v := View.start) rfl hfits
  refine ⟨s,hstart,?_⟩
  rw [← hiff]
  cases hsession : View.start.session env k (fun _ => none) (fun _ => []) typed with
  | none =>
    have hcalls : ∀ depth, shellRun (kernelHooks drivers depth) env s frames = none :=
      fun depth => by
        have hcall := hagrees depth
        rwa [hsession] at hcall
    refine ⟨iff_of_false (not_returns drivers hcalls) Bool.false_ne_true,fun depth t left hcall => ?_⟩
    cases (hcalls depth).symm.trans hcall
  | some result =>
    obtain ⟨u,left,unread⟩ := result
    have hcalls : ∀ depth, ∃ t,
        shellRun (kernelHooks drivers depth) env s frames = some (t,left) ∧
          ShowsAll k t u := fun depth => by
      have hcall := hagrees depth
      rw [hsession] at hcall
      obtain ⟨t,hcall,ht,-⟩ := hcall
      exact ⟨t,hcall,ht⟩
    obtain ⟨t,hzero,-⟩ := hcalls 0
    refine ⟨iff_of_true (returns_of drivers hzero) rfl,fun depth t left hcall => ?_⟩
    obtain ⟨t',hcall',ht⟩ := hcalls depth
    cases hcall'.symm.trans hcall
    rw [ht.shell.dir.cut.content]
    exact hend u _ unread hsession

-- the kernel that fs_init leaves
def emptyRoot : KernelState := fsInit constantAllocator .boot

theorem shell_stops_at_lookup_cat : ∃ s,
    shellStart emptyRoot (List.replicate 256 nul) (List.replicate 256 nul)
      (blankConsole (stream (catThenExit.map Typed.line))) = some s ∧
    (Returns noDrivers (fun hooks => shellRun hooks idleSystem s [blankFrame,blankFrame]) ↔
      ∀ t ∈ executed catThenExit, ¬ Asks t.argv) ∧
    ∀ depth t left, shellRun (kernelHooks noDrivers depth) idleSystem s [blankFrame,blankFrame] =
      some (t,left) → content nul t.shell.current_dir 0 = ['/'] :=
  shell_stops_at_lookup constantAllocator noDrivers idleSystem emptyRoot (.init .boot rfl)
    (tree_of_checks (by decide)) 0 (by decide) [] .nil _ _ List.length_replicate
    List.length_replicate _ ⟨by decide,by decide⟩ catThenExit catThenExit_fits []
    (List.append_nil _).symm [blankFrame,blankFrame] rfl
    (List.forall_mem_cons.mpr
      ⟨List.length_replicate,List.forall_mem_singleton.mpr List.length_replicate⟩)

end KluxOS.Shell
