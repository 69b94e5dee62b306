import KluxOS.Shell.Commands

namespace KluxOS.Shell

open Fs LinkedList Processes Terminated

-- what a user sees of the shell, over the files as they stand
structure View where
  written : CString
  dir : CString
  last_command : CString
  exit_code : ℤ

section View

namespace View

variable (v : View)

def say (text : CString) (status : ShellStatus) : Option (View × ShellStatus) :=
  some ({ v with written := v.written ++ text },status)

def refuse (text path : CString) : Option (View × ShellStatus) :=
  v.say (text ++ path ++ ['\n']) .errorInvalidArguments

def enter (dir : CString) : Option (View × ShellStatus) := some ({ v with dir := dir },.ok)

end View

def entryName (n : FsNode) : CString := n.name ++ if n.type = .directory then ['/'] else []

-- five names a row
def rows : List CString → CString
  | [] => []
  | a :: b :: c :: d :: e :: names =>
    a ++ ['\t'] ++ (b ++ ['\t']) ++ (c ++ ['\t']) ++ (d ++ ['\t']) ++ (e ++ ['\n']) ++ rows names
  | names => names.flatMap (· ++ ['\t']) ++ ['\n']

def entries (k : KernelState) (d : FsNode) : List FsNode :=
  (listing FsNode.next k.nodes k.nodes.length d.children).filterMap (k.nodes[·]?)

def lsText (children : List FsNode) : CString :=
  rows (children.map entryName) ++ "\nToplam: ".toList ++
    intText (BitVec.ofNat 32 children.length) ++ " oge\n".toList

def psText (count : ℕ) : CString :=
  "  PID  |  DURUM  |  AD\n-------|---------|----------------\n".toList ++
    (List.replicate count psRow).flatten ++
    if count = 0 then "Aktif islem bulunamadi.\n".toList else []

def endsLine (text : CString) : CString :=
  text ++ if text ≠ [] ∧ text.getLast? ≠ some '\n' then ['\n'] else []

def View.list (k : KernelState) (v : View) (path : CString) :
    Option FsNode → Option (View × ShellStatus)
  | none => v.refuse "Dizin bulunamadi: ".toList path
  | some d =>
    if d.type = .directory then v.say (lsText (entries k d)) .ok
    else v.refuse "Dizin degil: ".toList path

-- find is what fs_finddir answers in the root directory, contents what fs_read gets of a file
variable (env : Environment) (k : KernelState) (find : CString → Option (Option NodePtr))
  (contents : NodePtr → List Uint8)

def listed (path : CString) : Option (Option NodePtr) :=
  if path = ['/'] then some k.fs_root else find path

def Handler.effect (v : View) : Handler → List CString → Option (View × ShellStatus)
  | .help,[] => v.say shellHelp .ok
  | .help,name :: _ =>
    match findCommand name with
    | some command => v.say (commandHelp command) .ok
    | none => v.say (notFoundText name) .errorCommandNotFound
  | .clear,_ => some ({ v with written := [] },.ok)
  | .echo,args => v.say ([' '].intercalate args ++ ['\n']) .ok
  | .exit,_ => v.say "Shell'den cikiliyor...\n".toList .exit
  | .version,_ => v.say ("KluxOS Terminal - Version ".toList ++ shellVersion ++ ['\n']) .ok
  | .ls,args => do
    let path := args.head?.getD v.dir
    let node ← listed k find path
    v.list k path (node.bind (k.nodes[·]?))
  | .cd,[] => v.enter ['/']
  | .cd,name :: _ =>
    if name = ['/'] then v.enter ['/']
    else if name = ['.','.'] then v.enter (parentText v.dir)
    else do
      let node ← find name
      match node.bind (k.nodes[·]?) with
      | none => v.refuse "Dizin bulunamadi: ".toList name
      | some d =>
        if d.type = .directory then v.enter (name.take 255)
        else v.refuse "Dizin degil: ".toList name
  | .cat,[] => v.say "Kullanim: cat <dosya>\n".toList .errorInvalidArguments
  | .cat,name :: _ => do
    let node ← find name
    match node.bind fun p => (k.nodes[p]?).map (p,·) with
    | none => v.refuse "Dosya bulunamadi: ".toList name
    | some (p,n) =>
      if n.type = .file then
        v.say (endsLine (((contents p).take (min n.length.toNat 1024)).map charOf)) .ok
      else v.refuse "Dosya degil: ".toList name
  | .ps,_ =>
    v.say (psText (listing Process.next env.processes env.processes.length
      env.process_list).length) .ok
  | .uptime,_ => v.say "System uptime: (uint) days, (uint) hours, (uint) minutes\n".toList .ok
  | .meminfo,_ => v.say env.memory.text .ok

def commandEffect (v : View) : List CString → Option (View × ShellStatus)
  | [] => some (v,.ok)
  | name :: args =>
    match findCommand name with
    | some command => command.handler.effect env k find contents v args
    | none => v.say (notFoundText name) .errorCommandNotFound

end View

section Refinement

structure SameNodes (k t : KernelState) : Prop where
  nodes : t.nodes = k.nodes
  fs_root : t.fs_root = k.fs_root

-- drivers that only read: they leave the nodes alone and write nothing on the terminal
structure Quiet (k t u : KernelState) : Prop where
  same : SameNodes k u
  terminal : u.terminal = t.terminal

structure Serves (hooks : Hooks) (k : KernelState) (find : CString → Option (Option NodePtr))
    (contents : NodePtr → List Uint8) : Prop where
  finddir : ∀ t name, SameNodes k t → fsFinddir hooks t t.fs_root name = find name
  found : ∀ name node, find name = some (some node) → node < k.nodes.length
  open_ : ∀ t name node, SameNodes k t → find name = some (some node) →
    ∃ u, fsOpen hooks t (some node) = some u ∧ Quiet k t u
  read : ∀ t name node count, SameNodes k t → find name = some (some node) →
    ∃ u bytes_read data, fsRead hooks t (some node) 0#32 count = some (u,bytes_read,data) ∧
      bytes_read.toNat ≤ data.length ∧
      data.take bytes_read.toNat = (contents node).take count.toNat ∧ Quiet k t u
  close : ∀ t name node, SameNodes k t → find name = some (some node) →
    ∃ u, fsClose hooks t (some node) = some u ∧ Quiet k t u

structure Shows (k : KernelState) (s : ShellState) (v : View) : Prop where
  same : SameNodes k s.kernel
  terminal : s.kernel.terminal = v.written
  dir : Holds s.current_dir v.dir

-- both do not return, or both return what the other shows
def Agrees (k : KernelState) (call : Option (ShellState × ShellStatus)) :
    Option (View × ShellStatus) → Prop
  | none => call = none
  | some (v,status) => ∃ s, call = some (s,status) ∧ Shows k s v

variable {hooks : Hooks} {env : Environment} {k : KernelState}
  {find : CString → Option (Option NodePtr)} {contents : NodePtr → List Uint8} {s : ShellState} {v : View}

theorem SameNodes.print {t : KernelState} (h : SameNodes k t) (text : CString) :
    SameNodes k (t.print text) := ⟨h.nodes,h.fs_root⟩

theorem Shows.say (h : Shows k s v) (text : CString) (status : ShellStatus) :
    Agrees k (s.say text status) (v.say text status) :=
  ⟨_,rfl,h.same.print text,congrArg (· ++ text) h.terminal,h.dir⟩

theorem Shows.refuse (h : Shows k s v) (text path : CString) :
    Agrees k (s.refuse text path) (v.refuse text path) := by
  refine ⟨_,rfl,((h.same.print text).print path).print ['\n'],?_,h.dir⟩
  rw [KernelState.print_print,KernelState.print_print,← List.append_assoc]
  exact congrArg (· ++ (text ++ path ++ ['\n'])) h.terminal

theorem Shows.enter (h : Shows k s v) {buffer : Option (List Char)} {dir : CString}
    (hdir : ∃ b, buffer = some b ∧ Holds b dir) : Agrees k (s.enter buffer) (v.enter dir) := by
  obtain ⟨b,rfl,hb⟩ := hdir
  exact ⟨_,rfl,h.same,h.terminal,hb⟩

end Refinement

section Texts

theorem echoText_eq (args : List CString) : echoText args = [' '].intercalate args ++ ['\n'] := by
  induction args with
  | nil => rfl
  | cons arg args ih =>
    cases args with
    | nil => simp [echoText]
    | cons next args =>
      rw [List.intercalate_cons_cons,List.append_assoc,← ih]
      rfl

theorem bufferText_eq {buffer dir : List Char} (h : Holds buffer dir) :
    bufferText buffer = some dir := by
  obtain ⟨rest,hrest⟩ := h.cut.stops
  have hmem : nul ∈ buffer := by
    rw [List.drop_zero] at hrest
    rw [hrest]
    exact List.mem_append_right _ List.mem_cons_self
  rw [bufferText,if_pos hmem,h.cut.content]

def rowsFrom (listed : ℕ × CString) : CString :=
  listed.2 ++ if listed.1 % 5 ≠ 0 then ['\n'] else []

theorem lsStep_count (children : List FsNode) (listed : ℕ × CString) :
    (children.foldl lsStep listed).1 = listed.1 + children.length := by
  induction children generalizing listed with
  | nil => rfl
  | cons child children ih =>
    rw [List.foldl_cons,ih,List.length_cons,lsStep]
    omega

theorem lsStep_row {children : List FsNode} {listed : ℕ × CString}
    (h : listed.1 % 5 + children.length < 5) : children.foldl lsStep listed =
      (listed.1 + children.length,
        listed.2 ++ (children.map entryName).flatMap (· ++ ['\t'])) := by
  induction children generalizing listed with
  | nil => simp
  | cons child children ih =>
    rw [List.length_cons] at h
    have hnext : (lsStep listed child).1 % 5 + children.length < 5 := by
      rw [lsStep]
      omega
    have hsame : ¬ (listed.1 + 1) % 5 = 0 := by omega
    rw [List.foldl_cons,ih hnext,List.length_cons,List.map_cons,List.flatMap_cons,
      ← List.append_assoc,Nat.add_comm children.length,← Nat.add_assoc]
    simp only [lsStep,lsEntry,if_neg hsame,entryName]

theorem rows_short {names : List CString} (hne : names ≠ []) (hlen : names.length < 5) :
    rows names = names.flatMap (· ++ ['\t']) ++ ['\n'] := by
  match names with
  | [] => exact absurd rfl hne
  | [a] => rfl
  | [a,b] => rfl
  | [a,b,c] => rfl
  | [a,b,c,d] => rfl
  | a :: b :: c :: d :: e :: names =>
    simp only [List.length_cons] at hlen
    omega

theorem rowsFrom_short {children : List FsNode} {count : ℕ} {text : CString} (hcount : count % 5 = 0)
    (hlen : children.length < 5) :
    rowsFrom (children.foldl lsStep (count,text)) = text ++ rows (children.map entryName) := by
  rw [lsStep_row (by dsimp only; omega),rowsFrom]
  by_cases hne : children = []
  · subst hne
    simp [hcount,rows]
  · have hpos := List.length_pos_of_ne_nil hne
    rw [rows_short (by simpa using hne) (by simpa using hlen),if_pos (by dsimp only; omega),
      List.append_assoc]

-- the loop breaks the line after each fifth child, and after the last one
theorem rowsFrom_eq : ∀ (children : List FsNode) (count : ℕ) (text : CString), count % 5 = 0 →
    rowsFrom (children.foldl lsStep (count,text)) = text ++ rows (children.map entryName)
  | [],_,_,h => rowsFrom_short h (Nat.zero_lt_succ 4)
  | [_],_,_,h => rowsFrom_short h (by simp)
  | [_,_],_,_,h => rowsFrom_short h (by simp)
  | [_,_,_],_,_,h => rowsFrom_short h (by simp)
  | [_,_,_,_],_,_,h => rowsFrom_short h (by simp)
  | a :: b :: c :: d :: e :: children,count,text,h => by
    have hrow : [a,b,c,d].foldl lsStep (count,text) = _ := lsStep_row (by simp [h])
    have hfirst : (a :: b :: c :: d :: e :: children).foldl lsStep (count,text) =
        children.foldl lsStep (lsStep ([a,b,c,d].foldl lsStep (count,text)) e) := rfl
    have hlast : (count + 4 + 1) % 5 = 0 := by omega
    rw [hfirst,hrow,lsStep,List.length_cons,List.length_cons,List.length_cons,List.length_singleton,
      rowsFrom_eq children _ _ hlast,lsEntry,if_pos hlast]
    simp [rows,entryName]

end Texts

section Commands

variable {hooks : Hooks} {env : Environment} {k : KernelState}
  {find : CString → Option (Option NodePtr)} {contents : NodePtr → List Uint8} {s : ShellState} {v : View}

theorem Agrees.bind {α : Type} {o : Option α} {f : α → Option (ShellState × ShellStatus)}
    {g : α → Option (View × ShellStatus)} (h : ∀ a, o = some a → Agrees k (f a) (g a)) :
    Agrees k (o.bind f) (o.bind g) := by
  cases o with
  | none => rfl
  | some a => exact h a rfl

theorem cmdHelp_agrees (h : Shows k s v) (name : CString) (args : List CString) :
    Agrees k (cmdHelp (name :: args) s) (Handler.effect env k find contents v .help args) := by
  cases args with
  | nil => exact h.say shellHelp .ok
  | cons topic args =>
    simp only [cmdHelp,Handler.effect,List.getElem?_cons_succ,List.getElem?_cons_zero]
    cases findCommand topic with
    | none => exact h.say (notFoundText topic) .errorCommandNotFound
    | some command => exact h.say (commandHelp command) .ok

theorem cmdPs_agrees {l : List ProcessPtr} (h : Shows k s v)
    (hl : Chain Process.next env.processes env.process_list l) :
    Agrees k (cmdPs env s) (v.say (psText (listing Process.next env.processes env.processes.length
      env.process_list).length) .ok) := by
  have hcount : ∀ (processes : List Process) (listed : ℕ × CString),
      processes.foldl (fun (listed : ℕ × CString) _ => (listed.1 + 1,listed.2 ++ psRow)) listed =
        (listed.1 + processes.length,
          listed.2 ++ (List.replicate processes.length psRow).flatten) := by
    intro processes
    induction processes with
    | nil => simp
    | cons process processes ih =>
      intro listed
      rw [List.foldl_cons,ih,List.length_cons,List.replicate_succ,List.flatten_cons,
        ← List.append_assoc,Nat.add_comm processes.length,← Nat.add_assoc]
  rw [cmdPs,hl.foldChain _ hl.length_le,hcount,hl.filterMap_length,
    hl.listing_eq hl.length_le]
  simp only [Nat.zero_add,List.nil_append,Option.bind_eq_bind,Option.bind_some]
  exact h.say (psText l.length) .ok

theorem cmdLs_agrees (htree : Tree k) (hserves : Serves hooks k find contents)
    (h : Shows k s v) (name : CString) (args : List CString) :
    Agrees k (cmdLs hooks (name :: args) s) (Handler.effect env k find contents v .ls args) := by
  have hpath : (name :: args)[1]?.elim (bufferText s.current_dir) some =
      some (args.head?.getD v.dir) := by
    cases args with
    | nil => exact bufferText_eq h.dir
    | cons path args => rfl
  have hnode : ∀ path, lsNode hooks s path = listed k find path := fun path => by
    rw [lsNode,listed,hserves.finddir _ _ h.same,h.same.fs_root]
  rw [cmdLs,hpath,Option.bind_eq_bind,Option.bind_some,hnode,h.same.nodes,Handler.effect]
  generalize args.head?.getD v.dir = path
  refine Agrees.bind fun node hfound => ?_
  cases node with
  | none => exact h.refuse "Dizin bulunamadi: ".toList path
  | some node =>
    have hlt : node < k.nodes.length := by
      rw [listed] at hfound
      split at hfound
      · exact htree.root node (Option.some.inj hfound)
      · exact hserves.found path node hfound
    have hd := List.getElem?_eq_getElem hlt
    simp only [hd,Option.bind_eq_bind,Option.bind_some,View.list]
    by_cases htype : k.nodes[node].type = .directory
    · rw [if_neg (not_not.mpr htype),if_pos htype]
      obtain ⟨l,hl⟩ := htree.chains node k.nodes[node] hd htype
      have hchildren : entries k k.nodes[node] = l.filterMap (k.nodes[·]?) := by
        rw [entries,hl.listing_eq hl.length_le]
      rw [hl.foldChain _ hl.length_le,hchildren]
      have hrows := rowsFrom_eq (l.filterMap (k.nodes[·]?)) 0 [] rfl
      have hcount := lsStep_count (l.filterMap (k.nodes[·]?)) (0,[])
      rw [Nat.zero_add] at hcount
      simp only [Option.bind_some]
      rw [rowsFrom,List.nil_append] at hrows
      rw [hrows,hcount]
      exact h.say _ .ok
    · rw [if_pos htype,if_neg htype]
      exact h.refuse "Dizin degil: ".toList path

theorem cmdCd_agrees (hserves : Serves hooks k find contents) (h : Shows k s v)
    (name : CString) {args : List CString} (hclean : ∀ arg ∈ args, nul ∉ arg) :
    Agrees k (cmdCd hooks (name :: args) s)
      (Handler.effect env k find contents v .cd args) := by
  have hroot := strCopy_root h.dir.length
  cases args with
  | nil => exact h.enter hroot
  | cons path args =>
    simp only [cmdCd,Handler.effect,List.getElem?_cons_succ,List.getElem?_cons_zero]
    split_ifs with hslash hdots
    · exact h.enter hroot
    · exact h.enter (cutParent_holds h.dir)
    · rw [hserves.finddir _ _ h.same]
      refine Agrees.bind fun node hfound => ?_
      cases node with
      | none => exact h.refuse "Dizin bulunamadi: ".toList path
      | some node =>
        obtain ⟨d,hd⟩ : ∃ d, k.nodes[node]? = some d :=
          ⟨_,List.getElem?_eq_getElem (hserves.found path node hfound)⟩
        simp only [h.same.nodes,hd,Option.bind_eq_bind,Option.bind_some]
        by_cases htype : d.type = .directory
        · rw [if_neg (not_not.mpr htype),if_pos htype]
          exact h.enter (strCopy_holds h.dir.length (hclean path List.mem_cons_self))
        · rw [if_pos htype,if_neg htype]
          exact h.refuse "Dizin degil: ".toList path

theorem catText_eq {bytes_read : Uint32} {data bytes : List Uint8}
    (hlen : bytes_read.toNat ≤ data.length) (hdata : data.take bytes_read.toNat = bytes) :
    catText bytes_read data = some (endsLine (bytes.map charOf)) := by
  rw [catText,if_pos hlen,hdata]
  rfl

theorem cmdCat_agrees (hserves : Serves hooks k find contents) (h : Shows k s v)
    (name : CString) (args : List CString) : Agrees k (cmdCat hooks (name :: args) s)
      (Handler.effect env k find contents v .cat args) := by
  cases args with
  | nil => exact h.say "Kullanim: cat <dosya>\n".toList .errorInvalidArguments
  | cons path args =>
    simp only [cmdCat,Handler.effect,List.getElem?_cons_succ,List.getElem?_cons_zero]
    rw [hserves.finddir _ _ h.same]
    refine Agrees.bind fun node hfound => ?_
    cases node with
    | none => exact h.refuse "Dosya bulunamadi: ".toList path
    | some node =>
      obtain ⟨n,hn⟩ : ∃ n, k.nodes[node]? = some n :=
        ⟨_,List.getElem?_eq_getElem (hserves.found path node hfound)⟩
      simp only [h.same.nodes,hn,Option.bind_eq_bind,Option.bind_some,Option.map_some]
      by_cases htype : n.type = .file
      · rw [if_neg (not_not.mpr htype),if_pos htype]
        obtain ⟨t,hopen,ht⟩ := hserves.open_ _ _ _ h.same hfound
        obtain ⟨u,bytes_read,data,hread,hlen,hdata,hu⟩ := hserves.read t path node
          (if n.length > 1024#32 then 1024#32 else n.length) ht.same hfound
        have hcount : (if n.length > 1024#32 then 1024#32
            else n.length).toNat = min n.length.toNat 1024 := by
          have hlimit : (1024#32).toNat = 1024 := rfl
          split
          · next hlong =>
            have hlt : (1024#32).toNat < n.length.toNat := hlong
            omega
          · next hshort =>
            have hle : ¬ (1024#32).toNat < n.length.toNat := hshort
            omega
        rw [hcount] at hdata
        obtain ⟨w,hclose,hw⟩ := hserves.close _ _ _ (hu.same.print
          (endsLine (((contents node).take (min n.length.toNat 1024)).map charOf))) hfound
        rw [hopen,Option.bind_some,ht.same.nodes,hn,Option.bind_some,hread,Option.bind_some]
        simp only [catText_eq hlen hdata,Option.bind_some,hclose]
        refine ⟨_,rfl,hw.same,?_,h.dir⟩
        exact hw.terminal.trans (congrArg (· ++ _)
          (hu.terminal.trans (ht.terminal.trans h.terminal)))
      · rw [if_pos htype,if_neg htype]
        exact h.refuse "Dosya degil: ".toList path

variable {l : List ProcessPtr} (htree : Tree k) (hserves : Serves hooks k find contents)
  (hl : Chain Process.next env.processes env.process_list l)

include htree hserves hl

theorem call_agrees (h : Shows k s v) (handler : Handler) (name : CString) {args : List CString}
    (hclean : ∀ arg ∈ args, nul ∉ arg) : Agrees k (handler.call hooks env (name :: args) s)
      (handler.effect env k find contents v args) := by
  cases handler with
  | help => exact cmdHelp_agrees h name args
  | clear => exact ⟨_,rfl,⟨h.same.nodes,h.same.fs_root⟩,rfl,h.dir⟩
  | echo =>
    rw [Handler.call,cmdEcho,List.tail_cons,echoText_eq]
    exact h.say _ .ok
  | exit => exact h.say _ .exit
  | version => exact h.say _ .ok
  | ls => exact cmdLs_agrees htree hserves h name args
  | cd => exact cmdCd_agrees hserves h name hclean
  | cat => exact cmdCat_agrees hserves h name args
  | ps => exact cmdPs_agrees h hl
  | uptime => exact h.say _ .ok
  | meminfo => exact h.say _ .ok

theorem runCommand_agrees (h : Shows k s v) {argv : List CString}
    (hclean : ∀ arg ∈ argv, nul ∉ arg) :
    Agrees k (runCommand hooks env argv s) (commandEffect env k find contents v argv) := by
  cases argv with
  | nil => exact ⟨s,rfl,h⟩
  | cons name args =>
    rw [runCommand,commandEffect]
    cases findCommand name with
    | none => exact h.say (notFoundText name) .errorCommandNotFound
    | some command =>
      exact call_agrees htree hserves hl h command.handler name
        fun arg harg => hclean arg (List.mem_cons_of_mem name harg)

end Commands

end KluxOS.Shell
