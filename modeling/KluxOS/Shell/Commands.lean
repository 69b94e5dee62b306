import KluxOS.Drivers.PrintNumbers
import KluxOS.Drivers.Printf
import KluxOS.Process.Process
import KluxOS.Shell.ChangeDir

namespace KluxOS.Shell

open Fs LinkedList Processes Terminated

section Table

-- the functions that the table of commands names
inductive Handler where
  | help
  | clear
  | echo
  | exit
  | version
  | ls
  | cd
  | cat
  | ps
  | uptime
  | meminfo
deriving DecidableEq

structure ShellCommand where
  name : CString
  description : CString
  handler : Handler
  usage : CString

def commands : List ShellCommand :=
  [⟨['h','e','l','p'],"Show help information about commands".toList,.help,
      "help [command]".toList⟩,
    ⟨['c','l','e','a','r'],"Clear the screen".toList,.clear,"clear".toList⟩,
    ⟨['e','c','h','o'],"Print text to the screen".toList,.echo,"echo [text...]".toList⟩,
    ⟨['e','x','i','t'],"Exit the shell".toList,.exit,"exit".toList⟩,
    ⟨['v','e','r','s','i','o','n'],"Show system version information".toList,.version,
      "version".toList⟩,
    ⟨['l','s'],"List directory contents".toList,.ls,"ls [directory]".toList⟩,
    ⟨['c','d'],"Change directory".toList,.cd,"cd [directory]".toList⟩,
    ⟨['c','a','t'],"Show file contents".toList,.cat,"cat file".toList⟩,
    ⟨['p','s'],"List running processes".toList,.ps,"ps".toList⟩,
    ⟨['u','p','t','i','m','e'],"Show system uptime".toList,.uptime,"uptime".toList⟩,
    ⟨['m','e','m','i','n','f','o'],"Show memory information".toList,.meminfo,"meminfo".toList⟩]

def findCommand (name : CString) : Option ShellCommand :=
  commands.find? fun command => decide (name = command.name)

def shellVersion : CString := "0.1.0".toList

-- what memory_info reads of the physical memory manager and of the kernel heap
structure MemoryInfo where
  total_memory : Uint32
  usable_memory : Uint32
  free_memory : Uint32
  used_memory : Uint32
  reserved_memory : Uint32
  heap_used : Uint32

def MemoryInfo.text (m : MemoryInfo) : CString :=
  "\nBellek Bilgileri:\n----------------\nToplam Bellek: ".toList ++ intText m.total_memory ++
    " KB\nKullanilabilir Bellek: ".toList ++ intText m.usable_memory ++
    " KB\nBos Bellek: ".toList ++ intText m.free_memory ++
    " KB\nKullanilan Bellek: ".toList ++ intText m.used_memory ++
    " KB\nAyrilmis Bellek: ".toList ++ intText m.reserved_memory ++
    " KB\nCekirdek Yigin Durumu: ".toList ++ intText m.heap_used ++ " / ".toList ++
    intText 0x100000#32 ++ " byte kullaniliyor\n\n".toList

-- what the commands read besides the file system
structure Environment where
  processes : List Process
  process_list : Option ProcessPtr
  memory : MemoryInfo

end Table

section Handlers

variable (hooks : Hooks) (env : Environment) (argv : List CString) (s : ShellState)

def ShellState.say (s : ShellState) (text : CString) (status : ShellStatus) :
    Option (ShellState × ShellStatus) := some ({ s with kernel := s.kernel.print text },status)

-- the text of a buffer; none reads past a buffer without a terminator
def bufferText (buffer : List Char) : Option CString :=
  if nul ∈ buffer then some (content nul buffer 0) else none

def shellHelp : CString :=
  "Available commands:\n\n".toList ++ (commands.flatMap fun command =>
    [' ',' '] ++ command.name ++ List.replicate (12 - command.name.length) ' ' ++
      command.description ++ ['\n']) ++ ['\n']

def notFoundText (name : CString) : CString := "Command not found: ".toList ++ name ++ ['\n']

def commandHelp (command : ShellCommand) : CString :=
  "Command: ".toList ++ command.name ++ "\nDescription: ".toList ++ command.description ++
    "\nUsage: ".toList ++ command.usage ++ ['\n']

def cmdHelp : Option (ShellState × ShellStatus) :=
  match argv[1]? with
  | none => s.say shellHelp .ok
  | some name =>
    match findCommand name with
    | some command => s.say (commandHelp command) .ok
    | none => s.say (notFoundText name) .errorCommandNotFound

-- the kernel's terminal is what has been written since the screen was cleared
def cmdClear : Option (ShellState × ShellStatus) :=
  some ({ s with kernel := { s.kernel with terminal := [] } },.ok)

def echoText : List CString → CString
  | [] => ['\n']
  | [arg] => arg ++ ['\n']
  | arg :: args => arg ++ [' '] ++ echoText args

def cmdEcho : Option (ShellState × ShellStatus) := s.say (echoText argv.tail) .ok

def cmdExit : Option (ShellState × ShellStatus) := s.say "Shell'den cikiliyor...\n".toList .exit

def cmdVersion : Option (ShellState × ShellStatus) :=
  s.say ("KluxOS Terminal - Version ".toList ++ shellVersion ++ ['\n']) .ok

def lsEntry (child : FsNode) (count : ℕ) : CString :=
  child.name ++ (if child.type = .directory then ['/'] else []) ++
    if count % 5 = 0 then ['\n'] else ['\t']

-- count and the text written so far
def lsStep (listed : ℕ × CString) (child : FsNode) : ℕ × CString :=
  (listed.1 + 1,listed.2 ++ lsEntry child (listed.1 + 1))

-- the node that ls lists
def lsNode (path : CString) : Option (Option NodePtr) :=
  if path = ['/'] then some s.kernel.fs_root
  else fsFinddir hooks s.kernel s.kernel.fs_root path

def cmdLs : Option (ShellState × ShellStatus) := do
  let path ← argv[1]?.elim (bufferText s.current_dir) some
  match ← lsNode hooks s path with
  | none => s.refuse "Dizin bulunamadi: ".toList path
  | some node => do
    let n ← s.kernel.nodes[node]?
    if n.type ≠ .directory then s.refuse "Dizin degil: ".toList path
    else do
      let (count,text) ← foldChain FsNode.next s.kernel.nodes lsStep s.kernel.nodes.length n.children
        (0,[])
      s.say (text ++ (if count % 5 ≠ 0 then ['\n'] else []) ++ "\nToplam: ".toList ++
        intText (BitVec.ofNat 32 count) ++ " oge\n".toList) .ok

-- none reads bytes of buffer that fs_read has not written
def catText (bytes_read : Uint32) (data : List Uint8) : Option CString :=
  if bytes_read.toNat ≤ data.length then
    let text := (data.take bytes_read.toNat).map charOf
    some (text ++ if text ≠ [] ∧ text.getLast? ≠ some '\n' then ['\n'] else [])
  else none

def cmdCat : Option (ShellState × ShellStatus) :=
  match argv[1]? with
  | none => s.say "Kullanim: cat <dosya>\n".toList .errorInvalidArguments
  | some filename => do
    match ← fsFinddir hooks s.kernel s.kernel.fs_root filename with
    | none => s.refuse "Dosya bulunamadi: ".toList filename
    | some node =>
      let n ← s.kernel.nodes[node]?
      if n.type ≠ .file then s.refuse "Dosya degil: ".toList filename
      else do
        let kernel ← fsOpen hooks s.kernel (some node)
        let n ← kernel.nodes[node]?
        let (kernel,bytes_read,data) ← fsRead hooks kernel (some node) 0#32
          (if n.length > 1024#32 then 1024#32 else n.length)
        let text ← catText bytes_read data
        let kernel ← fsClose hooks (kernel.print text) (some node)
        some ({ s with kernel := kernel },.ok)

def psRow : CString := terminalPrintf "  %3d  | %8s | %s\n".toList

def cmdPs : Option (ShellState × ShellStatus) := do
  let (count,text) ← foldChain Process.next env.processes
    (fun (listed : ℕ × CString) _ => (listed.1 + 1,listed.2 ++ psRow)) env.processes.length
    env.process_list (0,[])
  s.say ("  PID  |  DURUM  |  AD\n-------|---------|----------------\n".toList ++ text ++
    if count = 0 then "Aktif islem bulunamadi.\n".toList else []) .ok

-- terminal_printf leaves the days, hours and minutes out
def cmdUptime : Option (ShellState × ShellStatus) :=
  s.say ("System uptime: ".toList ++ terminalPrintf "%u days, %u hours, %u minutes\n".toList) .ok

def cmdMeminfo : Option (ShellState × ShellStatus) := s.say env.memory.text .ok

def Handler.call : Handler → Option (ShellState × ShellStatus)
  | .help => cmdHelp argv s
  | .clear => cmdClear s
  | .echo => cmdEcho argv s
  | .exit => cmdExit s
  | .version => cmdVersion s
  | .ls => cmdLs hooks argv s
  | .cd => cmdCd hooks argv s
  | .cat => cmdCat hooks argv s
  | .ps => cmdPs env s
  | .uptime => cmdUptime s
  | .meminfo => cmdMeminfo env s

end Handlers

section Execute

-- what the stack holds where shell_execute_command has cmd_copy and argv
structure Frame where
  cmd_copy : List Char
  argv : ℕ → Option ℕ

variable (hooks : Hooks) (env : Environment)

-- the first of the arguments; none follows a pointer that was never written
def arguments (buffer : List Char) (argv : ℕ → Option ℕ) : ℕ → Option (List CString)
  | 0 => some []
  | argc + 1 => do
    let args ← arguments buffer argv argc
    let p ← argv argc
    some (args ++ [content nul buffer p])

def runCommand (argv : List CString) (s : ShellState) : Option (ShellState × ShellStatus) :=
  match argv with
  | [] => some (s,.ok)
  | name :: _ =>
    match findCommand name with
    | some command => command.handler.call hooks env argv s
    | none => s.say (notFoundText name) .errorCommandNotFound

-- none writes argv[64], past the end of the array
def shellExecuteCommand (frame : Frame) (command_line : List Char) (s : ShellState) :
    Option (ShellState × ShellStatus) := do
  let (argc,buffer,argv) ← commandArgs command_line frame.cmd_copy frame.argv
  if argc < 64 then do
    let args ← arguments buffer argv argc.toNat
    runCommand hooks env args s
  else none

end Execute

end KluxOS.Shell
