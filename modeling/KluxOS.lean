import KluxOS.Lib.CyclicColumn
import KluxOS.Lib.Gf256
import KluxOS.Lib.LinkedList
import KluxOS.Lib.PathWalk
import KluxOS.Lib.Run
import KluxOS.Security.AesCbc
import KluxOS.Security.AesRoundTrip
import KluxOS.Memory.FrameAlloc
import KluxOS.Memory.FrameFree
import KluxOS.Memory.Heap
import KluxOS.Memory.HeapBlocks
import KluxOS.Memory.FrameSet
import KluxOS.Fs.Dispatch
import KluxOS.Syscall.OpenFailure
import KluxOS.Fs.Tree
import KluxOS.Fs.Graph
import KluxOS.Fs.Growth
import KluxOS.Syscall.Create
import KluxOS.Lib.ByteSequence
import KluxOS.Syscall.FileCalls
import KluxOS.Syscall.FileContents
import KluxOS.Process.Process
import KluxOS.Process.ProcessList
import KluxOS.Process.History
import KluxOS.Process.RoundRobin
import KluxOS.Process.SchedulerSafety
import KluxOS.Process.RunningProcess
import KluxOS.Security.Acl
import KluxOS.Lib.ByteOrder
import KluxOS.Net.Network
import KluxOS.Net.Receive
import KluxOS.Fs.ChildTree
import KluxOS.Fs.TreeInvariant
import KluxOS.Lib.Newest
import KluxOS.Lib.Numeral
import KluxOS.Security.Audit
import KluxOS.Lib.Terminated
import KluxOS.Shell.ParseArgs
import KluxOS.Lib.QuotedWords
import KluxOS.Shell.Tokens
import KluxOS.Shell.Words
import KluxOS.Shell.ArgvBounds
import KluxOS.Drivers.Terminal
import KluxOS.Drivers.TerminalBounds
import KluxOS.Drivers.TerminalText
import KluxOS.Drivers.TerminalScroll
import KluxOS.Drivers.ReadLine
import KluxOS.Drivers.TextMode
import KluxOS.Drivers.Keyboard
import KluxOS.Drivers.KeyboardQueue
import KluxOS.Drivers.ShiftKeys
import KluxOS.Syscall.DescriptorTable
import KluxOS.Syscall.ReadBounds
import KluxOS.Syscall.AccessMode
import KluxOS.Syscall.AppendWrites
import KluxOS.Syscall.CreatedFile
import KluxOS.Memory.PageDescriptors
import KluxOS.Memory.Mapping
import KluxOS.Memory.FreeRam
import KluxOS.Interrupt.Pic
import KluxOS.Lib.StackWords
import KluxOS.Interrupt.Idt
import KluxOS.Interrupt.Entry
import KluxOS.Security.AuditTrace
import KluxOS.Security.SecuritySettings
import KluxOS.Security.Encryption
import KluxOS.Security.SecurityLevel
import KluxOS.Kernel.Allocators
import KluxOS.Lib.BufferMap
import KluxOS.Lib.SwapRemove
import KluxOS.Security.Crypto
import KluxOS.Lib.XorVector
import KluxOS.Security.Hash
import KluxOS.Security.KeyRegistry
import KluxOS.Drivers.Wifi
import KluxOS.Drivers.WifiConnection
import KluxOS.Process.Pids
import KluxOS.Lib.TickCounter
import KluxOS.Timer.Pit
import KluxOS.Timer.Sleep
import KluxOS.Security.CbcInPlace
import KluxOS.Fs.ComponentWalk
import KluxOS.Fs.LinkChains
import KluxOS.Fs.ParentDir
import KluxOS.Fs.AddRemove
import KluxOS.Syscall.WriteBounds
import KluxOS.Syscall.StandardInput
import KluxOS.Security.AclEntries
import KluxOS.Security.AclRemove
import KluxOS.Security.AclFrame
import KluxOS.Drivers.PrintNumbers
import KluxOS.Lib.Reversal
import KluxOS.Security.SecurityLog
import KluxOS.Shell.ChangeDir
import KluxOS.Interrupt.Delivery
import KluxOS.Shell.Lookups
import KluxOS.Drivers.WifiSystem
import KluxOS.Net.NetworkSystem
import KluxOS.Fs.NodePaths
import KluxOS.Drivers.Typing
import KluxOS.Memory.HeapContents
import KluxOS.Security.AuditView
import KluxOS.Security.CbcMessages
import KluxOS.Security.HashCollisions
import KluxOS.Security.KeyBytes
import KluxOS.Timer.Uptime
import KluxOS.Syscall.SystemCalls
