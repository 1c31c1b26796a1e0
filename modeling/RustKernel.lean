import RustKernel.Console.Addressing
import RustKernel.Console.Browsing
import RustKernel.Console.Font
import RustKernel.Console.Framebuffer
import RustKernel.Console.Screen
import RustKernel.Console.Scrollback
import RustKernel.Console.Typing
import RustKernel.Console.Vga
import RustKernel.Fs.Ata
import RustKernel.Fs.BitmapAllocation
import RustKernel.Fs.BlockAliasing
import RustKernel.Fs.BlockAllocation
import RustKernel.Fs.BlockMap
import RustKernel.Fs.Blocks
import RustKernel.Fs.Consistency
import RustKernel.Fs.Creating
import RustKernel.Fs.CreatingPaths
import RustKernel.Fs.Deleting
import RustKernel.Fs.Directory
import RustKernel.Fs.DirectoryBounds
import RustKernel.Fs.DirectoryCalls
import RustKernel.Fs.DirectoryRuns
import RustKernel.Fs.DiskBlocks
import RustKernel.Fs.Entries
import RustKernel.Fs.EntrySearch
import RustKernel.Fs.Ext3
import RustKernel.Fs.FailedWrites
import RustKernel.Fs.Files
import RustKernel.Fs.GroupConsistency
import RustKernel.Fs.GroupCreating
import RustKernel.Fs.GroupWriting
import RustKernel.Fs.Groups
import RustKernel.Fs.InodeArray
import RustKernel.Fs.InodeLocation
import RustKernel.Fs.InodeTable
import RustKernel.Fs.Mounting
import RustKernel.Fs.Ownership
import RustKernel.Fs.Paths
import RustKernel.Fs.RamFs
import RustKernel.Fs.Releasing
import RustKernel.Fs.RoundTrip
import RustKernel.Fs.Sharing
import RustKernel.Fs.SingleGroup
import RustKernel.Fs.Volume
import RustKernel.Fs.WriteRecursion
import RustKernel.Fs.Writing
import RustKernel.Input.KeyRing
import RustKernel.Input.Keyboard
import RustKernel.Input.Mouse
import RustKernel.Lib.Bitmap
import RustKernel.Lib.Buffer
import RustKernel.Lib.ByteStore
import RustKernel.Lib.Chain
import RustKernel.Lib.EndAround
import RustKernel.Lib.Endian
import RustKernel.Lib.Extent
import RustKernel.Lib.Fallible
import RustKernel.Lib.Layout
import RustKernel.Lib.PageWalk
import RustKernel.Lib.Paper
import RustKernel.Lib.Precedence
import RustKernel.Lib.Raster
import RustKernel.Lib.Regions
import RustKernel.Lib.Ring
import RustKernel.Lib.Run
import RustKernel.Lib.Text
import RustKernel.Lib.Tlv
import RustKernel.Lib.Words
import RustKernel.Lib.X86
import RustKernel.Memory.Alignment
import RustKernel.Memory.BootPaging
import RustKernel.Memory.BucketAllocator
import RustKernel.Memory.BucketSteps
import RustKernel.Memory.Conservation
import RustKernel.Memory.Contents
import RustKernel.Memory.DoubleFree
import RustKernel.Memory.FrameAllocator
import RustKernel.Memory.FreeList
import RustKernel.Memory.HeapInit
import RustKernel.Memory.HeapSafety
import RustKernel.Memory.HeapSteps
import RustKernel.Memory.LargeList
import RustKernel.Memory.LargeSteps
import RustKernel.Memory.RegionList
import RustKernel.Memory.SplitChain
import RustKernel.Memory.Statistics
import RustKernel.Memory.Tiling
import RustKernel.Net.Checksums
import RustKernel.Net.Dhcp.Exchange
import RustKernel.Net.Dhcp.Message
import RustKernel.Net.Dhcp.Options
import RustKernel.Net.Dispatch
import RustKernel.Net.Encapsulation
import RustKernel.Net.Ethernet
import RustKernel.Net.Ipv4
import RustKernel.Net.RxRing
import RustKernel.Net.Tcp.Arrays
import RustKernel.Net.Tcp.BufferSafety
import RustKernel.Net.Tcp.Closing
import RustKernel.Net.Tcp.Connection
import RustKernel.Net.Tcp.Demux
import RustKernel.Net.Tcp.Erasure
import RustKernel.Net.Tcp.GiveUp
import RustKernel.Net.Tcp.Handlers
import RustKernel.Net.Tcp.Handshake
import RustKernel.Net.Tcp.Isolation
import RustKernel.Net.Tcp.Listener
import RustKernel.Net.Tcp.Numbering
import RustKernel.Net.Tcp.Reassembly
import RustKernel.Net.Tcp.Receiving
import RustKernel.Net.Tcp.Removal
import RustKernel.Net.Tcp.Retransmission
import RustKernel.Net.Tcp.Segment
import RustKernel.Net.Tcp.SendLedger
import RustKernel.Net.Tcp.Stack
import RustKernel.Net.Tcp.Stream
import RustKernel.Net.Tcp.Transmit
import RustKernel.Net.Timeouts
import RustKernel.Net.Udp
import RustKernel.Net.Wire
import RustKernel.Rtc
import RustKernel.Shell.Calc
import RustKernel.Shell.CursorPosition
import RustKernel.Shell.Editor
import RustKernel.Shell.Expressions
import RustKernel.Shell.FileCommands
import RustKernel.Shell.History
import RustKernel.Shell.Lexing
import RustKernel.Shell.LineEditor
import RustKernel.Shell.Saving
import RustKernel.Tasks.ContextSwitch
import RustKernel.Tasks.Interrupts
import RustKernel.Tasks.Scheduler
import RustKernel.Timer
