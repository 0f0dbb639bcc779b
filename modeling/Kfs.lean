import Kfs.Base.Memory
import Kfs.Base.Outcome
import Kfs.Base.Trace
import Kfs.Base.Segments
import Kfs.Base.Links
import Kfs.Base.Ring
import Kfs.Base.Records
import Kfs.Base.Panel
import Kfs.Base.Text
import Kfs.Base.Words
import Kfs.Base.Slots
import Kfs.Base.Loops
import Kfs.Base.Numerals
import Kfs.Heap.Kmalloc
import Kfs.Heap.Blocks
import Kfs.Heap.Refine
import Kfs.Heap.Runs
import Kfs.Heap.Payload
import Kfs.Heap.Aligned
import Kfs.Heap.Stray
import Kfs.Heap.InUse
import Kfs.Heap.Sizes
import Kfs.Heap.Restore
import Kfs.Heap.Magic
import Kfs.Heap.Vmalloc
import Kfs.Heap.Backing
import Kfs.Heap.Statistics
import Kfs.Heap.DoubleFree
import Kfs.Heap.Contained
import Kfs.Interrupt.Frame
import Kfs.Paging.Tables
import Kfs.Paging.Layout
import Kfs.Paging.Moves
import Kfs.Paging.Spaces
import Kfs.Paging.Clone
import Kfs.Paging.Placement
import Kfs.Paging.Present
import Kfs.Paging.Exact
import Kfs.Paging.Frees
import Kfs.Paging.Destroyed
import Kfs.Paging.Copied
import Kfs.Paging.Translate
import Kfs.Paging.Replica
import Kfs.Paging.Attempt
import Kfs.Paging.Preserved
import Kfs.Paging.Furnished
import Kfs.Paging.Unwound
import Kfs.Paging.Views
import Kfs.Process.Pcb
import Kfs.Process.Calls
import Kfs.Process.Control
import Kfs.Process.Spaces
import Kfs.Process.Runs
import Kfs.Process.Regions
import Kfs.Process.Table
import Kfs.Process.Refine
import Kfs.Process.Scheduling
import Kfs.Process.RoundRobin
import Kfs.Process.Pids
import Kfs.Process.Tree
import Kfs.Process.Directories
import Kfs.Process.Signals
import Kfs.Process.SignalOrder
import Kfs.Process.Posted
import Kfs.Process.Reaping
import Kfs.Process.Accounts
import Kfs.Process.Release
import Kfs.Process.FailedForks
import Kfs.Process.Constructions
import Kfs.Process.Asked
import Kfs.Process.Ranges
import Kfs.Process.Undone
import Kfs.Process.Rollback
import Kfs.Process.Break
import Kfs.Ipc.Socket
import Kfs.Ipc.Boot
import Kfs.Ipc.Peers
import Kfs.Ipc.Queues
import Kfs.Ipc.Listeners
import Kfs.Ipc.Streams
import Kfs.Ipc.Fifo
import Kfs.Ipc.Closing
import Kfs.Strings.Compare
import Kfs.Strings.Cells
import Kfs.Strings.Format
import Kfs.Strings.Buffer
import Kfs.Strings.Printk
import Kfs.Strings.Numerals
import Kfs.Disk.Ide
import Kfs.Disk.Ext2
import Kfs.Disk.Inodes
import Kfs.Disk.Blocks
import Kfs.Disk.Data
import Kfs.Disk.Directory
import Kfs.Disk.Scans
import Kfs.Disk.Holes
import Kfs.Disk.Overrun
import Kfs.Disk.Divisors
import Kfs.Disk.Sectors
import Kfs.Disk.Indirect
import Kfs.Disk.ShortRead
import Kfs.Vfs.Mount
import Kfs.Vfs.Files
import Kfs.Vfs.Lookup
import Kfs.Vfs.Walk
import Kfs.Vfs.Listing
import Kfs.Vfs.Tree
import Kfs.Vfs.Overread
import Kfs.Vfs.Virtual
import Kfs.Vfs.Unmount
import Kfs.Shell.Cd
import Kfs.Shell.Session
import Kfs.Shell.Editors
import Kfs.Shell.Login
import Kfs.Shell.Arguments
import Kfs.Shell.Relative
import Kfs.Interrupt.Devices
import Kfs.Interrupt.Irq
import Kfs.Interrupt.Keys
import Kfs.Interrupt.Shift
import Kfs.Interrupt.SignalTable
import Kfs.Interrupt.TimerWait
import Kfs.Console.Vga
import Kfs.Console.Screens
import Kfs.Console.Drawing
import Kfs.Console.Terminal
import Kfs.Console.Scrollback
import Kfs.Console.History
import Kfs.Base.Ports
import Kfs.Interrupt.Pic
import Kfs.Interrupt.Drivers
import Kfs.Interrupt.Descriptors
import Kfs.Disk.Ata
import Kfs.Disk.Transfers
import Kfs.Disk.Channels
import Kfs.Disk.Requests
import Kfs.Disk.Identity
import Kfs.Base.Progress
import Kfs.Process.Waiting
import Kfs.Shell.Ticks
import Kfs.Shell.Dispatch
import Kfs.Shell.Typing
import Kfs.Interrupt.Syscalls
import Kfs.Heap.Shared
import Kfs.Shell.Files
import Kfs.Shell.FileSession
