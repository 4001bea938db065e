import Xinu.Lib.LinkedQueue
import Xinu.Lib.Clock
import Xinu.Lib.Counting
import Xinu.Lib.MemoryProgram
import Xinu.Kernel.State
import Xinu.Kernel.Semaphore
import Xinu.Kernel.Memory
import Xinu.Kernel.FreeList
import Xinu.Paging.BackingStore
import Xinu.Paging.Address
import Xinu.Paging.Process
import Xinu.Paging.Cpu
import Xinu.Paging.System
import Xinu.Paging.VirtualHeap
import Xinu.Replacement.Fifo
import Xinu.Replacement.FifoRuns
import Xinu.Replacement.Order
import Xinu.Replacement.SystemCalls
import Xinu.Replacement.FifoResults
import Xinu.Replacement.Exhaustion
import Xinu.Space.Agreement
import Xinu.Space.Unmap
import Xinu.Space.Evict
import Xinu.Space.Choice
import Xinu.Space.Allocate
import Xinu.Space.Link
import Xinu.Space.Fault
import Xinu.Space.Service
import Xinu.Space.Transfers
import Xinu.Space.Ownership
import Xinu.Space.Members
import Xinu.Space.Boot
import Xinu.Space.Runs
import Xinu.Space.FrameTable
import Xinu.Space.Contents
import Xinu.Space.Heaps
import Xinu.Space.Transparency
import Xinu.Space.PrivateHeap
import Xinu.Space.Owners
import Xinu.Space.IdentityMap
import Xinu.Replacement.ModifyBits
import Xinu.Processes.Undo
import Xinu.Swap.Ledger
import Xinu.Swap.Allocation
import Xinu.Swap.Conservation
import Xinu.Swap.Places
import Xinu.Swap.Disk
import Xinu.Processes.Creation
import Xinu.Processes.CreationSafety
import Xinu.Processes.Teardown
import Xinu.Processes.TeardownSafety
import Xinu.Processes.Steps
import Xinu.Processes.KernelVariables
import Xinu.Lib.Interleaving
import Xinu.Kernel.Heap
import Xinu.Kernel.HeapLists
import Xinu.Rds.Comm
import Xinu.Rds.Device
import Xinu.Rds.Lists
import Xinu.Rds.Driver
import Xinu.Rds.Steps
import Xinu.Rds.Counting
import Xinu.Rds.Available
import Xinu.Rds.Messages
import Xinu.Rds.OneCopy
import Xinu.Kernel.HeapRuns
import Xinu.Kernel.BufferPools
import Xinu.Kernel.Ports
import Xinu.Kernel.PortMessages
import Xinu.Kernel.PortCalls
import Xinu.Kernel.PortCapacity
import Xinu.Kernel.PortRuns
import Xinu.Kernel.HeapBounds
import Xinu.Kernel.HeapFrees
import Xinu.Kernel.HeapLaws
import Xinu.Sched.Queues
import Xinu.Sched.Calls
import Xinu.Sched.Placement
import Xinu.Sched.Frames
import Xinu.Sched.CallPlacement
import Xinu.Sched.Priority
import Xinu.Sched.Delays
import Xinu.Sched.Messages
import Xinu.Sched.Semaphores
import Xinu.Lib.Ring
import Xinu.Net.Udp
import Xinu.Lib.Semaphores
import Xinu.Net.Output
import Xinu.Net.Icmp
import Xinu.Net.UdpSlots
import Xinu.Net.Frames
import Xinu.Net.Lengths
import Xinu.Net.Arp
import Xinu.Net.ArpCache
import Xinu.Net.ArpAnswers
import Xinu.Net.Buffers
import Xinu.Net.Conservation
import Xinu.Tty.Line
import Xinu.Tty.Input
import Xinu.Tty.Output
import Xinu.Lfs.Device
import Xinu.Lfs.Open
import Xinu.Lib.SingleList
import Xinu.Lfs.Accounts
import Xinu.Lfs.Storage
import Xinu.Lfs.Setup
import Xinu.Lfs.Position
import Xinu.Lfs.Layout
import Xinu.Lfs.Located
import Xinu.Lfs.Bytes
import Xinu.Lfs.Truncate
import Xinu.Lfs.Sessions
import Xinu.Lfs.Create
import Xinu.Lfs.Reference
import Xinu.Lfs.Simulation
import Xinu.Lfs.Runs
import Xinu.Lfs.AllClosed
import Xinu.Lfs.Programs
import Xinu.Lfs.Numbers
import Xinu.Lfs.Interleaving
import Xinu.Stores.Use
import Xinu.Stores.Locks
import Xinu.Stores.Pages
import Xinu.Rds.Server
import Xinu.Net.Ethernet
import Xinu.Space.Victim
import Xinu.Space.PolicyChanges
import Xinu.Space.RealFrames
import Xinu.Space.TableAccess
import Xinu.Space.Interrupted
import Xinu.Space.InterruptedRuns
import Xinu.Net.Dotted
import Xinu.Sched.QueueTable
import Xinu.Kernel.PoolFailures
import Xinu.Lib.Calendar
import Xinu.Clock.Ascdate
import Xinu.Kernel.Marks
import Xinu.Sched.FaultLock
import Xinu.Sched.SharedQueues
import Xinu.Sched.SharedKernel
import Xinu.Rds.Opening
import Xinu.Rds.Cleanup
import Xinu.Nam.Names
import Xinu.Nam.Prefixes
import Xinu.Nam.Rounds
import Xinu.Lib.OnesComplement
import Xinu.Net.Checksums
import Xinu.Lfs.Formatting
import Xinu.Net.Dhcp
import Xinu.Net.DhcpCalls
import Xinu.Net.DhcpOptions
import Xinu.Lib.Masks
import Xinu.Net.Masks
import Xinu.Tty.LineEditor
import Xinu.Tty.Cooked
import Xinu.Rds.Faults
import Xinu.Shell.Lexan
import Xinu.Lib.ByteMemory
import Xinu.Shell.Commands
import Xinu.Lib.Scatter
import Xinu.Net.Tftp
import Xinu.Lib.Processor
import Xinu.Kernel.ContextSwitch
import Xinu.Kernel.Dispatch
