import Wdutf.Lib.Action
import Wdutf.Lib.Transition
import Wdutf.Lib.Threads
import Wdutf.Lib.Long
import Wdutf.Lib.Loop
import Wdutf.Lib.Worklist
import Wdutf.Lib.Linear
import Wdutf.Lib.Keyed
import Wdutf.Lib.Runs
import Wdutf.Lib.RwLock
import Wdutf.Lib.Numerals
import Wdutf.Lib.Paths
import Wdutf.Lib.Memory
import Wdutf.Lib.Block
import Wdutf.Lib.Mapped
import Wdutf.Lib.Sweep
import Wdutf.Lib.Each
import Wdutf.Lib.Coding
import Wdutf.Lib.Forest
import Wdutf.Bitmap.Model
import Wdutf.Bitmap.Words
import Wdutf.Bitmap.Duality
import Wdutf.Bitmap.Search
import Wdutf.Bitmap.FindBits
import Wdutf.Bitmap.HintOrder
import Wdutf.Bitmap.ClearRuns
import Wdutf.Bitmap.RangeCheck
import Wdutf.Bitmap.Writers
import Wdutf.Bitmap.Readers
import Wdutf.Rtl.Unicode
import Wdutf.Rtl.Compare
import Wdutf.Rtl.Hash
import Wdutf.Rtl.HashPolynomial
import Wdutf.Rtl.Integer
import Wdutf.Rtl.Guid
import Wdutf.Rtl.Parse
import Wdutf.Rtl.GuidForm
import Wdutf.Rtl.Append
import Wdutf.Rtl.Ansi
import Wdutf.Rtl.Lengths
import Wdutf.Rtl.Encoding
import Wdutf.Rtl.Utf
import Wdutf.Rtl.Truncation
import Wdutf.Io.Irp
import Wdutf.Io.Complete
import Wdutf.Io.StackBounds
import Wdutf.Io.RemoveLock
import Wdutf.Io.DeviceStack
import Wdutf.Io.Pnp
import Wdutf.Io.DriverExtension
import Wdutf.Ob.Model
import Wdutf.Ob.Release
import Wdutf.Ob.Cascade
import Wdutf.Ob.Names
import Wdutf.Ob.NameTable
import Wdutf.Ob.Driver
import Wdutf.Ob.DeviceList
import Wdutf.Ob.Loaded
import Wdutf.Ob.DriverName
import Wdutf.Ob.Lifetime
import Wdutf.Ob.Counts
import Wdutf.Ob.Lookup
import Wdutf.Ob.Symlink
import Wdutf.Ob.Links
import Wdutf.Ob.NamedEvent
import Wdutf.Ob.Collision
import Wdutf.Ob.DriverFile
import Wdutf.Dpc.Model
import Wdutf.Dpc.Protocol
import Wdutf.Dpc.Ledger
import Wdutf.Dpc.Arguments
import Wdutf.Dpc.Flush
import Wdutf.Timer.Model
import Wdutf.Timer.Fate
import Wdutf.Timer.OneShot
import Wdutf.WorkItem.Model
import Wdutf.WorkItem.Dispatch
import Wdutf.Reg.Keys
import Wdutf.Reg.Object
import Wdutf.Reg.Query
import Wdutf.Reg.Values
import Wdutf.Reg.Table
import Wdutf.Reg.Direct
import Wdutf.Reg.MultiString
import Wdutf.Reg.Enumerate
import Wdutf.Reg.Delivery
import Wdutf.Reg.Missing
import Wdutf.Reg.Default
import Wdutf.Reg.Growth
import Wdutf.File.Position
import Wdutf.File.LocalPath
import Wdutf.File.Sandbox
import Wdutf.File.DeleteDirectory
import Wdutf.File.TempLock
import Wdutf.Detours.Model
import Wdutf.Detours.Region
import Wdutf.Detours.Effect
import Wdutf.Detours.Sweep
import Wdutf.Detours.State
import Wdutf.Detours.Invariant
import Wdutf.Detours.Detach
import Wdutf.Detours.Select
import Wdutf.Ke.Event
import Wdutf.Ke.Wait
import Wdutf.Ke.Dispatch
import Wdutf.Ke.Semaphore
import Wdutf.Ke.Mutex
import Wdutf.Ke.SpinLock
import Wdutf.Ke.BugCheck
import Wdutf.Ke.WaitTime
import Wdutf.Io.Ioctl
import Wdutf.Io.Buffers
import Wdutf.Io.PartialMdl
import Wdutf.Load.ImageData
import Wdutf.Load.Update
import Wdutf.Load.Rename
import Wdutf.Load.SharedData
import Wdutf.Load.Patch
import Wdutf.Load.Traces
import Wdutf.Ke.Exception
import Wdutf.Ke.Irql
import Wdutf.Ke.Locks
import Wdutf.Ps.ThreadObjects
import Wdutf.Lib.Slots
import Wdutf.Load.DriverImages
import Wdutf.Io.Synchronous
