import Cing.Lib.Exec
import Cing.Lib.Bytes
import Cing.Lib.Linked
import Cing.Lib.Dyadic
import Cing.Lib.Buddy
import Cing.Lib.Radix
import Cing.Lib.Trace
import Cing.Kernel.Panic
import Cing.Util.Math
import Cing.Mm.Base
import Cing.Kernel.BootInfo
import Cing.Kernel.BootTags
import Cing.Containers.String
import Cing.Containers.Format
import Cing.Mm.Heap.Model
import Cing.Mm.Heap.Header
import Cing.Mm.Heap.Sim
import Cing.Mm.Heap.Calls
import Cing.Mm.Heap.Runs
import Cing.Mm.Heap.Order
import Cing.Mm.Heap.Twins
import Cing.Mm.Heap.Fit
import Cing.Mm.Heap.Undo
import Cing.Mm.Heap.DoubleFree
import Cing.Mm.Heap.Size
import Cing.Mm.Heap.Pages
import Cing.Mm.Allocator.Model
import Cing.Mm.Allocator.Arena
import Cing.Mm.Allocator.Calls
import Cing.Mm.Allocator.Lifecycle
import Cing.Mm.Allocator.Runs
import Cing.Mm.Allocator.Wrap
import Cing.Mm.Allocator.Pages
import Cing.Mm.Page.Walk
import Cing.Mm.Page.Model
import Cing.Mm.Page.Tree
import Cing.Mm.Page.Frame
import Cing.Mm.Page.Setup
import Cing.Mm.Page.Map
import Cing.Mm.Page.Unmap
import Cing.Mm.Page.Runs
import Cing.Mm.Page.Owner
import Cing.Mm.Page.Restore
import Cing.Mm.Page.Boot
import Cing.Mm.Page.EarlyMap
import Cing.Mm.Page.Pool
import Cing.Mm.Page.Placement
import Cing.Mm.Page.Window
import Cing.Mm.Page.Discipline
import Cing.Mm.Page.Entry
import Cing.Mm.Page.Query
import Cing.Mm.Page.Fails
import Cing.Mm.Page.Refuse
import Cing.Mm.Page.Count
import Cing.Mm.Page.Private
import Cing.Mm.Page.Layout
import Cing.Mm.Backing
import Cing.Mm.Paged
import Cing.Mm.Boot
import Cing.Mem.Model
import Cing.Mem.Bootstrap
import Cing.Mem.Map
import Cing.Mem.Ranges
import Cing.Mem.Kernel
import Cing.Mem.Frame
import Cing.Mem.Sections
import Cing.Mem.Elf
import Cing.Mem.FrameMap
import Cing.Mem.PaPool
import Cing.Mem.Mappers
import Cing.Mem.Footprint
import Cing.Mem.Stages
import Cing.Kernel.PanicPath
import Cing.Containers.Render
import Cing.Drivers.Pcie
import Cing.Drivers.Acpi
import Cing.Lib.Search
import Cing.Log.FileStrip
import Cing.Log.Model
import Cing.Log.Screen
import Cing.Log.Transcript
import Cing.Containers.Stops
import Cing.Drivers.Screen
import Cing.Kernel.Halt
import Cing.Panel.Text
import Cing.Util.Log2
import Cing.Mm.Align
import Cing.Drivers.PcieSpace
import Cing.Video.Cells
import Cing.Interrupts.Idt
import Cing.Mem.HeapMap.Model
import Cing.Mem.HeapMap.Slots
import Cing.Mem.HeapMap.Init
import Cing.Mm.Heap.Validate
import Cing.Lib.Stack
import Cing.Drivers.Port
import Cing.Drivers.Serial
import Cing.Interrupts.Dispatch
import Cing.Interrupts.Stubs
import Cing.Drivers.Keyboard
