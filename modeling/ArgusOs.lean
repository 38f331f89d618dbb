import ArgusOs.Acpi.Entries
import ArgusOs.Ahci.DmaPages
import ArgusOs.Apps.Calculator
import ArgusOs.Apps.Snake
import ArgusOs.Boot.MemoryMap
import ArgusOs.Capability.Authority
import ArgusOs.Console.Backspace
import ArgusOs.Display.HitTest
import ArgusOs.Fat32.FileRead
import ArgusOs.Gui.Layout
import ArgusOs.Heap.FirstFit
import ArgusOs.Input.ScanCodes
import ArgusOs.Ipc.Fifo
import ArgusOs.Memory.FreeRam
import ArgusOs.Memory.MapCoverage
import ArgusOs.Memory.MapRuns
import ArgusOs.Memory.MarkMmio
import ArgusOs.Net.Checksums
import ArgusOs.Net.Corruption
import ArgusOs.Net.Queues
import ArgusOs.Net.Transport
import ArgusOs.Ramfs.Paths
import ArgusOs.Ramfs.Refinement
import ArgusOs.Runtime.AppInput
import ArgusOs.Runtime.Palette
import ArgusOs.Runtime.RoundRobin
import ArgusOs.Shell.Decimal
