import CassiOS.Kernel.SchedulingSafety
import CassiOS.Kernel.PendingSends
import CassiOS.Kernel.MessageOrder
import CassiOS.Kernel.PreemptionSafety
import CassiOS.Fat32.Operations
import CassiOS.Fat32.VolumeModel
import CassiOS.Fat32.CacheTransparency
import CassiOS.Memory.MemoryMap
import CassiOS.Memory.HeapSafety
import CassiOS.Kernel.LoaderSafety
import CassiOS.Kernel.FrameOwnership
import CassiOS.Kernel.ActiveDirectory
import CassiOS.Fat32.WriteFailure
import CassiOS.Fat32.DirectoryModel
import CassiOS.Fat32.PathWalk
import CassiOS.Userland.TerminalGrid
import CassiOS.Userland.LineEditing
import CassiOS.Userland.NameRegistration
import CassiOS.Userland.KeyboardService
import CassiOS.Graphics.ScrollingImage
import CassiOS.Fat32.NameBuffers
import CassiOS.Fat32.CreateEntry
import CassiOS.Memory.DirectMap
import CassiOS.Userland.FileTransfer
import CassiOS.Fat32.LongNames
import CassiOS.Fat32.ParentPaths
import CassiOS.Fat32.PathNormalisation
import CassiOS.Fat32.ShortNames
import CassiOS.Kernel.HeapGrowth
import CassiOS.Kernel.LoadedImage
import CassiOS.Kernel.FailedExec
import CassiOS.Kernel.ImageReads
import CassiOS.Kernel.DeviceMapping
import CassiOS.Memory.FrameSequences
import CassiOS.Memory.DoubleFree
import CassiOS.Userland.ProcessHeap
import CassiOS.Kernel.DeliveryOrders
import CassiOS.Kernel.IrqDelivery
import CassiOS.Kernel.RoundRobin
import CassiOS.Memory.KernelHeap
import CassiOS.Kernel.BootModules
import CassiOS.Userland.KeyOrder
import CassiOS.Userland.AtaDriver
import CassiOS.Userland.DirectoryListing
import CassiOS.Userland.ClientStubs
import CassiOS.Userland.NameserverListing
import CassiOS.Userland.TerminalCursor
import CassiOS.Graphics.BlitRequest
import CassiOS.Kernel.ListHistories
import CassiOS.Kernel.TimerSleep
import CassiOS.Memory.WordRoutines
import CassiOS.Userland.CommandBuffers
import CassiOS.Userland.Modifiers
import CassiOS.Userland.NumberFields
import CassiOS.Userland.WorkingDirectory
import CassiOS.Fat32.NameRecords
import CassiOS.Fat32.OpenFiles
import CassiOS.Fat32.CacheWindow
import CassiOS.Userland.MouseService
import CassiOS.Userland.TerminalScreen
import CassiOS.Userland.ShellFiles
import CassiOS.Userland.SectorService
import CassiOS.Kernel.FramesApart
import CassiOS.Kernel.MemoryIsolation
import CassiOS.Support.TurnOrder
import CassiOS.Kernel.WaitingTime
import CassiOS.Fat32.CallerBuffers
import CassiOS.Userland.FilesystemService
import CassiOS.Userland.ShellListing
import CassiOS.Fat32.StaleMirror
import CassiOS.Fat32.FreeSearch
import CassiOS.Fat32.OpenTermination
