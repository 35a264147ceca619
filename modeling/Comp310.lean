import Comp310.Lib.Assoc
import Comp310.Fs.Format
import Comp310.Fs.Files
import Comp310.Fs.Runs
import Comp310.Fs.Fsutil2
import Comp310.Lib.Bytes
import Comp310.Proofs.CacheRefinement
import Comp310.Proofs.Ownership
import Comp310.Proofs.NameStore
import Comp310.Proofs.Remount
import Comp310.Proofs.CopyIdentity
import Comp310.Proofs.SpaceReturned
import Comp310.Proofs.FailedCommands
import Comp310.Proofs.ReserveFrame
import Comp310.Proofs.Listings
import Comp310.Proofs.Coherence
import Comp310.Proofs.DefragmentKeeps
import Comp310.Proofs.ByteArray
import Comp310.Fs.Shell
import Comp310.Proofs.DirectoryMap
import Comp310.Kernel.ShellMemory
import Comp310.Fs.DataSectors
import Comp310.Proofs.ReserveExact
import Comp310.Proofs.CopyInSpace
import Comp310.Proofs.ReadOnly
import Comp310.Proofs.SectorWalk
import Comp310.Proofs.SlackSpace
import Comp310.Proofs.WriteShrinks
import Comp310.Fs.Enduring
import Comp310.Lib.Tally
import Comp310.Lib.Trace
import Comp310.Proofs.FilePositions
import Comp310.Proofs.References
import Comp310.Fs.Paths
import Comp310.Kernel.Pcb
import Comp310.Kernel.Processes
import Comp310.Kernel.Scheduler
import Comp310.Proofs.PathNames
import Comp310.Proofs.ProcessMemory
import Comp310.Proofs.ClockEviction
import Comp310.Fs.Partition
import Comp310.Proofs.PartitionScan
import Comp310.Proofs.VariableStore
import Comp310.Lib.Fields
import Comp310.A2.ParseInput
import Comp310.Proofs.CommandLines
import Comp310.Kernel.ParseInput
import Comp310.Proofs.ChainedCommands
import Comp310.Lib.Bubble
import Comp310.Lib.Linked
import Comp310.A2.ReadyQueue
import Comp310.A2.Queued
import Comp310.Proofs.ReadyOrder
import Comp310.A2.ShellMemory
import Comp310.A2.Interpreter
import Comp310.A2.Kernel
import Comp310.Proofs.Aging
import Comp310.Fs.WriteCommand
import Comp310.Fs.Elsewhere
import Comp310.Proofs.AppendedText
import Comp310.A2.Stdio
import Comp310.A2.LoadFile
import Comp310.Proofs.FileLoading
import Comp310.A2.LoadPage
import Comp310.A2.PageLines
import Comp310.Proofs.PageLoading
import Comp310.Proofs.WriteTargets
import Comp310.Lib.FirstFit
import Comp310.Proofs.FrameStore
import Comp310.Fs.SplitPath
import Comp310.Proofs.PathSplit
import Comp310.Fs.Recover
import Comp310.Proofs.RecoveredFiles
import Comp310.Fs.Layout
import Comp310.Proofs.PackedFiles
import Comp310.Lib.Chains
import Comp310.Lib.Headed
import Comp310.Lib.NaturalMerge
import Comp310.Lib.BitWords
import Comp310.Fs.List
import Comp310.Fs.Lists
import Comp310.Fs.ListSort
import Comp310.Fs.ListLoops
import Comp310.Fs.ListCalls
import Comp310.Proofs.ElementLists
import Comp310.Kernel.LinkedList
import Comp310.Kernel.NodeLists
import Comp310.Proofs.KernelLists
import Comp310.Fs.ElemBitmap
import Comp310.Fs.ElemBits
import Comp310.Proofs.BitmapElements
import Comp310.Kernel.Frames
import Comp310.Kernel.Scripts
import Comp310.Kernel.Residents
import Comp310.Kernel.Histories
import Comp310.Kernel.Paging
import Comp310.Kernel.Rounds
import Comp310.Kernel.RoundRuns
import Comp310.Kernel.NewProcs
import Comp310.Proofs.RoundRobin
import Comp310.Proofs.DemandPaging
import Comp310.Kernel.Alone
import Comp310.Kernel.Tries
import Comp310.Kernel.Supply
import Comp310.Kernel.Answers
import Comp310.Kernel.Solo
import Comp310.Kernel.Emptied
import Comp310.Kernel.Course
import Comp310.Kernel.Launch
import Comp310.Proofs.FaithfulRun
import Comp310.Fs.Census
import Comp310.Proofs.SpaceAccounting
import Comp310.Fs.Reports
import Comp310.Proofs.Reports
