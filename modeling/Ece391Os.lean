import Ece391Os.Lib.Transition
import Ece391Os.Lib.RootedStacks
import Ece391Os.Lib.LinkedList
import Ece391Os.Lib.Memory
import Ece391Os.Lib.I386
import Ece391Os.Kernel.I8259
import Ece391Os.Kernel.LibC
import Ece391Os.FileSystem.Image
import Ece391Os.Kernel.State
import Ece391Os.Kernel.Handlers
import Ece391Os.Kernel.Jump
import Ece391Os.Kernel.Paging
import Ece391Os.Terminal.Screen
import Ece391Os.Process.Execute
import Ece391Os.Process.Program
import Ece391Os.Process.Halt
import Ece391Os.Process.Schedule
import Ece391Os.Process.Forest
import Ece391Os.Process.HaltSteps
import Ece391Os.Process.Boot
import Ece391Os.Process.Coherence
import Ece391Os.Process.KernelStack
import Ece391Os.Process.Masking
import Ece391Os.Process.Arguments
import Ece391Os.Process.Preemption
import Ece391Os.Process.Fairness
import Ece391Os.Process.Calls
import Ece391Os.Process.Contexts
import Ece391Os.Process.Loading
import Ece391Os.Process.LaunchSteps
import Ece391Os.FileSystem.Descriptors
import Ece391Os.FileSystem.DescriptorTable
import Ece391Os.Terminal.Cursor
import Ece391Os.Terminal.Isolation
import Ece391Os.Terminal.Keyboard
import Ece391Os.Terminal.Line
import Ece391Os.Terminal.Echo
import Ece391Os.Terminal.Editor
import Ece391Os.Terminal.Handshake
import Ece391Os.Terminal.Switching
import Ece391Os.Terminal.CtrlC
import Ece391Os.Process.UserStores
import Ece391Os.Process.KilledLaunch
import Ece391Os.Rtc.Ticks
import Ece391Os.Fish.Blink
import Ece391Os.Fish.BlinkList
import Ece391Os.Fish.BlinkScreen
import Ece391Os.FileSystem.ReadData
import Ece391Os.FileSystem.Accesses
import Ece391Os.Process.CommandBuffers
import Ece391Os.Terminal.CopyOut
import Ece391Os.Terminal.EditLine
import Ece391Os.FileSystem.OpenedDescriptors
import Ece391Os.FileSystem.Lookup
import Ece391Os.FileSystem.Directory
import Ece391Os.Process.ElfHeader
import Ece391Os.Process.Allocation
import Ece391Os.Process.RevealedArguments
import Ece391Os.Terminal.Clear
import Ece391Os.Terminal.Scancodes
import Ece391Os.Rtc.Device
import Ece391Os.Rtc.Frequency
import Ece391Os.Lib.Calendar
import Ece391Os.Rtc.Clock
import Ece391Os.Lib.StringInstr
import Ece391Os.Kernel.InterruptMasks
import Ece391Os.Kernel.MemoryRoutines
import Ece391Os.Terminal.Login
import Ece391Os.Lib.Numeral
import Ece391Os.Kernel.Itoa
import Ece391Os.Kernel.Printf
import Ece391Os.Rtc.Display
import Ece391Os.Grep.Lines
import Ece391Os.Grep.Support
import Ece391Os.Grep.DoOneFile
import Ece391Os.Programs.Files
import Ece391Os.Programs.Cat
import Ece391Os.Grep.Main
import Ece391Os.Fish.Period
import Ece391Os.Fish.Frames
import Ece391Os.Fish.Main
import Ece391Os.Programs.Shell
import Ece391Os.Programs.Counter
import Ece391Os.Programs.Emulate
import Ece391Os.Programs.Pingpong
import Ece391Os.Process.Isolation
import Ece391Os.Process.StackDrift
import Ece391Os.Kernel.DescriptorTables
import Ece391Os.Kernel.InitPaging
