import Pintos.Vm.Protection
import Pintos.Userprog.Children
import Pintos.Userprog.Wait
import Pintos.Userprog.Descriptors
import Pintos.Userprog.Exec
import Pintos.Userprog.PointerSafety
import Pintos.Userprog.Resources
import Pintos.Threads.Condition
import Pintos.Threads.Requests
import Pintos.Vm.ExitSafety
import Pintos.Devices.IntqMonitor
import Pintos.Lib.HashIteration
import Pintos.Threads.PallocInterleaving
import Pintos.Userprog.PageTables
import Pintos.Vm.ProcessExit
import Pintos.Vm.FailedLoad
import Pintos.Filesys.Handles
import Pintos.Lib.BitmapNextFit
import Pintos.Lib.BitmapScanEnds
import Pintos.Lib.Console
import Pintos.Filesys.Restart
import Pintos.Userprog.FileSafety
import Pintos.Vm.Installing
import Pintos.Vm.FrameOwners
import Pintos.Vm.FramePool
import Pintos.Vm.Unmapping
import Pintos.Userprog.Arguments
import Pintos.Lib.String
import Pintos.Lib.Strtok
import Pintos.Lib.Format
import Pintos.Lib.BitmapArray
import Pintos.Lib.Arithmetic
import Pintos.Devices.Rtc
import Pintos.Devices.Partition
import Pintos.Threads.CommandLine
