import Nachos.FileSys.Accounting
import Nachos.FileSys.Allocation
import Nachos.FileSys.Creation
import Nachos.FileSys.Sequential
import Nachos.FileSys.Accesses
import Nachos.FileSys.DirectoryMap
import Nachos.FileSys.SynchDisk
import Nachos.BitSet
import Nachos.Machine.Noninterference
import Nachos.Machine.Interrupt
import Nachos.Machine.Arithmetic
import Nachos.Machine.DiskLatency
import Nachos.Threads.Destroy
import Nachos.Threads.ListSequence
import Nachos.Threads.SynchConsole
import Nachos.Network.Post
import Nachos.Userprog.ExitCall
import Nachos.Userprog.TableLock
import Nachos.Userprog.ExecCall
import Nachos.Userprog.LoadedImage
import Nachos.Userprog.ResultRegister
import Nachos.Userprog.OpenFiles
import Nachos.Userprog.SemaphoreRuns
import Nachos.Userprog.RegisterRuns
import Nachos.Userprog.Numerals
import Nachos.Userprog.EchoLine
import Nachos.Userprog.StringTransfer
import Nachos.Userprog.StubOpenFile
import Nachos.Bin.BssSections
import Nachos.Threads.Turns
import Nachos.FileSys.FsTest
import Nachos.Bin.LoadedProgram
