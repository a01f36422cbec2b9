import LainOS.Boot.ElfInside
import LainOS.Drivers.Keyboard
import LainOS.Drivers.Mouse
import LainOS.Graphics.Damage
import LainOS.Graphics.Line
import LainOS.Kmem.Dma
import LainOS.Kmem.HeapRuns
import LainOS.LainFS.AllocComplete
import LainOS.LainFS.BlockArray
import LainOS.LainFS.FailedCalls
import LainOS.LainFS.Format
import LainOS.LainFS.RepairNames
import LainOS.LainFS.SeedSound
import LainOS.LainFS.Tree
import LainOS.LainFS.WordLimit
import LainOS.Libc.RtcClock
import LainOS.Net.ChunkedFailed
import LainOS.Net.FrameSafe
import LainOS.Net.HttpFetch
import LainOS.Shell.CopyGlob
import LainOS.Shell.Modules
import LainOS.Smp.Reap
import LainOS.Storage.Names
import LainOS.ZObject.FromAsm
import LainOS.ZObject.LinkInside
import LainOS.ZObject.Resolve
import LainOS.ZScript.CopyMemory
import LainOS.ZScript.ExprCorrect
