import Skyline.VMM.Munmap
import Skyline.VMM.Destroy
import Skyline.TLB.Attach
import Skyline.Sched.Pinned
import Skyline.SLUB.Refill
import Skyline.Sched.Pick
import Skyline.Sched.Calibrate
import Skyline.Sched.RipRate
import Skyline.FC.Totals
import Skyline.SLAB.Pages
import Skyline.Sched.ProcRef
import Skyline.Sched.Fork
import Skyline.Mutex.Wakeup
import Skyline.Timer.Wheel
import Skyline.ELF.Lemmas.Tables
import Skyline.ELF.Rights
import Skyline.ELF.TLS
import Skyline.E1000.Rx
import Skyline.Dev.ByteAccess
import Skyline.Partition.Manager
import Skyline.AHCI.Port
import Skyline.AHCI.Command
import Skyline.PMM.Complete
import Skyline.Kbd.Order
import Skyline.Qsbr.Grace
import Skyline.Comp.Reclaim
import Skyline.Comp.Painter
import Skyline.Comp.Cursor
import Skyline.NVME.Vectors
import Skyline.NVME.Polled
import Skyline.Wm.Resize
import Skyline.Time.Calendar
import Skyline.Str.Compare
