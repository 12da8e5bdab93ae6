import Horizon.Verif.BuddyCoalescing
import Horizon.Verif.BuddySeeding
import Horizon.Verif.PageRuns
import Horizon.Verif.SlubConfig
import Horizon.Verif.CacheCustody
import Horizon.Verif.CacheRetention
import Horizon.Verif.PerCpu
import Horizon.Verif.Dma
import Horizon.Verif.Completion
import Horizon.Verif.Scheduler
import Horizon.Verif.AmlRuns
import Horizon.Verif.BlockCache
import Horizon.Verif.RwLock
import Horizon.Verif.AmlRegion
import Horizon.Verif.Timer
import Horizon.Verif.TcpOptions
import Horizon.Verif.Md5
import Horizon.Verif.Object
import Horizon.Verif.TcpRecv
import Horizon.Verif.BitmapSearch
import Horizon.Verif.VmallocRange
import Horizon.Verif.Ioremap
import Horizon.Verif.Topology
import Horizon.Verif.IntrusiveList
import Horizon.Verif.IotlbGrant
import Horizon.Verif.ScatterGather
import Horizon.Verif.AmlNames
import Horizon.Verif.AmlInteger
import Horizon.Verif.Madt
import Horizon.Verif.TcpTimer
import Horizon.Verif.Arp
import Horizon.Verif.TcpDemux
import Horizon.Verif.ChecksumChecks
import Horizon.Verif.BiosEmu
import Horizon.Verif.StorageRequests
import Horizon.Verif.Keyboard
import Horizon.Verif.Pcm
import Horizon.Verif.DynArray
