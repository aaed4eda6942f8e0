import Titan.Book.PinRuns
import Titan.Book.Validate
import Titan.Book.Termination
import Titan.Book.SnapshotPool
import Titan.Book.Uncrossed
import Titan.Pipeline.Resync
import Titan.Bots.Inventory
import Titan.Bots.Quotes
import Titan.Net.TcpGateway
import Titan.Net.UdpPublisher
import Titan.Pipeline.SpscRing
import Titan.Pipeline.MpscRing
import Titan.Pipeline.Sequencer
import Titan.Pipeline.Recovery
import Titan.Pipeline.Durability
import Titan.Pipeline.Restart
import Titan.Pipeline.ServerRuns
import Titan.Pipeline.LockFree
import Titan.Pipeline.Shutdown
import Titan.Book.OrderTypes
import Titan.Ui.Feed
import Titan.Ui.Display
import Titan.Ui.ManualOrders
import Titan.Net.Listener
import Titan.Ui.OrderPath
