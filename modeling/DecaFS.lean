import DecaFS.ForMathlib.Transition
import DecaFS.ForMathlib.OrderedList
import DecaFS.ForMathlib.Intervals
import DecaFS.Locking.ReaderWriter
import DecaFS.Metadata.Directory
import DecaFS.PersistentStl.RoundTrip
import DecaFS.PersistentStl.Mapping
import DecaFS.Espresso.Refinement
import DecaFS.Espresso.Growth
import DecaFS.NetworkCore.RoundTrip
import DecaFS.BaristaCore.Results
import DecaFS.BaristaCore.Striping
import DecaFS.BaristaCore.Isolation
import DecaFS.BaristaCore.Pairing
import DecaFS.BaristaCore.Descriptors
import DecaFS.BaristaCore.Placement
import DecaFS.BaristaCore.Lifetimes
import DecaFS.BaristaCore.Sizes
import DecaFS.BaristaCore.Uninitialised
import DecaFS.BaristaCore.Failover
import DecaFS.BaristaCore.Purging
import DecaFS.NetworkCore.LiveNodes
import DecaFS.NetworkCore.Decoding
import DecaFS.BaristaCore.Seeking
import DecaFS.BaristaCore.OpenResults
import DecaFS.Espresso.Transfers
import DecaFS.Types.Keys
import DecaFS.BaristaCore.Traffic
import DecaFS.PersistentStl.FreeSlots
import DecaFS.Metadata.FileSizes
import DecaFS.Metadata.FileDescriptors
import DecaFS.Metadata.ActiveNodes
import DecaFS.NetTcp.TcpServer
import DecaFS.BaristaCore.MetadataLock
import DecaFS.BaristaCore.Reassembly
import DecaFS.BaristaCore.Replies
import DecaFS.BaristaCore.PartialReads
import DecaFS.BaristaCore.FailedWrites
import DecaFS.NetworkCore.Disconnects
import DecaFS.BaristaCore.Answers
import DecaFS.Cluster.Draining
import DecaFS.Cluster.ReadBack
import DecaFS.Cluster.Replicas
import DecaFS.NetworkCore.RemoteCalls
