import PepePrivate.Library.Tally
import PepePrivate.Library.Digits
import PepePrivate.Library.Words
import PepePrivate.Library.Runs
import PepePrivate.Library.Cycles
import PepePrivate.Library.CycleWalk
import PepePrivate.Library.OrderedIndex
import PepePrivate.Basic.Amounts
import PepePrivate.Hardfork.Basic
import PepePrivate.Hardfork.Ops
import PepePrivate.Hardfork.Window
import PepePrivate.Hardfork.Node
import PepePrivate.Hardfork.Consistency
import PepePrivate.Hardfork.Schedule
import PepePrivate.Hardfork.Reorganize
import PepePrivate.Base58.Basic
import PepePrivate.Base58.Codec
import PepePrivate.Base58.RoundTrip
import PepePrivate.Base58.Address
import PepePrivate.Difficulty.Algorithms
import PepePrivate.Difficulty.Cache
import PepePrivate.Difficulty.AltChain
import PepePrivate.Difficulty.Timestamp
import PepePrivate.Difficulty.CheckHash
import PepePrivate.Difficulty.Exact
import PepePrivate.Emission.Reward
import PepePrivate.Emission.Coins
import PepePrivate.Emission.MinerTx
import PepePrivate.Emission.Template
import PepePrivate.Serialization.Varint
import PepePrivate.Serialization.TxExtra
import PepePrivate.Serialization.TxExtraSort
import PepePrivate.Epee.PortableStorage
import PepePrivate.Epee.StorageRead
import PepePrivate.Epee.StorageSound
import PepePrivate.Epee.StorageFrame
import PepePrivate.Epee.StoreLoad
import PepePrivate.Core.RingMembers
import PepePrivate.Core.TxPool
import PepePrivate.Common.Pruning
import PepePrivate.Common.ApplyPermutation
import PepePrivate.Protocol.BlockQueue
import PepePrivate.P2P.Peerlist
import PepePrivate.P2P.PeerlistRuns
import PepePrivate.Wallet.Transfers
import PepePrivate.Library.Drain
import PepePrivate.Net.Levin
import PepePrivate.Net.LevinFraming
import PepePrivate.Net.LevinCallbacks
