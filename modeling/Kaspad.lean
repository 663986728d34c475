import Kaspad.AddressManager.Banned
import Kaspad.BlockRelay.RequestHeaders
import Kaspad.ConnManager
import Kaspad.ConsensusState.BoundedMerge
import Kaspad.ConsensusState.Commitment
import Kaspad.ConsensusState.ImportedUTXOSet
import Kaspad.ConsensusState.PointsAtDepth
import Kaspad.ConsensusState.Reaccept
import Kaspad.ConsensusState.Supply
import Kaspad.ConsensusState.VirtualUTXOSet
import Kaspad.DifficultyManager
import Kaspad.FlowContext.Transactions
import Kaspad.HeadersSelectedChain.TipManager
import Kaspad.IBD.ChainNegotiation
import Kaspad.IBD.FutureHeaders
import Kaspad.IBD.TrustedData
import Kaspad.IBD.UTXOSetExchange
import Kaspad.Mempool.Dust
import Kaspad.Mempool.RemovedFamily
import Kaspad.Mempool.UnspentOutputs
import Kaspad.Merkle
import Kaspad.PastMedianTime
import Kaspad.Pruning.PruningPointDiff
import Kaspad.Pruning.ValidChain
import Kaspad.Reachability.Interval
import Kaspad.SignatureHash
import Kaspad.Sync.BlockLocator
import Kaspad.TransactionValidator.LockTime
import Kaspad.Traversal.Anticone
import Kaspad.Txscript.LockTimeScript
import Kaspad.UTXO.IteratorWithDiff
import Kaspad.UTXOIndex.Reading
import Kaspad.Wallet.Spent
