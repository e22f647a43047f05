import XgtChain.Chain.Authorization
import XgtChain.Chain.BlockLogIndex
import XgtChain.Chain.CommentContents
import XgtChain.Chain.Contracts
import XgtChain.Chain.CustomOperations
import XgtChain.Chain.DuplicateTransactions
import XgtChain.Chain.EnergyBar
import XgtChain.Chain.EscrowLife
import XgtChain.Chain.FailedPush
import XgtChain.Chain.FailedTransaction
import XgtChain.Chain.ForkHead
import XgtChain.Chain.ForkOrders
import XgtChain.Chain.Impacted
import XgtChain.Chain.MerkleRoot
import XgtChain.Chain.MiningRewards
import XgtChain.Chain.NodeRuns
import XgtChain.Chain.PowSummary
import XgtChain.Chain.RecoveryControl
import XgtChain.Chain.TokenNais
import XgtChain.Chain.Work
import XgtChain.Chainbase.Locks
import XgtChain.Fc.Uint128
import XgtChain.Mira.Refusals
import XgtChain.P2p.AcceptedBlocks
import XgtChain.Plugins.HistoryRuns
import XgtChain.Plugins.VirtualOperations
import XgtChain.Plugins.WalletByKey
import XgtChain.Protocol.CheckDigit
import XgtChain.Protocol.RequiredSignatures
