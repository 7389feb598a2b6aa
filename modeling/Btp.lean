import Btp.Lib.ByteBits
import Btp.Lib.ExceptRun
import Btp.Common.Types
import Btp.Vm.OpCodes
import Btp.Vm.Analysis
import Btp.Vm.Contract
import Btp.Consensus.Clique.Snapshot
import Btp.Consensus.Clique.Tally
import Btp.Consensus.Clique.Clique
import Btp.Consensus.Clique.Recents
import Btp.Consensus.Clique.Replay
import Btp.Core.TxList
import Btp.Core.TxListSpec
import Btp.Lib.GoHeap
import Btp.Core.TxSortedMap
import Btp.Core.TxPricedList
import Btp.Core.Types.Transaction
import Btp.Core.StateTransition
import Btp.Core.TxPool
import Btp.Core.TxPoolReorg
import Btp.Core.Rawdb.FreezerTable
import Btp.Core.Rawdb.Freezer
import Btp.Lib.UndoLog
import Btp.Core.State.StateDB
import Btp.Core.State.Undo
import Btp.Core.State.Revert
import Btp.Lib.GoSlice
import Btp.Vm.Memory
import Btp.Vm.Stack
import Btp.Vm.Instructions
import Btp.Vm.GasTable
import Btp.Vm.JumpTable
import Btp.Vm.Interpreter
import Btp.Lib.Returns
import Btp.Vm.ExecuteSpec
import Btp.Lib.TwosComplement
import Btp.Vm.Arithmetic
import Btp.Core.ForkId
import Btp.Core.BlockChain
import Btp.P2p.Netutil
import Btp.P2p.Discover.Table
import Btp.Lib.SortedRuns
import Btp.P2p.Peer
import Btp.Lib.Rlp
import Btp.P2p.Enr
import Btp.Lib.StreamCipher
import Btp.P2p.Rlpx.Frame
import Btp.P2p.Rlpx.Handshake
import Btp.Accounts.Abi.Type
import Btp.Accounts.Abi.Codec
import Btp.Accounts.Abi.Bind.Topics
import Btp.Core.Types.Bloom9
import Btp.Core.Bloombits.Generator
import Btp.Core.Bloombits.Matcher
import Btp.Lib.WordCast
import Btp.Filters.Filter
import Btp.Downloader.Ancestor
import Btp.Lib.Prque
import Btp.Downloader.Queue
import Btp.Lib.SortSearch
import Btp.Accounts.Keystore.AccountCache
import Btp.Lib.Ancestry
import Btp.Core.HeaderChain
import Btp.Consensus.Ethash.Uncles
import Btp.Vm.Contracts
import Btp.Lib.PoolMachine
import Btp.Lib.PoolOwnership
import Btp.Lib.PoolPoison
import Btp.Vm.IntPool
import Btp.Core.Types.TransactionSigning
import Btp.P2p.Discover.NodesByDistance
import Btp.P2p.Discover.TableShape
import Btp.Core.TxPoolConsistency
import Btp.P2p.NetSet
import Btp.P2p.Dial
import Btp.P2p.Server
import Btp.Core.StateProcessor
import Btp.Vm.Evm
import Btp.Core.GasLimit
import Btp.Vm.InterpreterSpec
import Btp.Asm.Lexer
import Btp.Asm.Compiler
import Btp.Asm.Iterator
import Btp.Asm.Program
import Btp.Core.TxPoolTruncate
