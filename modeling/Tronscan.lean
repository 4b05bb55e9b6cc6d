import Tronscan.Lib.System
import Tronscan.Lib.Simulation
import Tronscan.Lib.Tokens
import Tronscan.Lib.Batch
import Tronscan.Lib.Table
import Tronscan.Lib.Writes
import Tronscan.Lib.Numeral
import Tronscan.Lib.Lexicographic
import Tronscan.Lib.Base64
import Tronscan.Lib.Stream
import Tronscan.Lib.Latest
import Tronscan.Lib.Replay
import Tronscan.Lib.Surrogate
import Tronscan.Lib.Ranking
import Tronscan.Lib.Cursor
import Tronscan.Lib.Traverse
import Tronscan.Lib.While
import Tronscan.Lib.Pool
import Tronscan.Lib.Sponge
import Tronscan.Lib.Keccak
import Tronscan.Lib.Ecdsa
import Tronscan.Core.Proto
import Tronscan.Core.Encoding
import Tronscan.Core.Decoding
import Tronscan.Core.Base58Buffers
import Tronscan.Core.Keccak
import Tronscan.Core.Wire
import Tronscan.Core.Signature
import Tronscan.Core.ECKey
import Tronscan.Core.Serializer
import Tronscan.Core.TransactionJson
import Tronscan.Core.Extract
import Tronscan.Core.Database
import Tronscan.Importer.Queries
import Tronscan.Importer.Extracted
import Tronscan.Importer.Rows
import Tronscan.Importer.Solidity
import Tronscan.Importer.Sync
import Tronscan.Importer.Run
import Tronscan.Importer.System
import Tronscan.Importer.History
import Tronscan.Importer.SideBySide
import Tronscan.Importer.Mirror
import Tronscan.Importer.Events
import Tronscan.Importer.Concurrent
import Tronscan.Account.Sync
import Tronscan.Account.Pass
import Tronscan.Account.Balances
import Tronscan.Utils.Retry
import Tronscan.Api.Request
import Tronscan.Api.Listing
import Tronscan.Api.Cache
import Tronscan.Api.SuperRepresentative
import Tronscan.Api.Faucet
import Tronscan.Api.Builder
import Tronscan.Api.Blocks
import Tronscan.Api.Sorting
import Tronscan.Network.Scanner
import Tronscan.Vote.Snapshots
import Tronscan.Grpc.Balancer
import Tronscan.Grpc.Receive
import Tronscan.Grpc.Pings
import Tronscan.Theory.AutoConfirm
import Tronscan.Theory.GapFree
import Tronscan.Theory.WholeBlocks
import Tronscan.Theory.Serialised
import Tronscan.Theory.Reorganised
import Tronscan.Theory.ConfirmedRows
import Tronscan.Theory.VoteHistory
import Tronscan.Theory.FreshImport
import Tronscan.Theory.AccountUpdates
import Tronscan.Theory.DirtyMarks
import Tronscan.Theory.BatchedRead
import Tronscan.Theory.VoteFold
import Tronscan.Theory.AddressListing
import Tronscan.Theory.CacheKeys
import Tronscan.Theory.TokenBalances
import Tronscan.Theory.CacheInvalidation
import Tronscan.Theory.Authorisation
import Tronscan.Theory.Payments
import Tronscan.Theory.HeldOnce
import Tronscan.Theory.PublishedOnce
import Tronscan.Theory.AddressCodec
import Tronscan.Theory.Signers
import Tronscan.Theory.ContractCodecs
import Tronscan.Theory.BuilderRequests
import Tronscan.Theory.SortOrder
import Tronscan.Theory.NetworkScan
import Tronscan.Theory.SeedNodes
import Tronscan.Theory.VoteRanks
import Tronscan.Theory.VoteSnapshots
import Tronscan.Theory.TokenTransfers
import Tronscan.Theory.SolidityPass
import Tronscan.Theory.ImportMapping
import Tronscan.Theory.AddressStream
import Tronscan.Theory.BalancerRuns
import Tronscan.Theory.FastestClients
import Tronscan.Theory.MajorityChain
import Tronscan.Theory.SolidityTwice
import Tronscan.Theory.RetryRuns
import Tronscan.Theory.RetryEnds
import Tronscan.Theory.RetryWaits
import Tronscan.Theory.MainNetAddresses
import Tronscan.Theory.BlockIds
import Tronscan.Theory.Base58Arrays
import Tronscan.Theory.Base58Buffers
import Tronscan.Theory.KeccakRounds
import Tronscan.Theory.KeccakBlocks
import Tronscan.Theory.DigestRuns
import Tronscan.Theory.KeccakDigest
import Tronscan.Theory.SignedKeys
import Tronscan.Theory.BuiltSignatures
import Tronscan.Theory.PassRuns
import Tronscan.Theory.ViewTables
import Tronscan.Theory.MirroredRuns
import Tronscan.Theory.CaughtUp
