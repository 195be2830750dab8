import SafecoinRpc.Primitives
import SafecoinRpc.BlockIndex
import SafecoinRpc.Forest
import SafecoinRpc.ActiveChain
import SafecoinRpc.Validator
import SafecoinRpc.StdSet
import SafecoinRpc.ChainTips
import SafecoinRpc.Difficulty
import SafecoinRpc.BlockJSON
import SafecoinRpc.BlockRpc
import SafecoinRpc.ChainInfo
import SafecoinRpc.Minerids
import SafecoinRpc.Mempool
import SafecoinRpc.Pax
import SafecoinRpc.KvSearch
import SafecoinRpc.Notaries
import SafecoinRpc.Coins
import SafecoinRpc.ChainQueries
