import Txdb.Serialize
import Txdb.Store
import Txdb.Scan
import Txdb.Coins
import Txdb.CoinsFlush
import Txdb.BlockIndex
import Txdb.BlockTree
import Txdb.BlockTreeWrites
import Txdb.BlockTreeView
import Txdb.Reference
import Txdb.BlockIndexLoad
import Txdb.IndexScan
import Txdb.CoinsStats
import Txdb.Snapshot
import Txdb.IndexWrites
