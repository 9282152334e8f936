import Ams.LockManager
import Ams.CompactBytes
import Ams.RowLockProtocol
import Ams.HeapRedo
import Ams.SnapshotSemantics
import Ams.WalBeforeData
import Ams.WalCrash
import Ams.FreshPage
import Ams.CheckpointInvariant
import Ams.BtreeRedo
import Ams.Superblock
import Ams.ClogDurability
import Ams.WireSession
import Ams.TxnRecovery
import Ams.DdlRecovery
import Ams.Deadlock
import Ams.HnswSnapshot
import Ams.HnswAudit
import Ams.HnswLevels
