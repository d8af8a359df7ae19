import Coco.Aria.ReadSet
import Coco.Executor.Partition
import Coco.Executor.Retry
import Coco.Executor.Messages
import Coco.RStore.Phase
import Coco.Scar.Abort
import Coco.Scar.Checks
import Coco.Scar.Locking
import Coco.Scar.Progress
import Coco.Scar.Replication
import Coco.Scar.Runs
import Coco.Scar.Saturation
import Coco.Scar.Timestamps
import Coco.Scar.Validity
