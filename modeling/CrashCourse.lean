import CrashCourse.Checker.Expiry
import CrashCourse.Checker.Guarantees
import CrashCourse.Checker.Witnesses
import CrashCourse.Cluster.Appends
import CrashCourse.Cluster.Capacity
import CrashCourse.Cluster.Deadlines
import CrashCourse.Cluster.Installs
import CrashCourse.Cluster.Quota
import CrashCourse.Cluster.Replies
import CrashCourse.Core.Bursts
import CrashCourse.KeyValue.Batches
import CrashCourse.KeyValue.Clocks
import CrashCourse.Raft.Bounds
import CrashCourse.Raft.Cuts
import CrashCourse.Raft.Rebuild
import CrashCourse.Raft.Runs
import CrashCourse.Resp.Connection
import CrashCourse.Resp.Scanning
import CrashCourse.Resp.Transactions
import CrashCourse.Storage.Deletions
import CrashCourse.WriteAhead.Crashes
