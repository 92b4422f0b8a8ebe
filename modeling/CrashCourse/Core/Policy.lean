import CrashCourse.Core.Codec

/-!
The limits that every member of a cluster agrees on. Durations are in nanoseconds.
-/

namespace CrashCourse.Core

structure ClusterPolicy where
  maxMembers : Nat
  maxKeyBytes : Nat
  maxValueBytes : Nat
  maxLiveLogicalBytes : Nat
  maxCommandBytes : Nat
  maxReplyBytes : Nat
  maxScanItems : Nat
  maxLiveDeadlines : Nat
  maxSessions : Nat
  maxSessionBytes : Nat
  maxSessionTombstones : Nat
  sessionIdleNs : Nat
  sessionRetryGraceNs : Nat
  leaderTransferTimeoutNs : Nat
  maxKeysPerExpirySweep : Nat
  maxBatchCommands : Nat
  maxBatchBytes : Nat
  maxBatchReplyBytes : Nat
  deriving DecidableEq, Repr

def maxPolicyDurationNs : Nat := 365 * 24 * 60 * 60 * 1000000000

namespace ClusterPolicy

def default : ClusterPolicy where
  maxMembers := 64
  maxKeyBytes := 4 * 1024
  maxValueBytes := 1024 * 1024
  maxLiveLogicalBytes := 1024 * 1024 * 1024
  maxCommandBytes := 2 * 1024 * 1024
  maxReplyBytes := 2 * 1024 * 1024
  maxScanItems := 4096
  maxLiveDeadlines := 1000000
  maxSessions := 100000
  maxSessionBytes := 64 * 1024 * 1024
  maxSessionTombstones := 100000
  sessionIdleNs := 30 * 60 * 1000000000
  sessionRetryGraceNs := 5 * 60 * 1000000000
  leaderTransferTimeoutNs := 15 * 1000000000
  maxKeysPerExpirySweep := 1024
  maxBatchCommands := 256
  maxBatchBytes := 2 * 1024 * 1024
  maxBatchReplyBytes := 2 * 1024 * 1024

def nonzero (policy : ClusterPolicy) : Bool :=
  policy.maxMembers != 0 && policy.maxKeyBytes != 0 && policy.maxValueBytes != 0
    && policy.maxLiveLogicalBytes != 0 && policy.maxCommandBytes != 0 && policy.maxReplyBytes != 0
    && policy.maxScanItems != 0 && policy.maxLiveDeadlines != 0 && policy.maxSessions != 0
    && policy.maxSessionBytes != 0 && policy.maxSessionTombstones != 0 && policy.sessionIdleNs != 0
    && policy.sessionRetryGraceNs != 0 && policy.leaderTransferTimeoutNs != 0
    && policy.maxKeysPerExpirySweep != 0 && policy.maxBatchCommands != 0
    && policy.maxBatchBytes != 0 && policy.maxBatchReplyBytes != 0

def coherent (policy : ClusterPolicy) : Bool :=
  policy.maxBatchBytes ≤ policy.maxCommandBytes
    && policy.maxBatchReplyBytes ≤ policy.maxReplyBytes
    && policy.maxKeyBytes ≤ policy.maxCommandBytes
    && policy.maxValueBytes ≤ policy.maxCommandBytes
    && policy.maxSessionBytes ≤ policy.maxLiveLogicalBytes

def hardBounded (policy : ClusterPolicy) : Bool :=
  policy.maxMembers ≤ 4096
    && policy.maxKeyBytes ≤ maxCodecBytes
    && policy.maxValueBytes ≤ maxCodecBytes
    && policy.maxCommandBytes ≤ maxCodecBytes
    && policy.maxReplyBytes ≤ maxCodecBytes
    && policy.maxBatchBytes ≤ maxCodecBytes
    && policy.maxBatchReplyBytes ≤ maxCodecBytes
    && policy.maxLiveLogicalBytes ≤ 2 ^ 40
    && policy.maxScanItems ≤ 1000000
    && policy.maxLiveDeadlines ≤ 10000000
    && policy.maxSessions ≤ 1000000
    && policy.maxSessionBytes ≤ 2 ^ 30
    && policy.maxSessionTombstones ≤ 1000000
    && policy.sessionIdleNs ≤ maxPolicyDurationNs
    && policy.sessionRetryGraceNs ≤ maxPolicyDurationNs
    && policy.leaderTransferTimeoutNs ≤ maxPolicyDurationNs
    && policy.maxKeysPerExpirySweep ≤ 1000000
    && policy.maxBatchCommands ≤ 65536

def validate (policy : ClusterPolicy) : Except DecodeError Unit :=
  if policy.nonzero && policy.coherent && policy.hardBounded then .ok ()
  else .error (.invalidTag 0 0)

example : validate default = .ok () := by decide

-- `CCPL`, read as a little-endian `u32`.
def magic : Nat := leNat [0x43, 0x43, 0x50, 0x4c]
def version : Nat := 1

def encode (policy : ClusterPolicy) : Bytes :=
  sealRecord
    (Enc.header magic version
      ++ Enc.u32 policy.maxMembers
      ++ Enc.u64 policy.maxKeyBytes
      ++ Enc.u64 policy.maxValueBytes
      ++ Enc.u64 policy.maxLiveLogicalBytes
      ++ Enc.u64 policy.maxCommandBytes
      ++ Enc.u64 policy.maxReplyBytes
      ++ Enc.u32 policy.maxScanItems
      ++ Enc.u64 policy.maxLiveDeadlines
      ++ Enc.u64 policy.maxSessions
      ++ Enc.u64 policy.maxSessionBytes
      ++ Enc.u64 policy.maxSessionTombstones
      ++ Enc.u64 policy.sessionIdleNs
      ++ Enc.u64 policy.sessionRetryGraceNs
      ++ Enc.u64 policy.leaderTransferTimeoutNs
      ++ Enc.u32 policy.maxKeysPerExpirySweep
      ++ Enc.u32 policy.maxBatchCommands
      ++ Enc.u64 policy.maxBatchBytes
      ++ Enc.u64 policy.maxBatchReplyBytes)

def hash (policy : ClusterPolicy) : UInt64 := fnv1a policy.encode

end ClusterPolicy
end CrashCourse.Core
