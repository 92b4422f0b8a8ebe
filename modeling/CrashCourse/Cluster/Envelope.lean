import CrashCourse.Core.Config
import CrashCourse.Core.Policy
import CrashCourse.KeyValue.Command

/-!
The envelope of a client command in the Raft log, and the limits of the policy on commands.
-/

namespace CrashCourse.Cluster
open CrashCourse.Core CrashCourse.KeyValue

-- `CCAP`, read as a little-endian `u32`.
def appEnvelopeMagic : Nat := 0x50414343
def appEnvelopeVersion : Nat := 1

structure AppEnvelope where
  session : Option (SessionKey × Nat)
  leaderTime : Nat
  command : Bytes
  deriving DecidableEq

/-- The session fields are laid out as in a configuration envelope. -/
def AppEnvelope.encode (envelope : AppEnvelope) : Bytes :=
  sealRecord
    (Enc.header appEnvelopeMagic appEnvelopeVersion
      ++ ConfigEnvelope.encodeSession envelope.session
      ++ Enc.u64 envelope.leaderTime
      ++ Enc.bytes envelope.command)

theorem AppEnvelope.encode_length (envelope : AppEnvelope) :
    envelope.encode.length = 40 + envelope.command.length := by
  simp only [AppEnvelope.encode, sealRecord, List.length_append, ConfigEnvelope.encodeSession_length,
    Enc.header, Enc.u16, Enc.u32, Enc.u64, Enc.bytes, leBytes, List.length_cons, List.length_nil]
  omega

def validateCommandPolicy (policy : ClusterPolicy) : KvCommand → Except KvError Unit
  | .batch commands => validateBatch commands policy.maxBatchCommands policy.maxBatchBytes
  | .op _ => .ok ()

end CrashCourse.Cluster
