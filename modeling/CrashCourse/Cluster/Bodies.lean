import CrashCourse.Cluster.CcsnDecode

/-!
The bodies of a checkpoint's records are small: each decoder ends with the body, and
takes no more than its fields can have.
-/

namespace CrashCourse.Cluster
open CrashCourse.Core CrashCourse.Raft CrashCourse.Core.Dec

section Fields
variable {α : Type} {most : Nat}

theorem takes_field {decoder : Decode α} (takes : Takes most decoder) (reason : String) :
    Takes most (ccsnField reason decoder) := fun _ _ _ done => takes _ _ _ (mapError_ok_iff.mp done)

theorem finish_field (reason : String) : Ends 0 (ccsnField reason Dec.finish) :=
  fun _ _ _ done => ends_finish _ _ _ (mapError_ok_iff.mp done)

theorem ends_run {decoder : CcsnDecode α} (ends : Ends most decoder) {body : Bytes} {value : α}
    (done : decoder.run body = .ok value) : body.length ≤ most := by
  unfold CcsnDecode.run at done
  cases read : decoder (Dec.new body) with
  | error error =>
    rw [read] at done
    cases done
  | ok pair => simpa [Dec.new] using ends _ _ _ read

end Fields

theorem takes_u8 (reason : String) : Takes 1 (ccsnField reason Dec.u8) := takes_field (.number 1) reason
theorem takes_u64 (reason : String) : Takes 8 (ccsnField reason Dec.u64) := takes_field (.number 8) reason

theorem takes_bytes (reason : String) : Takes (4 + maxCodecBytes) (ccsnField reason Dec.bytesField) :=
  takes_field .bytesField reason

theorem takes_owner (reason identity : String) : Takes 9 (decodeCcsnOwner reason identity) :=
  (takes_u8 reason).bind fun _ => (takes_u64 reason).bind fun _ => Takes.lift _

theorem ends_key (storeSequence lastLeaderTime : Nat) :
    Ends (2 * maxCodecBytes + 25) (decodeCcsnKey storeSequence lastLeaderTime) :=
  (takes_bytes _).bindEnds fun _ => (takes_u64 _).bindEnds fun _ => (takes_bytes _).bindEnds fun _ =>
    (takes_u8 _).bindEnds fun _ => (takes_u64 _).bindEnds fun _ => (finish_field _).bind _

theorem ends_session : Ends (2 * maxCodecBytes + 33) decodeCcsnSession :=
  (takes_owner _ _).bindEnds fun _ => (takes_u64 _).bindEnds fun _ => (takes_u64 _).bindEnds fun _ =>
    (takes_bytes _).bindEnds fun _ => (takes_bytes _).bindEnds fun _ => (finish_field _).bind _

theorem ends_tombstone : Ends 25 decodeCcsnTombstone :=
  (takes_owner _ _).bindEnds fun _ => (takes_u64 _).bindEnds fun _ => (takes_u64 _).bindEnds fun _ =>
    (finish_field _).bind _

theorem ends_transfer (index : Nat) : Ends 43 (decodeCcsnTransfer index) :=
  (takes_u64 _).bindEnds fun _ => (takes_u64 _).bindEnds fun _ => (takes_u64 _).bindEnds fun _ =>
    (takes_u8 _).bindEnds fun _ => (Takes.lift _).bindEnds fun _ => (takes_u8 _).bindEnds fun _ =>
    (takes_u8 _).bindEnds fun _ => (takes_u64 _).bindEnds fun _ => (takes_u64 _).bindEnds fun _ => (finish_field _).bind _

theorem record_small {header : CcsnHeader} {builder next : CcsnBuilder} {tag : UInt8} {body : Bytes}
    (done : builder.record header body tag = .ok next) : body.length ≤ maxCcsnRecordBytes := by
  have codec : maxCodecBytes = 4194304 := rfl
  have limit : maxCcsnRecordBytes = 16777216 := rfl
  unfold CcsnBuilder.record at done
  split_ifs at done
  · obtain ⟨state, decoded, -⟩ := bind_ok_iff.mp done
    have short := MembershipState.length_of_decode (mapError_ok_iff.mp decoded)
    omega
  · obtain ⟨policy, decoded, -⟩ := bind_ok_iff.mp done
    rw [ClusterPolicy.length_of_decode (mapError_ok_iff.mp decoded)]
    decide
  · obtain ⟨transfer, decoded, -⟩ := bind_ok_iff.mp done
    have short := ends_run (ends_transfer _) decoded
    omega
  · obtain ⟨entry, decoded, -⟩ := bind_ok_iff.mp done
    have short := ends_run (ends_key _ _) decoded
    omega
  · obtain ⟨session, decoded, -⟩ := bind_ok_iff.mp done
    have short := ends_run ends_session decoded
    omega
  · obtain ⟨tombstone, decoded, -⟩ := bind_ok_iff.mp done
    have short := ends_run ends_tombstone decoded
    omega

end CrashCourse.Cluster
