import CrashCourse.Core.Policy
import CrashCourse.Core.Spans

/-!
The decoders of policies and memberships, and how long the bytes that they accept can be.
-/

namespace CrashCourse.Core

namespace ClusterPolicy

def recordLen : Nat := 138

def decodeBody : Decode ClusterPolicy := do
  Dec.header magic version
  let maxMembers ← Dec.u32
  let maxKeyBytes ← Dec.u64
  let maxValueBytes ← Dec.u64
  let maxLiveLogicalBytes ← Dec.u64
  let maxCommandBytes ← Dec.u64
  let maxReplyBytes ← Dec.u64
  let maxScanItems ← Dec.u32
  let maxLiveDeadlines ← Dec.u64
  let maxSessions ← Dec.u64
  let maxSessionBytes ← Dec.u64
  let maxSessionTombstones ← Dec.u64
  let sessionIdleNs ← Dec.u64
  let sessionRetryGraceNs ← Dec.u64
  let leaderTransferTimeoutNs ← Dec.u64
  let maxKeysPerExpirySweep ← Dec.u32
  let maxBatchCommands ← Dec.u32
  let maxBatchBytes ← Dec.u64
  let maxBatchReplyBytes ← Dec.u64
  Dec.finish
  return { maxMembers, maxKeyBytes, maxValueBytes, maxLiveLogicalBytes, maxCommandBytes, maxReplyBytes, maxScanItems
           maxLiveDeadlines, maxSessions, maxSessionBytes, maxSessionTombstones, sessionIdleNs, sessionRetryGraceNs
           leaderTransferTimeoutNs, maxKeysPerExpirySweep, maxBatchCommands, maxBatchBytes, maxBatchReplyBytes }

def decode (bytes : Bytes) : Except DecodeError ClusterPolicy :=
  if bytes.length < recordLen then .error (.unexpectedEof bytes.length (recordLen - bytes.length))
  else if bytes.length > recordLen then .error (.trailingBytes recordLen)
  else do
    let policy ← Dec.run decodeBody (← openRecord bytes)
    policy.validate
    return policy

theorem length_of_decode {policy : ClusterPolicy} {bytes : Bytes} (done : decode bytes = .ok policy) :
    bytes.length = recordLen := by
  unfold decode at done
  split_ifs at done
  omega

end ClusterPolicy

def decodeAddressesLoop : Nat → BTreeMap NodeId PeerAddress → Decode (BTreeMap NodeId PeerAddress)
  | 0, addresses => return addresses
  | count + 1, addresses => do
      let id ← decodeNonzeroId
      let address ← PeerAddress.decode
      if addresses.contains id then throw (.invalidTag ((← Dec.position) - 1) 0)
      decodeAddressesLoop count (addresses.insert id address)

def decodeJoint : Decode (Option JointMembership) := do
  match ← Dec.u8 with
  | 0 => return none
  | 1 =>
    let oldVoters ← decodeMemberSet false
    let newVoters ← decodeMemberSet false
    return some { oldVoters, newVoters, enterIndex := ← decodeNonzeroIndex }
  | tag => throw (.invalidTag ((← Dec.position) - 1) tag)

def decodeAddresses : Decode (BTreeMap NodeId PeerAddress) := do
  let count ← Dec.u32
  if count > maxPolicyMembers then
    throw (.lengthTooLarge ((← Dec.position) - 4) count maxPolicyMembers)
  decodeAddressesLoop count ∅

namespace MembershipState

def decodeVersion : Decode Nat := do
  let magic ← Dec.u32
  let version ← Dec.u16
  if magic ≠ membershipMagic then throw (.invalidMagic membershipMagic magic)
  if version ≠ 1 ∧ version ≠ membershipFormatVersion then
    throw (.invalidVersion membershipFormatVersion version)
  return version

def decodeFeatures (version : Nat) : Decode Nat := if version = 1 then return 0 else Dec.u64

def decodeBody : Decode MembershipState := do
  let version ← decodeVersion
  let voters ← decodeMemberSet false
  let learners ← decodeMemberSet true
  let joint ← decodeJoint
  let addresses ← decodeAddresses
  let activeFeatures ← decodeFeatures version
  Dec.finish
  return { voters, learners, joint, addresses, activeFeatures := UInt64.ofNat activeFeatures }

def decode (bytes : Bytes) : Except DecodeError MembershipState := do
  let state ← Dec.run decodeBody (← openRecord bytes)
  state.validate
  return state

end MembershipState

namespace Dec

theorem takes_nonzeroId : Takes 8 decodeNonzeroId :=
  (Takes.number 8).bind fun _ => .guard (fun _ _ => by rintro ⟨⟩) (.lift (.ok _))

theorem takes_nonzeroIndex : Takes 8 decodeNonzeroIndex :=
  (Takes.number 8).bind fun _ => .guard (fun _ _ => by rintro ⟨⟩) (.lift (.ok _))

theorem takes_ip (count : Nat) : Takes count (PeerAddress.decodeIp count) := by
  induction count with
  | zero => exact .lift (.ok _)
  | succ count ih =>
    have byte : Takes 1 Dec.u8 := .number 1
    exact (byte.bind fun _ => ih.bind fun _ => .lift (.ok _)).mono (by omega)

theorem takes_address : Takes 19 PeerAddress.decode := by
  have fields (tag : UInt8) : Takes 18 (PeerAddress.decodeFields tag) := by
    unfold PeerAddress.decodeFields
    split
    · exact ((takes_ip 4).bind fun _ => (Takes.number 2).bind fun _ => .lift (.ok _)).mono (by decide)
    · exact (takes_ip 16).bind fun _ => (Takes.number 2).bind fun _ => .lift (.ok _)
    · exact .of_fails fun _ _ => by rintro ⟨⟩
  exact (Takes.number 1).bind fun tag => (fields tag).bind fun _ => (Takes.lift _).bind fun _ => .lift (.ok _)

theorem takes_membersLoop (count : Nat) (members : BTreeSet NodeId) :
    Takes (8 * count) (decodeMembersLoop count members) := by
  induction count generalizing members with
  | zero => exact .lift (.ok _)
  | succ count ih =>
    rw [Nat.mul_succ, Nat.add_comm]
    exact takes_nonzeroId.bind fun id => .guard (fun _ _ => by rintro ⟨⟩) (ih _)

theorem takes_memberSet (allowEmpty : Bool) : Takes (4 + 32768) (decodeMemberSet allowEmpty) := by
  refine (Takes.number 4).bind fun count => ?_
  by_cases refused : ((!allowEmpty && count == 0) || count > maxPolicyMembers) = true
  · rw [if_pos refused]
    exact .of_fails fun _ _ => by rintro ⟨⟩
  rw [if_neg refused]
  rw [Bool.or_eq_true, not_or] at refused
  have few := Nat.not_lt.mp (mt decide_eq_true refused.2)
  unfold maxPolicyMembers at few
  exact (takes_membersLoop count ∅).mono (by omega)

theorem takes_addressesLoop (count : Nat) (addresses : BTreeMap NodeId PeerAddress) :
    Takes (27 * count) (decodeAddressesLoop count addresses) := by
  induction count generalizing addresses with
  | zero => exact .lift (.ok _)
  | succ count ih =>
    have size : 27 * (count + 1) = 8 + (19 + 27 * count) := by omega
    rw [size]
    refine takes_nonzeroId.bind fun id => takes_address.bind fun address => ?_
    exact .guard (fun _ _ => by rintro ⟨⟩) (ih _)

theorem takes_addresses : Takes (4 + 110592) decodeAddresses := by
  refine (Takes.number 4).bind fun count => ?_
  by_cases refused : count > maxPolicyMembers
  · rw [if_pos refused]
    exact .of_fails fun _ _ => by rintro ⟨⟩
  · rw [if_neg refused]
    unfold maxPolicyMembers at refused
    exact (takes_addressesLoop count ∅).mono (by omega)

theorem takes_joint : Takes (1 + 65552) decodeJoint := by
  refine (Takes.number 1).bind fun tag => ?_
  split
  · exact (Takes.lift (.ok _)).mono (by decide)
  · exact (takes_memberSet false).bind fun _ => (takes_memberSet false).bind fun _ =>
      takes_nonzeroIndex.bind fun _ => .lift (.ok _)
  · exact .of_fails fun _ _ => by rintro ⟨⟩

theorem takes_version : Takes 6 MembershipState.decodeVersion :=
  (Takes.number 4).bind fun _ => (Takes.number 2).bind fun _ => .guard (fun _ _ => by rintro ⟨⟩)
    (.guard (fun _ _ => by rintro ⟨⟩) (.lift (.ok _)))

theorem takes_features (version : Nat) : Takes 8 (MembershipState.decodeFeatures version) := by
  unfold MembershipState.decodeFeatures
  split
  · exact (Takes.lift (.ok _)).mono (by decide)
  · exact .number 8

theorem ends_membership : Ends 241707 MembershipState.decodeBody :=
  takes_version.bindEnds fun _ => (takes_memberSet false).bindEnds fun _ => (takes_memberSet true).bindEnds fun _ =>
    takes_joint.bindEnds fun _ => takes_addresses.bindEnds fun _ => (takes_features _).bindEnds fun _ =>
      ends_finish.bind _

end Dec

theorem MembershipState.length_of_decode {state : MembershipState} {bytes : Bytes} (done : decode bytes = .ok state) :
    bytes.length ≤ 300000 := by
  obtain ⟨body, opened, done⟩ := bind_ok_iff.mp done
  obtain ⟨found, read, -⟩ := bind_ok_iff.mp done
  obtain ⟨last, read⟩ := Dec.run_ok read
  have short : body.length ≤ 0 + 241707 := Dec.ends_membership _ _ _ read
  rw [openRecord_ok opened, List.length_take] at short
  omega

end CrashCourse.Core
