import CrashCourse.Core.Codec

/-!
Configuration values of `cc-core`: peer addresses, membership images and the CCCF
envelope of one configuration operation.
-/

namespace CrashCourse.Core

inductive PeerAddress where
  | v4 (ip : List.Vector UInt8 4) (port : UInt16)
  | v6 (ip : List.Vector UInt8 16) (port : UInt16)
  deriving DecidableEq

namespace PeerAddress

def ipBytes : PeerAddress → Bytes
  | v4 ip _ => ip.toList
  | v6 ip _ => ip.toList

def port : PeerAddress → UInt16
  | v4 _ port => port
  | v6 _ port => port

def multicast : PeerAddress → Bool
  | v4 ip _ => ip.head &&& 0xf0 == 0xe0
  | v6 ip _ => ip.head == 0xff

def v4MappedV6 : PeerAddress → Bool
  | v4 _ _ => false
  | v6 ip _ => (ip.toList.take 10).all (· == 0) && (ip.toList.drop 10).take 2 == [0xff, 0xff]

def validate (address : PeerAddress) : Except DecodeError Unit :=
  if address.port == 0 || address.ipBytes.all (· == 0) || address.multicast || address.v4MappedV6
  then .error (.invalidTag 0 0)
  else .ok ()

def encode : PeerAddress → Bytes
  | v4 ip port => Enc.u8 1 ++ ip.toList ++ Enc.u16 port.toNat
  | v6 ip port => Enc.u8 2 ++ ip.toList ++ Enc.u16 port.toNat

def decodeIp : (count : Nat) → Decode (List.Vector UInt8 count)
  | 0 => return List.Vector.nil
  | count + 1 => do
      let byte ← Dec.u8
      return List.Vector.cons byte (← decodeIp count)

def decodeFields (tag : UInt8) : Decode PeerAddress :=
  match tag with
  | 1 => do
      let ip ← decodeIp 4
      return v4 ip (UInt16.ofNat (← Dec.u16))
  | 2 => do
      let ip ← decodeIp 16
      return v6 ip (UInt16.ofNat (← Dec.u16))
  | tag => do throw (.invalidTag ((← Dec.position) - 1) tag)

def decode : Decode PeerAddress := do
  let address ← decodeFields (← Dec.u8)
  address.validate
  return address

end PeerAddress

structure JointMembership where
  oldVoters : BTreeSet NodeId
  newVoters : BTreeSet NodeId
  enterIndex : Nat
  deriving DecidableEq

structure MembershipState where
  voters : BTreeSet NodeId
  learners : BTreeSet NodeId
  joint : Option JointMembership
  addresses : BTreeMap NodeId PeerAddress
  activeFeatures : UInt64
  deriving DecidableEq

def atomicBatchFeature : UInt64 := 2

def maxPolicyMembers : Nat := 4096

namespace MembershipState

def validate (state : MembershipState) : Except DecodeError Unit := do
  if state.voters.isEmpty || state.voters.any (· == 0) || state.learners.any (· == 0)
      || state.voters.any state.learners.contains
      || state.voters.size + state.learners.size > 4096
      || (state.activeFeatures &&& ~~~ atomicBatchFeature) != 0 then
    throw (.invalidTag 0 0)
  for (id, address) in state.addresses.toList do
    if id == 0 || (!state.voters.contains id && !state.learners.contains id) then
      throw (.invalidTag 0 0)
    address.validate
  match state.joint with
  | none => return ()
  | some joint =>
    if joint.oldVoters.isEmpty || joint.newVoters.isEmpty || joint.enterIndex == 0
        || !joint.oldVoters.all state.voters.contains
        || !joint.newVoters.all state.voters.contains then
      throw (.invalidTag 0 0)

end MembershipState

inductive TransferResult where
  | success | timeout | superseded
  deriving DecidableEq, Repr

namespace TransferResult

def tag : TransferResult → UInt8
  | success => 1
  | timeout => 2
  | superseded => 3

def decode (tag : UInt8) : Except DecodeError TransferResult :=
  match tag with
  | 1 => .ok success
  | 2 => .ok timeout
  | 3 => .ok superseded
  | tag => .error (.invalidTag 0 tag)

end TransferResult

inductive ConfigOperation where
  | addLearner (id : NodeId) (address : Option PeerAddress)
  | removeLearner (id : NodeId)
  | updateAddress (id : NodeId) (address : PeerAddress)
  | enterJoint (newVoters : BTreeSet NodeId)
  | leaveJoint (enterIndex : Nat)
  | beginLeaderTransfer (target : NodeId)
  | finishLeaderTransfer (intentIndex : Nat) (result : TransferResult)
  | activateFeature (feature : UInt64)
  deriving DecidableEq

def encodeOptionalAddress : Option PeerAddress → Bytes
  | some address => Enc.u8 1 ++ address.encode
  | none => Enc.u8 0

def decodeOptionalAddress : Decode (Option PeerAddress) := do
  match ← Dec.u8 with
  | 0 => return none
  | 1 => return some (← PeerAddress.decode)
  | tag => throw (.invalidTag ((← Dec.position) - 1) tag)

def encodeMemberSet (members : BTreeSet NodeId) : Bytes :=
  Enc.u32 members.size ++ members.toList.flatMap fun member => Enc.u64 member.toNat

-- `CCMS`, read as a little-endian `u32`.
def membershipMagic : Nat := leNat [0x43, 0x43, 0x4d, 0x53]
def membershipFormatVersion : Nat := 2

def MembershipState.encode (state : MembershipState) : Except DecodeError Bytes := do
  state.validate
  return sealRecord
    (Enc.header membershipMagic membershipFormatVersion
      ++ encodeMemberSet state.voters
      ++ encodeMemberSet state.learners
      ++ (match state.joint with
        | none => Enc.u8 0
        | some joint =>
          Enc.u8 1 ++ encodeMemberSet joint.oldVoters ++ encodeMemberSet joint.newVoters
            ++ Enc.u64 joint.enterIndex)
      ++ Enc.u32 state.addresses.size
      ++ state.addresses.toList.flatMap (fun entry => Enc.u64 entry.1.toNat ++ entry.2.encode)
      ++ Enc.u64 state.activeFeatures.toNat)

def decodeNonzeroId : Decode NodeId := do
  let id := UInt64.ofNat (← Dec.u64)
  if id = 0 then throw (.invalidTag ((← Dec.position) - 8) 0)
  return id

def decodeNonzeroIndex : Decode Nat := do
  let index ← Dec.u64
  if index = 0 then throw (.invalidTag ((← Dec.position) - 8) 0)
  return index

def decodeMembersLoop : Nat → BTreeSet NodeId → Decode (BTreeSet NodeId)
  | 0, members => return members
  | count + 1, members => do
      let id ← decodeNonzeroId
      if members.contains id then throw (.invalidTag ((← Dec.position) - 8) 0)
      decodeMembersLoop count (members.insert id)

def decodeMemberSet (allowEmpty : Bool) : Decode (BTreeSet NodeId) := do
  let count ← Dec.u32
  if (!allowEmpty && count == 0) || count > maxPolicyMembers then
    throw (.lengthTooLarge ((← Dec.position) - 4) count maxPolicyMembers)
  decodeMembersLoop count ∅

namespace ConfigOperation

def tag : ConfigOperation → UInt8
  | addLearner .. => 1
  | removeLearner .. => 2
  | updateAddress .. => 3
  | enterJoint .. => 4
  | leaveJoint .. => 5
  | beginLeaderTransfer .. => 6
  | finishLeaderTransfer .. => 7
  | activateFeature .. => 8

def encodeBody : ConfigOperation → Bytes
  | addLearner id address => Enc.u64 id.toNat ++ encodeOptionalAddress address
  | removeLearner id => Enc.u64 id.toNat
  | updateAddress id address => Enc.u64 id.toNat ++ address.encode
  | enterJoint newVoters => encodeMemberSet newVoters
  | leaveJoint enterIndex => Enc.u64 enterIndex
  | beginLeaderTransfer target => Enc.u64 target.toNat
  | finishLeaderTransfer intentIndex result => Enc.u64 intentIndex ++ Enc.u8 result.tag
  | activateFeature feature => Enc.u64 feature.toNat

def decodeBody (tag : UInt8) : Decode ConfigOperation :=
  match tag with
  | 1 => do
      let id ← decodeNonzeroId
      return addLearner id (← decodeOptionalAddress)
  | 2 => return removeLearner (← decodeNonzeroId)
  | 3 => do
      let id ← decodeNonzeroId
      return updateAddress id (← PeerAddress.decode)
  | 4 => return enterJoint (← decodeMemberSet false)
  | 5 => return leaveJoint (← decodeNonzeroIndex)
  | 6 => return beginLeaderTransfer (← decodeNonzeroId)
  | 7 => do
      let intentIndex ← decodeNonzeroIndex
      return finishLeaderTransfer intentIndex (← TransferResult.decode (← Dec.u8))
  | 8 => do
      let feature := UInt64.ofNat (← Dec.u64)
      if feature ≠ atomicBatchFeature then throw (.invalidTag ((← Dec.position) - 8) 8)
      return activateFeature feature
  | tag => throw (.invalidTag 0 tag)

def decode (tag : UInt8) (body : Bytes) : Except DecodeError ConfigOperation :=
  Dec.run (do
    let operation ← decodeBody tag
    Dec.finish
    return operation) body

theorem decodeBody_tag {tag : UInt8} {dec last : Dec} {operation : ConfigOperation}
    (done : decodeBody tag dec = .ok (operation, last)) : operation.tag = tag := by
  unfold decodeBody at done
  split at done
  · obtain ⟨_, _, _, done⟩ := Dec.bind_ok done
    obtain ⟨_, _, _, done⟩ := Dec.bind_ok done
    obtain ⟨rfl, _⟩ := Dec.pure_ok done
    rfl
  · obtain ⟨_, _, _, done⟩ := Dec.bind_ok done
    obtain ⟨rfl, _⟩ := Dec.pure_ok done
    rfl
  · obtain ⟨_, _, _, done⟩ := Dec.bind_ok done
    obtain ⟨_, _, _, done⟩ := Dec.bind_ok done
    obtain ⟨rfl, _⟩ := Dec.pure_ok done
    rfl
  · obtain ⟨_, _, _, done⟩ := Dec.bind_ok done
    obtain ⟨rfl, _⟩ := Dec.pure_ok done
    rfl
  · obtain ⟨_, _, _, done⟩ := Dec.bind_ok done
    obtain ⟨rfl, _⟩ := Dec.pure_ok done
    rfl
  · obtain ⟨_, _, _, done⟩ := Dec.bind_ok done
    obtain ⟨rfl, _⟩ := Dec.pure_ok done
    rfl
  · obtain ⟨_, _, _, done⟩ := Dec.bind_ok done
    obtain ⟨_, _, _, done⟩ := Dec.bind_ok done
    obtain ⟨_, _, _, done⟩ := Dec.bind_ok done
    obtain ⟨rfl, _⟩ := Dec.pure_ok done
    rfl
  · obtain ⟨_, _, _, done⟩ := Dec.bind_ok done
    dsimp only at done
    split at done
    · obtain ⟨_, _, _, done⟩ := Dec.bind_ok done
      cases done
    · obtain ⟨rfl, _⟩ := Dec.pure_ok done
      rfl
  · cases done

theorem decode_tag {tag : UInt8} {body : Bytes} {operation : ConfigOperation}
    (done : decode tag body = .ok operation) : operation.tag = tag := by
  obtain ⟨last, done⟩ := Dec.run_ok done
  obtain ⟨_, _, first, done⟩ := Dec.bind_ok done
  obtain ⟨_, _, _, done⟩ := Dec.bind_ok done
  obtain ⟨rfl, _⟩ := Dec.pure_ok done
  exact decodeBody_tag first

end ConfigOperation

inductive SessionNamespace where
  | userRequest | adminRequest
  deriving DecidableEq, Repr

def SessionNamespace.code : SessionNamespace → UInt8
  | userRequest => 0
  | adminRequest => 1

structure SessionKey where
  namespaceCode : UInt8
  client : ClientId
  deriving DecidableEq, Repr

def SessionKey.new (namespaceCode : UInt8) (client : ClientId) : Except DecodeError SessionKey :=
  if namespaceCode > SessionNamespace.adminRequest.code || client == 0 then
    .error (.invalidTag 0 namespaceCode)
  else .ok ⟨namespaceCode, client⟩

structure ConfigEnvelope where
  adminSession : Option (SessionKey × Nat)
  leaderTime : Nat
  operation : ConfigOperation
  deriving DecidableEq

-- A magic is its ASCII word, here `CCCF`, read as a little-endian `u32`.
def configEnvelopeMagic : Nat := leNat [0x43, 0x43, 0x43, 0x46]
def configFormatVersion : Nat := 1

namespace ConfigEnvelope

def encodeSession : Option (SessionKey × Nat) → Bytes
  | some (key, sequence) =>
    Enc.u8 1 ++ Enc.u8 key.namespaceCode ++ Enc.u64 key.client.toNat ++ Enc.u64 sequence
  | none => Enc.u8 0 ++ Enc.u8 0 ++ Enc.u64 0 ++ Enc.u64 0

def encode (envelope : ConfigEnvelope) : Bytes :=
  sealRecord
    (Enc.header configEnvelopeMagic configFormatVersion
      ++ encodeSession envelope.adminSession
      ++ Enc.u64 envelope.leaderTime
      ++ Enc.u8 envelope.operation.tag
      ++ Enc.bytes envelope.operation.encodeBody)

def decodeSession : Decode (Option (SessionKey × Nat)) := do
  let hasSession ← Dec.u8
  let namespaceCode ← Dec.u8
  let client ← Dec.u64
  let sequence ← Dec.u64
  if hasSession = 0 ∧ namespaceCode = 0 ∧ UInt64.ofNat client = 0 ∧ sequence = 0 then return none
  else if hasSession = 1 ∧ namespaceCode = SessionNamespace.adminRequest.code ∧ sequence ≠ 0 then
    return some (← SessionKey.new namespaceCode (UInt64.ofNat client), sequence)
  else throw (.invalidTag 6 hasSession)

def decodeBody : Decode ConfigEnvelope := do
  Dec.header configEnvelopeMagic configFormatVersion
  let adminSession ← decodeSession
  let leaderTime ← Dec.u64
  let tag ← Dec.u8
  let operation ← ConfigOperation.decode tag (← Dec.bytesField)
  Dec.finish
  return { adminSession, leaderTime, operation }

def decode (bytes : Bytes) : Except DecodeError ConfigEnvelope := do
  Dec.run decodeBody (← openRecord bytes)

/-! The tag of an operation survives the codec. -/

theorem encodeSession_length (session : Option (SessionKey × Nat)) : (encodeSession session).length = 18 := by
  cases session <;> simp [encodeSession, Enc.u8, Enc.u64, leBytes]

theorem encode_tag (envelope : ConfigEnvelope) : envelope.encode[32]? = some envelope.operation.tag := by
  have header : (Enc.header configEnvelopeMagic configFormatVersion
      ++ encodeSession envelope.adminSession ++ Enc.u64 envelope.leaderTime).length = 32 := by
    simp [encodeSession_length, Enc.header, Enc.u32, Enc.u16, Enc.u64, leBytes]
  unfold encode sealRecord
  rw [List.append_assoc, List.append_assoc, List.getElem?_append_right header.le, header]
  rfl

theorem decodeSession_ok {dec last : Dec} {session : Option (SessionKey × Nat)}
    (done : decodeSession dec = .ok (session, last)) : last = ⟨dec.bytes, dec.offset + 18⟩ := by
  obtain ⟨hasSession, _, first, done⟩ := Dec.bind_ok done
  obtain ⟨_, rfl⟩ := Dec.u8_ok first
  obtain ⟨namespaceCode, _, second, done⟩ := Dec.bind_ok done
  obtain ⟨_, rfl⟩ := Dec.u8_ok second
  obtain ⟨client, _, third, done⟩ := Dec.bind_ok done
  obtain rfl := Dec.number_ok third
  obtain ⟨sequence, _, fourth, done⟩ := Dec.bind_ok done
  obtain rfl := Dec.number_ok fourth
  split at done
  · exact (Dec.pure_ok done).2
  split at done
  · obtain ⟨key, middle, lifted, done⟩ := Dec.bind_ok done
    obtain ⟨_, rfl⟩ := Dec.pure_ok done
    exact (Dec.lift_ok lifted).2
  · cases done

theorem decodeBody_tag {bytes : Bytes} {envelope : ConfigEnvelope} {last : Dec}
    (done : decodeBody (Dec.new bytes) = .ok (envelope, last)) : bytes[32]? = some envelope.operation.tag := by
  obtain ⟨_, _, header, done⟩ := Dec.bind_ok done
  obtain rfl := Dec.header_ok header
  obtain ⟨session, _, fields, done⟩ := Dec.bind_ok done
  obtain rfl := decodeSession_ok fields
  obtain ⟨leaderTime, _, time, done⟩ := Dec.bind_ok done
  obtain rfl := Dec.number_ok time
  obtain ⟨tag, _, tagged, done⟩ := Dec.bind_ok done
  obtain ⟨here, rfl⟩ := Dec.u8_ok tagged
  obtain ⟨body, middle, field, done⟩ := Dec.bind_ok done
  obtain ⟨operation, _, lifted, rest⟩ := Dec.bind_ok done
  obtain ⟨_, _, _, ended⟩ := Dec.bind_ok rest
  obtain ⟨rfl, _⟩ := Dec.pure_ok ended
  rw [ConfigOperation.decode_tag (Dec.lift_ok lifted).1]
  exact here

theorem decode_tag {bytes : Bytes} {envelope : ConfigEnvelope}
    (done : decode bytes = .ok envelope) : bytes[32]? = some envelope.operation.tag := by
  unfold decode at done
  cases opened : openRecord bytes with
  | error error => rw [opened] at done; cases done
  | ok body =>
  rw [opened] at done
  obtain ⟨last, done⟩ := Dec.run_ok done
  have here := decodeBody_tag done
  obtain rfl := openRecord_ok opened
  rw [List.getElem?_take] at here
  split at here
  · exact here
  · cases here

theorem decode_encode_tag {envelope decoded : ConfigEnvelope}
    (done : decode envelope.encode = .ok decoded) : decoded.operation.tag = envelope.operation.tag := by
  have here := decode_tag done
  rw [encode_tag] at here
  exact (Option.some.inj here).symm

end ConfigEnvelope
end CrashCourse.Core
