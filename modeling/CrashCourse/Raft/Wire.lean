import CrashCourse.Core.Spans
import CrashCourse.Raft.Node

/-!
How a Raft message travels: the CCRP record of `cc-raft`, the CCPF frame of `cc-env`
around it, and both decoders.
-/

namespace CrashCourse.Raft
open CrashCourse.Core

-- The magics are the ASCII words `CCRP` and `CCPF`, read as little-endian `u32`.
def ccrpMagic : Nat := 0x50524343
def ccrpFormatVersion : Nat := 1
def maxEntries : Nat := 64
def minEntryV2Bytes : Nat := 8 + 8 + 1 + 4
def minEntryV3Bytes : Nat := 8 + 8 + 2 + 8 + 1 + 4

inductive CodecError where
  | decode (error : DecodeError)
  | unsupportedSemantic (version : Nat)
  | invalid (reason : String)
  | tooLarge (what : String)
  deriving DecidableEq, Repr

def boolByte (value : Bool) : UInt8 := if value then 1 else 0

inductive BaseKind where
  | app | noop | config
  deriving DecidableEq, Repr

def BaseKind.tag : BaseKind → UInt8
  | app => 1
  | noop => 2
  | config => 3

def entryV3Fields : EntryKind → Nat × Nat × BaseKind
  | .app => (protocolVersion, 0, .app)
  | .noop => (protocolVersion, 0, .noop)
  | .config => (protocolVersion, 0, .config)
  | .appV3 => (semanticVersionV3, atomicBatchFeature.toNat, .app)
  | .configV3 => (semanticVersionV3, 0, .config)

def decodeEntryKind (base : BaseKind) (minimum requiredFeatures : Nat) : Except CodecError EntryKind :=
  if minimum = protocolVersion ∧ requiredFeatures = 0 then
    match base with
    | .app => .ok .app
    | .noop => .ok .noop
    | .config => .ok .config
  else if base = .app ∧ minimum = semanticVersionV3 ∧ requiredFeatures = atomicBatchFeature.toNat then
    .ok .appV3
  else if base = .config ∧ minimum = semanticVersionV3 ∧ requiredFeatures = 0 then .ok .configV3
  else .error (.invalid "entry semantic requirements")

def encodeEntry (entry : Entry) (semantic : Nat) : Except CodecError Bytes :=
  if entry.index = 0 ∨ entry.payload.length > maxCodecBytes then .error (.tooLarge "entry")
  else
    let (minimum, requiredFeatures, kind) := entryV3Fields entry.kind
    if semantic ≥ semanticVersionV3 then
      .ok (Enc.u64 entry.term ++ (Enc.u64 entry.index ++ ((Enc.u16 minimum ++ Enc.u64 requiredFeatures)
        ++ (Enc.u8 kind.tag ++ Enc.bytes entry.payload))))
    else if minimum > semantic ∨ requiredFeatures ≠ 0 then .error (.unsupportedSemantic semantic)
    else
      .ok (Enc.u64 entry.term ++ (Enc.u64 entry.index
        ++ ([] ++ (Enc.u8 kind.tag ++ Enc.bytes entry.payload))))

def encodeEntries (semantic : Nat) : List Entry → Except CodecError Bytes
  | [] => .ok []
  | entry :: rest => do
      let first ← encodeEntry entry semantic
      return first ++ (← encodeEntries semantic rest)

def SnapshotRejectReason.tag : SnapshotRejectReason → UInt8
  | restartFromZero => 1
  | gap => 2
  | conflict => 3
  | tooLarge => 4
  | staleTerm => 5
  | corrupt => 6

def SnapshotRejectReason.decode : UInt8 → Option SnapshotRejectReason
  | 1 => some restartFromZero
  | 2 => some gap
  | 3 => some conflict
  | 4 => some tooLarge
  | 5 => some staleTerm
  | 6 => some corrupt
  | _ => none

def SnapshotRejectReason.resumes : SnapshotRejectReason → Bool
  | restartFromZero | gap => true
  | _ => false

def encodeKind (protoVersion : Nat) : MessageKind → Except CodecError Bytes
  | .preVoteReq lastIndex lastTerm => .ok (Enc.u8 1 ++ Enc.u64 lastIndex ++ Enc.u64 lastTerm)
  | .preVoteResp granted => .ok (Enc.u8 2 ++ Enc.u8 (boolByte granted))
  | .voteReq lastIndex lastTerm => .ok (Enc.u8 3 ++ Enc.u64 lastIndex ++ Enc.u64 lastTerm)
  | .voteResp granted => .ok (Enc.u8 4 ++ Enc.u8 (boolByte granted))
  | .appendReq request =>
    if request.entries.length > maxEntries then .error (.tooLarge "entry count")
    else do
      let entries ← encodeEntries protoVersion request.entries
      return Enc.u8 5 ++ (Enc.u64 request.prevIndex ++ (Enc.u64 request.prevTerm
        ++ (Enc.u64 request.leaderCommit ++ (Enc.u64 request.readRound
        ++ (Enc.u32 request.entries.length ++ entries)))))
  | .appendResp response =>
    if response.success ∧ response.conflictTerm.isSome then
      .error (.invalid "successful append conflict")
    else if response.success ∧ response.conflictIndex ≠ 0 then
      .error (.invalid "successful append conflict index")
    else
      .ok (Enc.u8 6 ++ Enc.u8 (boolByte response.success) ++ Enc.u64 response.matchIndex
        ++ Enc.u8 (boolByte response.conflictTerm.isSome) ++ Enc.u64 (response.conflictTerm.getD 0)
        ++ Enc.u64 response.conflictIndex ++ Enc.u64 response.readRound)
  | .snapshotChunk chunk =>
    if chunk.transferId = 0 ∨ chunk.totalLen = 0 ∨ chunk.data.isEmpty
        ∨ chunk.data.length > snapshotChunkBytes then
      .error (.tooLarge "snapshot chunk")
    else if chunk.offset + chunk.data.length > u64Max then .error (.invalid "snapshot size overflow")
    else
      let stop := chunk.offset + chunk.data.length
      if stop > chunk.totalLen ∨ chunk.done ≠ (stop == chunk.totalLen) then
        .error (.invalid "snapshot chunk final offset")
      else
        .ok (Enc.u8 7 ++ Enc.u64 chunk.transferId ++ Enc.u64 chunk.lastIncludedIndex
          ++ Enc.u64 chunk.lastIncludedTerm ++ Enc.u64 chunk.totalLen
          ++ Enc.u32 chunk.snapshotCrc32c.toNat ++ Enc.u64 chunk.offset ++ Enc.u8 (boolByte chunk.done)
          ++ Enc.u32 (crc32c chunk.data).toNat ++ Enc.bytes chunk.data)
  | .snapshotAck transferId nextOffset accepted reason =>
    if transferId = 0 ∨ (accepted ∧ reason.isSome) ∨ (!accepted ∧ reason.isNone) then
      .error (.invalid "snapshot ack canonicality")
    else if !accepted ∧ !reason.any SnapshotRejectReason.resumes ∧ nextOffset ≠ 0 then
      .error (.invalid "snapshot rejection offset")
    else
      .ok (Enc.u8 8 ++ Enc.u64 transferId ++ Enc.u64 nextOffset ++ Enc.u8 (boolByte accepted)
        ++ Enc.u8 ((reason.map SnapshotRejectReason.tag).getD 0))
  | .timeoutNow intentIndex =>
    if intentIndex = 0 then .error (.invalid "zero transfer intent")
    else .ok (Enc.u8 9 ++ Enc.u64 intentIndex)
  | .followerReadRequest requestId commandHash =>
    if protoVersion ≠ semanticVersionV3 ∨ requestId = 0 then
      .error (.invalid "follower read request semantic or id")
    else .ok (Enc.u8 10 ++ Enc.u64 requestId ++ Enc.u64 commandHash)
  | .followerReadGrant requestId commandHash readIndex readTime =>
    if protoVersion ≠ semanticVersionV3 ∨ requestId = 0 then
      .error (.invalid "follower read grant semantic or id")
    else
      .ok (Enc.u8 11 ++ Enc.u64 requestId ++ Enc.u64 commandHash ++ Enc.u64 readIndex
        ++ Enc.u64 readTime)

def encode (message : Message) : Except CodecError Bytes :=
  if !supportsProtocolVersion message.protoVersion || message.sender == 0 || message.target == 0
      || message.sender == message.target then
    .error (.invalid "message identity or semantic version")
  else do
    let kind ← encodeKind message.protoVersion message.kind
    return Enc.header ccrpMagic ccrpFormatVersion ++ (Enc.u16 message.protoVersion
      ++ (Enc.u64 message.sender.toNat ++ (Enc.u64 message.target.toNat
      ++ (Enc.u64 message.term ++ kind))))

abbrev WireDecode := StateT Dec (Except CodecError)

def field {α : Type} (decoder : Decode α) : WireDecode α :=
  fun dec => (decoder dec).mapError .decode

def decodeBool : WireDecode Bool := do
  match ← field Dec.u8 with
  | 0 => return false
  | 1 => return true
  | _ => throw (.invalid "noncanonical boolean")

def nonzeroNode : WireDecode NodeId := do
  let id := UInt64.ofNat (← field Dec.u64)
  if id = 0 then throw (.invalid "zero node id")
  return id

def decodeBaseKind : WireDecode BaseKind := do
  match ← field Dec.u8 with
  | 1 => return .app
  | 2 => return .noop
  | 3 => return .config
  | tag => throw (.decode (.invalidTag ((← get).offset - 1) tag))

def decodeRequirements (semantic : Nat) : WireDecode (Nat × Nat) := do
  if semantic ≥ semanticVersionV3 then
    let minimum ← field Dec.u16
    return (minimum, ← field Dec.u64)
  else return (protocolVersion, 0)

def decodeEntry (semantic : Nat) : WireDecode Entry := do
  let term ← field Dec.u64
  let index ← field Dec.u64
  if index = 0 then throw (.invalid "zero entry index")
  let (minimum, requiredFeatures) ← decodeRequirements semantic
  let base ← decodeBaseKind
  let kind ← liftM (decodeEntryKind base minimum requiredFeatures)
  return { term, index, kind, payload := ← field Dec.bytesField }

def decodeEntries (semantic : Nat) : Nat → WireDecode (List Entry)
  | 0 => return []
  | count + 1 => do
      let entry ← decodeEntry semantic
      return entry :: (← decodeEntries semantic count)

def minEntryBytes (semantic : Nat) : Nat :=
  if semantic ≥ semanticVersionV3 then minEntryV3Bytes else minEntryV2Bytes

def decodeAppendReq (semantic : Nat) : WireDecode AppendRequest := do
  let prevIndex ← field Dec.u64
  let prevTerm ← field Dec.u64
  let leaderCommit ← field Dec.u64
  let readRound ← field Dec.u64
  let count ← field Dec.u32
  let dec ← get
  if count > maxEntries ∨ count > (dec.bytes.length - dec.offset) / minEntryBytes semantic then
    throw (.tooLarge "entry count")
  return { prevIndex, prevTerm, entries := ← decodeEntries semantic count, leaderCommit, readRound }

def decodeAppendResp : WireDecode AppendResponse := do
  let success ← decodeBool
  let matchIndex ← field Dec.u64
  let hasTerm ← decodeBool
  let term ← field Dec.u64
  let conflictIndex ← field Dec.u64
  let readRound ← field Dec.u64
  if success ∧ (hasTerm ∨ term ≠ 0 ∨ conflictIndex ≠ 0) then
    throw (.invalid "successful append conflict")
  if !hasTerm ∧ term ≠ 0 then throw (.invalid "noncanonical absent conflict term")
  return { success, matchIndex, conflictTerm := if hasTerm then some term else none, conflictIndex
           readRound }

def decodeSnapshotChunk : WireDecode SnapshotChunk := do
  let transferId ← field Dec.u64
  let lastIncludedIndex ← field Dec.u64
  let lastIncludedTerm ← field Dec.u64
  let totalLen ← field Dec.u64
  let snapshotCrc ← field Dec.u32
  let offset ← field Dec.u64
  let done ← decodeBool
  let chunkCrc ← field Dec.u32
  let data ← field Dec.bytesField
  if offset + data.length > u64Max then throw (.invalid "snapshot offset overflow")
  let stop := offset + data.length
  if transferId = 0 ∨ totalLen = 0 ∨ data.isEmpty ∨ data.length > snapshotChunkBytes ∨ stop > totalLen
      ∨ done ≠ (stop == totalLen) ∨ chunkCrc ≠ (crc32c data).toNat then
    throw (.invalid "snapshot chunk canonicality")
  return { transferId, lastIncludedIndex, lastIncludedTerm, totalLen
           snapshotCrc32c := BitVec.ofNat 32 snapshotCrc, offset, data, done }

def decodeSnapshotAck : WireDecode MessageKind := do
  let transferId ← field Dec.u64
  let nextOffset ← field Dec.u64
  let accepted ← decodeBool
  let reason ← match ← field Dec.u8 with
    | 0 => pure none
    | tag => match SnapshotRejectReason.decode tag with
      | some reason => pure (some reason)
      | none => throw (.invalid "unknown snapshot rejection reason")
  if transferId = 0 ∨ (accepted ∧ reason.isSome) ∨ (!accepted ∧ reason.isNone)
      ∨ (!accepted ∧ !reason.any SnapshotRejectReason.resumes ∧ nextOffset ≠ 0) then
    throw (.invalid "snapshot ack canonicality")
  return .snapshotAck transferId nextOffset accepted reason

def decodeKind (protoVersion : Nat) (tag : UInt8) : WireDecode MessageKind :=
  match tag with
  | 1 => do
      let lastIndex ← field Dec.u64
      return .preVoteReq lastIndex (← field Dec.u64)
  | 2 => return .preVoteResp (← decodeBool)
  | 3 => do
      let lastIndex ← field Dec.u64
      return .voteReq lastIndex (← field Dec.u64)
  | 4 => return .voteResp (← decodeBool)
  | 5 => return .appendReq (← decodeAppendReq protoVersion)
  | 6 => return .appendResp (← decodeAppendResp)
  | 7 => return .snapshotChunk (← decodeSnapshotChunk)
  | 8 => decodeSnapshotAck
  | 9 => do
      let intentIndex ← field Dec.u64
      if intentIndex = 0 then throw (.invalid "zero transfer intent")
      return .timeoutNow intentIndex
  | 10 => do
      if protoVersion ≠ semanticVersionV3 then throw (.invalid "follower read request requires v3")
      let requestId ← field Dec.u64
      if requestId = 0 then throw (.invalid "zero follower read request id")
      return .followerReadRequest requestId (← field Dec.u64)
  | 11 => do
      if protoVersion ≠ semanticVersionV3 then throw (.invalid "follower read grant requires v3")
      let requestId ← field Dec.u64
      if requestId = 0 then throw (.invalid "zero follower read grant id")
      let commandHash ← field Dec.u64
      let readIndex ← field Dec.u64
      return .followerReadGrant requestId commandHash readIndex (← field Dec.u64)
  | tag => do throw (.decode (.invalidTag ((← get).offset - 1) tag))

def decodeMessage : WireDecode Message := do
  field (Dec.header ccrpMagic ccrpFormatVersion)
  let protoVersion ← field Dec.u16
  if !supportsProtocolVersion protoVersion then throw (.unsupportedSemantic protoVersion)
  let sender ← nonzeroNode
  let target ← nonzeroNode
  if sender = target then throw (.invalid "self-addressed message")
  let term ← field Dec.u64
  let kind ← decodeKind protoVersion (← field Dec.u8)
  return { protoVersion, sender, target, term, kind }

def decode (bytes : Bytes) : Except CodecError Message := do
  let (message, dec) ← decodeMessage (Dec.new bytes)
  let _ ← field Dec.finish dec
  return message

def peerFrameMagic : Nat := 0x46504343
def peerFrameVersion : Nat := 1
def maxPeerFrame : Nat := 4 * 1024 * 1024

structure WireMsg where
  protoVersion : Nat
  payload : Bytes
  deriving DecidableEq, Repr

inductive FrameError where
  | incomplete
  | tooLarge (length : Nat)
  | invalidMagic (magic : Nat)
  | invalidVersion (version : Nat)
  | checksum (expected actual : Nat)
  deriving DecidableEq, Repr

def encodePeerFrame (message : WireMsg) : Except FrameError Bytes :=
  if message.payload.length > maxPeerFrame then .error (.tooLarge message.payload.length)
  else
    let body := leBytes 2 message.protoVersion ++ message.payload
    .ok (leBytes 4 peerFrameMagic ++ (leBytes 2 peerFrameVersion ++ (leBytes 4 body.length
      ++ (leBytes 4 (crc32c body).toNat ++ body))))

def peerFrameHeader : Nat := 14

def slice (input : Bytes) (start stop : Nat) : Bytes := (input.drop start).take (stop - start)

def decodePeerFrame (input : Bytes) : Except FrameError (WireMsg × Nat) :=
  if input.length < peerFrameHeader then .error .incomplete
  else if leNat (slice input 0 4) ≠ peerFrameMagic then
    .error (.invalidMagic (leNat (slice input 0 4)))
  else if leNat (slice input 4 6) ≠ peerFrameVersion then
    .error (.invalidVersion (leNat (slice input 4 6)))
  else
    let bodyLen := leNat (slice input 6 10)
    if bodyLen < 2 ∨ bodyLen > maxPeerFrame + 2 then .error (.tooLarge bodyLen)
    else
      let total := peerFrameHeader + bodyLen
      if input.length < total then .error .incomplete
      else
        let expected := leNat (slice input 10 14)
        let body := slice input 14 total
        if (crc32c body).toNat ≠ expected then .error (.checksum expected (crc32c body).toNat)
        else .ok (⟨leNat (slice body 0 2), body.drop 2⟩, total)

/-- `encode_peer_effect`, the frame, and both decoders at the peer. -/
def transport (message : Message) : Option Message := do
  let payload ← (encode message).toOption
  let frame ← (encodePeerFrame ⟨message.protoVersion, payload⟩).toOption
  let (received, _) ← (decodePeerFrame frame).toOption
  (decode received.payload).toOption

open Dec (Reads)

variable {chunk : Bytes} {entry : Entry} {semantic : Nat} {request : AppendRequest}

theorem field_reads {α : Type} {decoder : Decode α} {value : α} (reads : Reads decoder chunk value) :
    Reads (field decoder) chunk value :=
  reads.mapError CodecError.decode

theorem nonzeroNode_reads {id : NodeId} (named : id ≠ 0) : Reads nonzeroNode (Enc.u64 id.toNat) id := by
  unfold nonzeroNode
  apply (field_reads (Reads.u64 id.toNat_lt)).close
  rw [UInt64.ofNat_toNat, if_neg named]

theorem decodeBaseKind_reads (kind : BaseKind) : Reads decodeBaseKind (Enc.u8 kind.tag) kind := by
  unfold decodeBaseKind
  apply (field_reads (Reads.u8 kind.tag)).close
  cases kind <;> rfl

structure Entry.Typed (entry : Entry) : Prop where
  term : entry.term < 2 ^ 64
  index : entry.index < 2 ^ 64
  named : entry.index ≠ 0

theorem decodeEntryKind_fields (kind : EntryKind) :
    decodeEntryKind (entryV3Fields kind).2.2 (entryV3Fields kind).1 (entryV3Fields kind).2.1 = .ok kind := by
  cases kind <;> rfl

def Speaks (semantic : Nat) (entries : List Entry) : Prop :=
  semantic = semanticVersionV3 ∨
    semantic = protocolVersion ∧ ∀ entry ∈ entries, entry.kind.requiresSemanticV3 = false

theorem decodeEntry_reads {need : Bytes} (typed : entry.Typed) (fits : entry.payload.length ≤ maxCodecBytes)
    (required : Reads (decodeRequirements semantic) need ((entryV3Fields entry.kind).1, (entryV3Fields entry.kind).2.1)) :
    Reads (decodeEntry semantic)
      (Enc.u64 entry.term ++ (Enc.u64 entry.index ++ (need
        ++ (Enc.u8 (entryV3Fields entry.kind).2.2.tag ++ Enc.bytes entry.payload)))) entry := by
  unfold decodeEntry
  apply (field_reads (Reads.u64 typed.term)).bind
  apply (field_reads (Reads.u64 typed.index)).bind
  rw [if_neg typed.named]
  apply required.bind
  apply (decodeBaseKind_reads _).bind
  rw [decodeEntryKind_fields]
  exact (field_reads (Reads.bytesField fits)).map fun payload => { entry with payload }

theorem requirements_read (speaks : Speaks semantic [entry]) :
    (semantic ≥ semanticVersionV3 ∧ Reads (decodeRequirements semantic)
      (Enc.u16 (entryV3Fields entry.kind).1 ++ Enc.u64 (entryV3Fields entry.kind).2.1)
      ((entryV3Fields entry.kind).1, (entryV3Fields entry.kind).2.1)) ∨ (¬ semantic ≥ semanticVersionV3 ∧
      ¬ ((entryV3Fields entry.kind).1 > semantic ∨ (entryV3Fields entry.kind).2.1 ≠ 0) ∧
      Reads (decodeRequirements semantic) []
        ((entryV3Fields entry.kind).1, (entryV3Fields entry.kind).2.1)) := by
  rcases speaks with rfl | ⟨rfl, old⟩
  · refine .inl ⟨le_refl _, ?_⟩
    unfold decodeRequirements
    rw [if_pos (le_refl _)]
    have small : (entryV3Fields entry.kind).1 < 2 ^ 16 := by cases entry.kind <;> decide
    have small' : (entryV3Fields entry.kind).2.1 < 2 ^ 64 := by cases entry.kind <;> decide
    apply (field_reads (Reads.u16 small)).bind
    exact (field_reads (Reads.u64 small')).map fun features => ((entryV3Fields entry.kind).1, features)
  · have plain := old entry (by simp)
    have fields : (entryV3Fields entry.kind).1 = protocolVersion ∧ (entryV3Fields entry.kind).2.1 = 0 := by
      revert plain
      cases entry.kind <;> decide
    refine .inr ⟨by decide, ?_, ?_⟩
    · rw [fields.1, fields.2]
      decide
    · rw [fields.1, fields.2]
      exact Reads.pure _

theorem encodeEntry_cases (typed : entry.Typed) (speaks : Speaks semantic [entry]) :
    (entry.payload.length > maxCodecBytes ∧ encodeEntry entry semantic = .error (.tooLarge "entry")) ∨
    (entry.payload.length ≤ maxCodecBytes ∧ ∃ chunk, encodeEntry entry semantic = .ok chunk ∧
      chunk.length = minEntryBytes semantic + entry.payload.length ∧
      Reads (decodeEntry semantic) chunk entry) := by
  unfold encodeEntry
  rcases Nat.lt_or_ge maxCodecBytes entry.payload.length with large | fits
  · refine .inl ⟨large, ?_⟩
    rw [if_pos (.inr large)]
  refine .inr ⟨fits, ?_⟩
  rw [if_neg (not_or.mpr ⟨typed.named, not_lt.mpr fits⟩)]
  dsimp only
  unfold minEntryBytes
  rcases requirements_read speaks with ⟨newer, required⟩ | ⟨older, allowed, required⟩
  · rw [if_pos newer, if_pos newer]
    refine ⟨_, rfl, ?_, decodeEntry_reads typed fits required⟩
    simp only [List.length_append, Enc.u64, Enc.u16, Enc.u8, Enc.bytes, Enc.u32, leBytes_length,
      List.length_singleton, minEntryV3Bytes]
    omega
  · rw [if_neg older, if_neg allowed, if_neg older]
    refine ⟨_, rfl, ?_, decodeEntry_reads typed fits required⟩
    simp only [List.length_append, Enc.u64, Enc.u8, Enc.bytes, Enc.u32, leBytes_length,
      List.length_singleton, List.length_nil, minEntryV2Bytes]
    omega

def entriesSize (semantic : Nat) (entries : List Entry) : Nat :=
  (entries.map fun entry => minEntryBytes semantic + entry.payload.length).sum

theorem Speaks.tail {rest : List Entry} (speaks : Speaks semantic (entry :: rest)) :
    Speaks semantic [entry] ∧ Speaks semantic rest := by
  rcases speaks with same | ⟨same, old⟩
  · exact ⟨.inl same, .inl same⟩
  · refine ⟨.inr ⟨same, ?_⟩, .inr ⟨same, fun other member => old other (List.mem_cons_of_mem _ member)⟩⟩
    intro other member
    rw [List.mem_singleton.mp member]
    exact old entry List.mem_cons_self

theorem encodeEntries_cases {entries : List Entry} (typed : ∀ entry ∈ entries, entry.Typed)
    (speaks : Speaks semantic entries) : ((∃ entry ∈ entries, entry.payload.length > maxCodecBytes) ∧
      ∃ error, encodeEntries semantic entries = .error error) ∨ ∃ chunk, encodeEntries semantic entries = .ok chunk ∧
      chunk.length = entriesSize semantic entries ∧
      Reads (decodeEntries semantic entries.length) chunk entries := by
  induction entries with
  | nil => exact .inr ⟨[], rfl, rfl, Reads.pure _⟩
  | cons entry rest ih =>
    obtain ⟨here, later⟩ := speaks.tail
    rcases encodeEntry_cases (typed entry List.mem_cons_self) here with
      ⟨large, refused⟩ | ⟨-, chunk, done, size, reads⟩
    · exact .inl ⟨⟨entry, List.mem_cons_self, large⟩, _, by rw [encodeEntries, refused]; rfl⟩
    rcases ih (fun other member => typed other (List.mem_cons_of_mem _ member)) later with
      ⟨⟨other, member, large⟩, error, refused⟩ | ⟨chunks, dones, sizes, readss⟩
    · exact .inl ⟨⟨other, List.mem_cons_of_mem _ member, large⟩, error,
        by rw [encodeEntries, done, refused]; rfl⟩
    · refine .inr ⟨chunk ++ chunks, by rw [encodeEntries, done, dones]; rfl, ?_, ?_⟩
      · rw [List.length_append, size, sizes]
        simp [entriesSize]
      · exact reads.bind (readss.map (entry :: ·))

structure AppendRequest.Typed (request : AppendRequest) : Prop where
  prevIndex : request.prevIndex < 2 ^ 64
  prevTerm : request.prevTerm < 2 ^ 64
  leaderCommit : request.leaderCommit < 2 ^ 64
  readRound : request.readRound < 2 ^ 64
  entries : ∀ entry ∈ request.entries, entry.Typed

theorem entriesSize_ge (semantic : Nat) (entries : List Entry) :
    entries.length * minEntryBytes semantic ≤ entriesSize semantic entries := by
  unfold entriesSize
  induction entries with
  | nil => simp
  | cons entry rest ih =>
    rw [List.length_cons, List.map_cons, List.sum_cons, Nat.succ_mul]
    omega

theorem decodeAppendReq_reads (typed : request.Typed) (few : request.entries.length ≤ maxEntries)
    (size : chunk.length = entriesSize semantic request.entries)
    (reads : Reads (decodeEntries semantic request.entries.length) chunk request.entries) :
    Reads (decodeAppendReq semantic)
      (Enc.u64 request.prevIndex ++ (Enc.u64 request.prevTerm ++ (Enc.u64 request.leaderCommit
        ++ (Enc.u64 request.readRound ++ (Enc.u32 request.entries.length ++ chunk))))) request := by
  unfold decodeAppendReq
  apply (field_reads (Reads.u64 typed.prevIndex)).bind
  apply (field_reads (Reads.u64 typed.prevTerm)).bind
  apply (field_reads (Reads.u64 typed.leaderCommit)).bind
  apply (field_reads (Reads.u64 typed.readRound)).bind
  apply (field_reads (Reads.u32 (by unfold maxEntries at few; omega))).bind
  intro before after
  -- The count is checked against the bytes that are left, which hold the entries.
  have room : request.entries.length ≤
      ((before ++ chunk ++ after).length - before.length) / minEntryBytes semantic := by
    have positive : 0 < minEntryBytes semantic := by
      unfold minEntryBytes
      split <;> decide
    rw [Nat.le_div_iff_mul_le positive]
    have enough := entriesSize_ge semantic request.entries
    simp only [List.length_append]
    omega
  change (if request.entries.length > maxEntries ∨ request.entries.length >
      ((before ++ chunk ++ after).length - before.length) / minEntryBytes semantic
    then _ else _ : WireDecode AppendRequest) _ = _
  rw [if_neg (not_or.mpr ⟨not_lt.mpr few, not_lt.mpr room⟩)]
  exact (reads.map fun entries => { request with entries }) before after

def appendSize (semantic : Nat) (entries : List Entry) : Nat := 69 + entriesSize semantic entries

structure Message.Addressed (message : Message) : Prop where
  sender : message.sender ≠ 0
  target : message.target ≠ 0
  apart : message.sender ≠ message.target
  term : message.term < 2 ^ 64

theorem Speaks.supported {entries : List Entry} (speaks : Speaks semantic entries) :
    supportsProtocolVersion semantic ∧ semantic < 2 ^ 16 := by
  rcases speaks with rfl | ⟨rfl, -⟩ <;> decide

theorem encode_append {message : Message} (kind : message.kind = .appendReq request) (addressed : message.Addressed)
    (typed : request.Typed) (speaks : Speaks message.protoVersion request.entries) :
    ((request.entries.length > maxEntries ∨ ∃ entry ∈ request.entries, entry.payload.length > maxCodecBytes) ∧
      ∃ error, encode message = .error error) ∨
    (request.entries.length ≤ maxEntries ∧ ∃ bytes, encode message = .ok bytes ∧
      bytes.length = appendSize message.protoVersion request.entries ∧ decode bytes = .ok message) := by
  have identity : (!supportsProtocolVersion message.protoVersion || message.sender == 0
      || message.target == 0 || message.sender == message.target) = false := by
    simp [speaks.supported.1, addressed.sender, addressed.target, addressed.apart]
  unfold encode
  rw [identity, if_neg Bool.false_ne_true, kind]
  unfold encodeKind
  dsimp only
  rcases Nat.lt_or_ge maxEntries request.entries.length with many | few
  · exact .inl ⟨.inl many, _, by rw [if_pos many]; rfl⟩
  rw [if_neg (not_lt.mpr few)]
  rcases encodeEntries_cases typed.entries speaks with ⟨large, error, refused⟩ | ⟨chunk, done, size, reads⟩
  · exact .inl ⟨.inr large, error, by rw [refused]; rfl⟩
  rw [done]
  refine .inr ⟨few, _, rfl, ?_, ?_⟩
  · simp only [List.length_append, Enc.u64, Enc.u16, Enc.u8, Enc.u32, Enc.header, leBytes_length,
      List.length_singleton, size, appendSize]
    omega
  · have read : Reads decodeMessage (Enc.header ccrpMagic ccrpFormatVersion ++ (Enc.u16 message.protoVersion
        ++ (Enc.u64 message.sender.toNat ++ (Enc.u64 message.target.toNat ++ (Enc.u64 message.term
        ++ (Enc.u8 5 ++ (Enc.u64 request.prevIndex ++ (Enc.u64 request.prevTerm
        ++ (Enc.u64 request.leaderCommit ++ (Enc.u64 request.readRound
        ++ (Enc.u32 request.entries.length ++ chunk))))))))))) message := by
      unfold decodeMessage
      apply (field_reads (Reads.header (by decide) (by decide))).bind
      apply (field_reads (Reads.u16 speaks.supported.2)).bind
      rw [speaks.supported.1]
      apply (nonzeroNode_reads addressed.sender).bind
      apply (nonzeroNode_reads addressed.target).bind
      rw [if_neg addressed.apart]
      apply (field_reads (Reads.u64 addressed.term)).bind
      apply (field_reads (Reads.u8 5)).bind
      have body := (decodeAppendReq_reads typed few size reads).map MessageKind.appendReq
      rw [← kind] at body
      exact body.map fun kind => { message with kind }
    unfold decode
    rw [read.whole]
    change ((field Dec.finish _) >>= fun _ => _) = _
    simp [field, Dec.finish]

theorem slice_at {before after : Bytes} {start stop : Nat} (opens : before.length = start)
    (closes : start + chunk.length = stop) : slice (before ++ (chunk ++ after)) start stop = chunk := by
  subst opens closes
  simp [slice]

theorem slice_frame {magic version length crc : Bytes} (body : Bytes) (sizes : magic.length = 4 ∧
      version.length = 2 ∧ length.length = 4 ∧ crc.length = 4) :
    slice (magic ++ (version ++ (length ++ (crc ++ body)))) 0 4 = magic ∧
    slice (magic ++ (version ++ (length ++ (crc ++ body)))) 4 6 = version ∧
    slice (magic ++ (version ++ (length ++ (crc ++ body)))) 6 10 = length ∧
    slice (magic ++ (version ++ (length ++ (crc ++ body)))) 10 14 = crc ∧
    slice (magic ++ (version ++ (length ++ (crc ++ body)))) 14 (14 + body.length) = body := by
  obtain ⟨four, two, four', four''⟩ := sizes
  refine ⟨?_, ?_, ?_, ?_, ?_⟩
  · change slice ([] ++ _) 0 4 = magic
    exact slice_at rfl (by rw [four])
  · exact slice_at four (by rw [two])
  · rw [← List.append_assoc]
    exact slice_at (by rw [List.length_append, four, two]) (by rw [four'])
  · rw [← List.append_assoc, ← List.append_assoc]
    exact slice_at (by simp only [List.length_append, four, two, four']) (by rw [four''])
  · have last : slice ((magic ++ version ++ length ++ crc) ++ (body ++ [])) 14 (14 + body.length) = body :=
      slice_at (by simp only [List.length_append, four, two, four', four'']) rfl
    simpa only [List.append_assoc, List.append_nil] using last

theorem decodePeerFrame_encode {message : WireMsg} (version : message.protoVersion < 2 ^ 16)
    (fits : message.payload.length ≤ maxPeerFrame) :
    ∃ frame, encodePeerFrame message = .ok frame ∧ decodePeerFrame frame = .ok (message, frame.length) := by
  unfold encodePeerFrame
  rw [if_neg (not_lt.mpr fits)]
  refine ⟨_, rfl, ?_⟩
  have bodyLength : (leBytes 2 message.protoVersion ++ message.payload).length = 2 + message.payload.length := by
    rw [List.length_append, leBytes_length]
  have version' : leNat (slice (leBytes 2 message.protoVersion ++ message.payload) 0 2) = message.protoVersion := by
    have read : slice ([] ++ (leBytes 2 message.protoVersion ++ message.payload)) 0 2 =
        leBytes 2 message.protoVersion := slice_at rfl (by rw [leBytes_length])
    rw [List.nil_append] at read
    rw [read, leNat_leBytes_of_lt version]
  have payload : (leBytes 2 message.protoVersion ++ message.payload).drop 2 = message.payload := by
    have two : (leBytes 2 message.protoVersion).length = 2 := leBytes_length 2 _
    exact List.drop_left' two
  revert bodyLength version' payload
  generalize leBytes 2 message.protoVersion ++ message.payload = body
  intro bodyLength version' payload
  have short : body.length < 256 ^ 4 := by
    unfold maxPeerFrame at fits
    omega
  have sum : (crc32c body).toNat < 256 ^ 4 := (crc32c body).isLt
  obtain ⟨first, second, third, fourth, fifth⟩ :=
    slice_frame body ⟨leBytes_length 4 peerFrameMagic, leBytes_length 2 peerFrameVersion,
      leBytes_length 4 body.length, leBytes_length 4 (crc32c body).toNat⟩
  have total : (leBytes 4 peerFrameMagic ++ (leBytes 2 peerFrameVersion ++ (leBytes 4 body.length
      ++ (leBytes 4 (crc32c body).toNat ++ body)))).length = peerFrameHeader + body.length := by
    simp only [List.length_append, leBytes_length, peerFrameHeader]
    omega
  unfold decodePeerFrame
  rw [first, second, third, fourth, total, leNat_leBytes_of_lt short, leNat_leBytes_of_lt sum]
  rw [if_neg (by omega), if_neg (by decide), if_neg (by decide)]
  dsimp only
  rw [if_neg (by omega), if_neg (by omega)]
  change slice _ 14 (peerFrameHeader + body.length) = body at fifth
  rw [fifth, if_neg (not_not.mpr rfl), version', payload]

theorem transport_append {message : Message} (kind : message.kind = .appendReq request)
    (addressed : message.Addressed) (typed : request.Typed) (speaks : Speaks message.protoVersion request.entries) :
    transport message = some message ↔
      request.entries.length ≤ maxEntries ∧ appendSize message.protoVersion request.entries ≤ maxPeerFrame := by
  unfold transport
  rcases encode_append kind addressed typed speaks with ⟨refused, error, failed⟩ | ⟨few, bytes, done, size, decoded⟩
  · rw [failed]
    constructor
    · intro carried
      cases carried
    · rintro ⟨few, small⟩
      rcases refused with many | ⟨entry, member, large⟩
      · exact absurd few (not_le.mpr many)
      have part := List.single_le_sum (by simp) _
        (List.mem_map_of_mem (f := fun entry => minEntryBytes message.protoVersion + entry.payload.length) member)
      unfold appendSize entriesSize at small
      unfold maxPeerFrame at small
      unfold maxCodecBytes at large
      omega
  · rw [done]
    rcases Nat.lt_or_ge maxPeerFrame bytes.length with large | small
    · have refused : encodePeerFrame ⟨message.protoVersion, bytes⟩ = .error (.tooLarge bytes.length) := by
        unfold encodePeerFrame
        rw [if_pos large]
      change ((encodePeerFrame ⟨message.protoVersion, bytes⟩).toOption.bind _) = _ ↔ _
      rw [refused]
      constructor
      · intro carried
        cases carried
      · rintro ⟨-, small⟩
        rw [← size] at small
        exact absurd small (not_le.mpr large)
    · have framing : ∃ frame, encodePeerFrame (⟨message.protoVersion, bytes⟩ : WireMsg) = .ok frame ∧
          decodePeerFrame frame = .ok (⟨message.protoVersion, bytes⟩, frame.length) :=
        decodePeerFrame_encode speaks.supported.2 small
      obtain ⟨frame, framed, unframed⟩ := framing
      change ((encodePeerFrame ⟨message.protoVersion, bytes⟩).toOption.bind _) = _ ↔ _
      rw [framed]
      change ((decodePeerFrame frame).toOption.bind _) = _ ↔ _
      rw [unframed]
      change (decode bytes).toOption = _ ↔ _
      rw [decoded, ← size]
      exact ⟨fun _ => ⟨few, small⟩, fun _ => rfl⟩

end CrashCourse.Raft
