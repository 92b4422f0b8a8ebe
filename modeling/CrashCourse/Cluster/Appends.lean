import CrashCourse.Cluster.Envelope
import CrashCourse.Raft.Wire

/-!
Whether what a leader appends reaches its peers: an append is bounded by count, its
entries by the policy, but the frame by bytes.
-/

namespace CrashCourse.Raft
open CrashCourse.Core CrashCourse.KeyValue CrashCourse.Cluster

/-- The numbers of a node that its appends carry are `u64`. -/
structure RaftNode.Typed (node : RaftNode) : Prop where
  term : node.hardState.term < 2 ^ 64
  commitIndex : node.commitIndex < 2 ^ 64
  readRound : node.readRound < 2 ^ 64
  snapshotTerm : node.snapshotTerm < 2 ^ 64
  lastIndex : node.lastIndex < 2 ^ 64
  nextIndex : ∀ (peer : NodeId) (next : Nat), node.nextIndex[peer]? = some next → next < 2 ^ 64
  log : ∀ entry ∈ node.log, entry.Typed

theorem RaftNode.Typed.termAt {node : RaftNode} (typed : node.Typed) (index : Nat) :
    (node.termAt index).getD 0 < 2 ^ 64 := by
  unfold RaftNode.termAt
  split
  · decide
  split
  · exact typed.snapshotTerm
  split
  · decide
  · cases found : node.entryAt index with
    | none => decide
    | some entry => exact (typed.log entry (List.mem_of_find?_eq_some found)).term

namespace RaftNode

def appendEntries (node : RaftNode) (peer : NodeId) : List Entry :=
  (node.log.filter fun entry =>
    decide (entry.index ≥ node.nextIndex[peer]?.getD (node.lastIndex + 1))).take
      node.config.maxEntriesPerAppend

def appendRequestTo (node : RaftNode) (peer : NodeId) : AppendRequest where
  prevIndex := node.nextIndex[peer]?.getD (node.lastIndex + 1) - 1
  prevTerm := (node.termAt (node.nextIndex[peer]?.getD (node.lastIndex + 1) - 1)).getD 0
  entries := node.appendEntries peer
  leaderCommit := node.commitIndex
  readRound := node.readRound

def appendMessage (node : RaftNode) (peer : NodeId) : Message where
  protoVersion := appendSemanticVersion (node.appendEntries peer)
  sender := node.id
  target := peer
  term := node.hardState.term
  kind := .appendReq (node.appendRequestTo peer)

theorem sendAppend_eq (node : RaftNode) (peer : NodeId) :
    node.sendAppend peer = [.send (node.appendMessage peer)] := rfl

theorem Typed.appendRequestTo {node : RaftNode} (typed : node.Typed) (peer : NodeId) :
    (node.appendRequestTo peer).Typed := by
  refine ⟨?_, typed.termAt _, typed.commitIndex, typed.readRound, ?_⟩
  · have last := typed.lastIndex
    unfold RaftNode.appendRequestTo
    cases held : node.nextIndex[peer]? with
    | none => simpa using last
    | some next =>
      have small := typed.nextIndex peer next held
      simp only [Option.getD_some]
      omega
  · intro entry member
    exact typed.log entry (List.mem_of_mem_filter (List.mem_of_mem_take member))

end RaftNode

theorem appendSemanticVersion_speaks (entries : List Entry) :
    Speaks (RaftNode.appendSemanticVersion entries) entries := by
  unfold RaftNode.appendSemanticVersion
  split
  · exact .inl rfl
  next old =>
    refine .inr ⟨rfl, ?_⟩
    intro entry member
    simp only [List.any_eq_true, not_exists, not_and] at old
    simpa using old entry member

theorem appendMessage_carried {node : RaftNode} {peer : NodeId} (typed : node.Typed)
    (addressed : (node.appendMessage peer).Addressed) :
    transport (node.appendMessage peer) = some (node.appendMessage peer) ↔
      (node.appendEntries peer).length ≤ maxEntries ∧
        appendSize (RaftNode.appendSemanticVersion (node.appendEntries peer)) (node.appendEntries peer) ≤
          maxPeerFrame :=
  transport_append rfl addressed (typed.appendRequestTo peer)
    (appendSemanticVersion_speaks (node.appendEntries peer))

/-- Every append of every leader arrives as it was sent exactly if its entries fit
into one frame. -/
theorem sendAppend_carried_iff (node : RaftNode) (peer : NodeId) (typed : node.Typed)
    (named : node.id ≠ 0) (named' : peer ≠ 0) (apart : node.id ≠ peer) (message : Message)
    (sent : .send message ∈ node.sendAppend peer) : transport message = some message ↔
      (node.appendEntries peer).length ≤ maxEntries ∧
        appendSize (RaftNode.appendSemanticVersion (node.appendEntries peer)) (node.appendEntries peer) ≤
          maxPeerFrame := by
  rw [RaftNode.sendAppend_eq, List.mem_singleton] at sent
  obtain rfl := RaftEffect.send.inj sent
  exact appendMessage_carried typed ⟨named, named', apart, typed.term⟩

/-- The entries a leader puts into its log. A batch needs semantic version 3. -/
inductive Admitted (policy : ClusterPolicy) : Entry → Prop
  | noop (term index : Nat) : Admitted policy ⟨term, index, .noop, []⟩
  | config (term index : Nat) {kind : EntryKind} (changes : kind.isConfig) (envelope : ConfigEnvelope) :
      Admitted policy ⟨term, index, kind, envelope.encode⟩
  | op (term index : Nat) (session : Option (SessionKey × Nat)) (leaderTime : Nat) (op : KvOp)
      (small : (encodeCommand (.op op)).length ≤ policy.maxCommandBytes) :
      Admitted policy ⟨term, index, .app, AppEnvelope.encode ⟨session, leaderTime, encodeCommand (.op op)⟩⟩
  | batch (term index : Nat) (session : Option (SessionKey × Nat)) (leaderTime : Nat)
      (commands : List KvOp) (small : (encodeCommand (.batch commands)).length ≤ policy.maxCommandBytes)
      (valid : validateCommandPolicy policy (.batch commands) = .ok ()) :
      Admitted policy
        ⟨term, index, .appV3, AppEnvelope.encode ⟨session, leaderTime, encodeCommand (.batch commands)⟩⟩

theorem encodeSet_length (key value : Bytes) :
    (encodeCommand (.op (.set key value none))).length = 16 + key.length + value.length := by
  simp only [encodeCommand, encodeOp, encodeOpBody, encodeOptionalDuration, Enc.header, Enc.u8, Enc.u16,
    Enc.u32, Enc.bytes, leBytes, List.length_append, List.length_cons, List.length_nil]
  omega

def setEntry (index : Nat) (value : Bytes) : Entry :=
  ⟨1, index, .app, AppEnvelope.encode ⟨none, 0, encodeCommand (.op (.set [107] value none))⟩⟩

def bulkLeader (value : Bytes) : RaftNode :=
  { RaftNode.new 1 ((∅ : BTreeSet NodeId).insert 1 |>.insert 2) 0 .default with
    role := .leader
    hardState := ⟨1, some 1⟩
    log := [⟨1, 1, .noop, []⟩, setEntry 2 value, setEntry 3 value, setEntry 4 value, setEntry 5 value]
    nextIndex := (∅ : BTreeMap NodeId Nat).insert 2 1 }

theorem bulkLeader_admitted {value : Bytes} (small : value.length ≤ 1024 * 1024) :
    ∀ entry ∈ (bulkLeader value).log, Admitted .default entry := by
  intro entry member
  have small : (encodeCommand (.op (.set [107] value none))).length ≤
      ClusterPolicy.default.maxCommandBytes := by
    rw [encodeSet_length]
    change 16 + 1 + _ ≤ 2 * 1024 * 1024
    omega
  simp only [bulkLeader, List.mem_cons, List.not_mem_nil, or_false] at member
  rcases member with rfl | rfl | rfl | rfl | rfl
  · exact .noop 1 1
  all_goals exact .op 1 _ none 0 _ small

theorem bulkLeader_typed (value : Bytes) : (bulkLeader value).Typed where
  term := by change 1 < 2 ^ 64; decide
  commitIndex := by change 0 < 2 ^ 64; decide
  readRound := by change 0 < 2 ^ 64; decide
  snapshotTerm := by change 0 < 2 ^ 64; decide
  lastIndex := by change 5 < 2 ^ 64; decide
  nextIndex peer next held := by
    change ((∅ : BTreeMap NodeId Nat).insert 2 1)[peer]? = some next at held
    rw [Std.ExtTreeMap.getElem?_insert] at held
    split at held
    · obtain rfl := Option.some.inj held
      decide
    · simp at held
  log entry member := by
    simp only [bulkLeader, List.mem_cons, List.not_mem_nil, or_false] at member
    rcases member with rfl | rfl | rfl | rfl | rfl <;>
      exact ⟨by norm_num [setEntry], by norm_num [setEntry], by norm_num [setEntry]⟩

theorem bulkLeader_entries (value : Bytes) : (bulkLeader value).appendEntries 2 = (bulkLeader value).log := rfl

theorem bulkLeader_size (value : Bytes) :
    appendSize (RaftNode.appendSemanticVersion (bulkLeader value).log) (bulkLeader value).log =
      402 + 4 * value.length := by
  change 69 + (List.map (fun entry : Entry => 21 + entry.payload.length) (bulkLeader value).log).sum = _
  simp only [bulkLeader, setEntry, List.map_cons, List.map_nil, List.sum_cons, List.sum_nil,
    AppEnvelope.encode_length, encodeSet_length, List.length_cons, List.length_nil]
  omega

theorem sendAppend_carried_iff_empty :
    transport ((bulkLeader []).appendMessage 2) = some ((bulkLeader []).appendMessage 2) :=
  (sendAppend_carried_iff (bulkLeader []) 2 (bulkLeader_typed []) (by decide) (by decide) (by decide) _
    (List.mem_singleton_self _)).mpr ⟨by decide, by rw [bulkLeader_entries, bulkLeader_size]; decide⟩

/-- The default policy lets through four commands that no frame can carry together. -/
theorem bulk_append_not_carried : ∃ (node : RaftNode) (message : Message), node.Typed ∧ node.role = .leader ∧
      (∀ entry ∈ node.log, Admitted .default entry) ∧ .send message ∈ node.sendAppend 2 ∧
      transport message ≠ some message := by
  have size : (List.replicate (1024 * 1024) (0 : UInt8)).length = 1024 * 1024 := List.length_replicate
  generalize List.replicate (1024 * 1024) (0 : UInt8) = value at size
  have typed := bulkLeader_typed value
  refine ⟨bulkLeader value, (bulkLeader value).appendMessage 2, typed, rfl,
    bulkLeader_admitted size.le, List.mem_singleton_self _, ?_⟩
  intro carried
  have addressed : ((bulkLeader value).appendMessage 2).Addressed :=
    ⟨(by decide : (1 : NodeId) ≠ 0), (by decide : (2 : NodeId) ≠ 0), (by decide : (1 : NodeId) ≠ 2),
      typed.term⟩
  have fits := ((appendMessage_carried typed addressed).mp carried).2
  rw [bulkLeader_entries, bulkLeader_size, size] at fits
  exact absurd fits (by decide)

end CrashCourse.Raft
