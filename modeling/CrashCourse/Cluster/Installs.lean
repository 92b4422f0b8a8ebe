import CrashCourse.Cluster.Deadlines
import CrashCourse.Cluster.Gating
import CrashCourse.Cluster.Streaming
import CrashCourse.Raft.Compaction

/-!
The installation of a decoded checkpoint. It changes the membership before it looks at the
open transfer, but no checkpoint that a reader returns is refused there.
-/

namespace CrashCourse.Cluster
open CrashCourse.Core CrashCourse.KeyValue CrashCourse.Raft

namespace Node

def validateDecodedCcsnSnapshot (node : Node) (snapshot : Checkpoint) : Except NodeError Unit :=
  if snapshot.clusterId ≠ node.config.clusterId ∨ snapshot.clusterPolicy.encode ≠ node.config.policy.encode ∨
      snapshot.kv.appliedIndex < node.raft.appliedIndex then
    .error (.malformedCommittedEntry snapshot.kv.appliedIndex)
  else .ok ()

/-- `restoreLogical` is `Kv::restore_logical`, which sees nothing of the node. -/
def installDecodedCcsnSnapshot (restoreLogical : LogicalKvSnapshot → StoreConfig → Except KvError Kv) (node : Node)
    (snapshot : Checkpoint) : Node × Except NodeError Unit :=
  match node.validateDecodedCcsnSnapshot snapshot with
  | .error error => (node, .error error)
  | .ok _ =>
    match restoreLogical snapshot.kv node.config.store with
    | .error _ => (node, .error (.malformedCommittedEntry snapshot.kv.appliedIndex))
    | .ok kv =>
      match node.raft.restoreMembershipState snapshot.membership with
      | (raft, .error error) => ({ node with raft }, .error (.raft error))
      | (raft, .ok _) =>
        match raft.restoreLeadershipTransfer snapshot.leadershipTransfer with
        | (raft, .error error) => ({ node with raft }, .error (.raft error))
        | (raft, .ok _) =>
          let raft := raft.installSnapshotState snapshot.kv.appliedIndex snapshot.kv.appliedTerm
          ({ node with raft := raft.replayRetainedMembershipSuffix, kv, sessions := snapshot.sessions }, .ok ())

/-- What an installation leaves of the protocol is what `RaftNode` makes of it. -/
theorem installDecodedCcsnSnapshot_raft {restoreLogical : LogicalKvSnapshot → StoreConfig → Except KvError Kv}
    {node after : Node} {snapshot : Checkpoint}
    (done : node.installDecodedCcsnSnapshot restoreLogical snapshot = (after, .ok ())) :
    node.raft.installDecodedCcsnSnapshot ⟨snapshot.kv.appliedIndex, snapshot.kv.appliedTerm, snapshot.membership,
      snapshot.leadershipTransfer⟩ = (after.raft, .ok ()) := by
  unfold installDecodedCcsnSnapshot validateDecodedCcsnSnapshot at done
  split at done
  next refused => cases (Prod.mk.inj done).2
  next valid =>
    split at valid
    · cases valid
    next fits =>
      unfold RaftNode.installDecodedCcsnSnapshot
      rw [if_neg fun early => fits (.inr (.inr early))]
      split at done
      · cases (Prod.mk.inj done).2
      · obtain ⟨raft, answer, restored⟩ : ∃ raft answer,
            node.raft.restoreMembershipState snapshot.membership = (raft, answer) := ⟨_, _, rfl⟩
        rw [restored] at done ⊢
        cases answer with
        | error error => cases (Prod.mk.inj done).2
        | ok _ =>
          obtain ⟨raft', answer, resumed⟩ : ∃ raft' answer,
              raft.restoreLeadershipTransfer snapshot.leadershipTransfer = (raft', answer) := ⟨_, _, rfl⟩
          dsimp only at done ⊢
          rw [resumed] at done ⊢
          cases answer with
          | error error => cases (Prod.mk.inj done).2
          | ok _ => rw [← (Prod.mk.inj done).1]

end Node

def CcsnBuilder.Intends (builder : CcsnBuilder) : Prop :=
  ∀ transfer, builder.leadershipTransfer = some transfer → transfer.intentIndex ≠ 0

structure Checkpoint.Restorable (snapshot : Checkpoint) : Prop where
  membership : snapshot.membership.validate = .ok ()
  transfer : ∀ transfer, snapshot.leadershipTransfer = some transfer →
    transfer.intentIndex ≠ 0 ∧ snapshot.membership.voters.contains transfer.target = true

variable {header : CcsnHeader} {builder next : CcsnBuilder} {id : Bytes} {snapshot : Checkpoint}

theorem decodeCcsnTransfer_intends {index : Nat} {dec last : Dec} {transfer : LeadershipTransfer}
    (done : decodeCcsnTransfer index dec = .ok (transfer, last)) : transfer.intentIndex ≠ 0 := by
  simp only [decodeCcsnTransfer, Dec.bind_ok_iff] at done
  obtain ⟨intent, _, -, target, _, -, deadline, _, -, _, _, -, finishing, _, -, _, _, -, _, _, -, _, _, -, _, _, -, _, _,
    -, admin, _, -, done⟩ := done
  split at done
  · cases done
  next proper =>
    obtain ⟨rfl, -⟩ := Prod.mk.inj (Except.ok.inj done)
    exact fun zero => proper (.inl zero)

theorem record_intends {body : Bytes} {tag : UInt8} (done : builder.record header body tag = .ok next)
    (before : builder.Intends) : next.Intends := by
  unfold CcsnBuilder.record at done
  split_ifs at done
  · obtain ⟨membership, -, same⟩ := bind_ok_iff.mp done
    exact Except.ok.inj same ▸ before
  · obtain ⟨policy, -, done⟩ := bind_ok_iff.mp done
    obtain ⟨_, -, same⟩ := bind_ok_iff.mp done
    exact Except.ok.inj same ▸ before
  · obtain ⟨transfer, read, same⟩ := bind_ok_iff.mp done
    obtain ⟨⟨_, last⟩, read, rfl⟩ := map_ok_iff.mp read
    rw [← Except.ok.inj same]
    rintro _ ⟨⟩
    exact decodeCcsnTransfer_intends read
  all_goals
    obtain ⟨found, -, done⟩ := bind_ok_iff.mp done
    obtain ⟨_, -, same⟩ := bind_ok_iff.mp done
    exact Except.ok.inj same ▸ before

theorem framedRecord_intends {bytes : Bytes} {bodyLen : Nat} (done : builder.framedRecord header bytes bodyLen = .ok next)
    (before : builder.Intends) : next.Intends := by
  obtain ⟨_, -, done⟩ := bind_ok_iff.mp done
  obtain ⟨added, recorded, same⟩ := bind_ok_iff.mp done
  have kept : added.Intends := record_intends recorded before
  exact Except.ok.inj same ▸ kept

theorem restorable_of_finish (done : builder.finish id header = .ok snapshot) (intends : builder.Intends) :
    snapshot.Restorable := by
  unfold CcsnBuilder.finish at done
  split at done
  · cases done
  · cases done
  next membership policy =>
    obtain ⟨_, counted, done⟩ := bind_ok_iff.mp done
    obtain ⟨_, aimed, done⟩ := bind_ok_iff.mp done
    obtain ⟨_, -, done⟩ := bind_ok_iff.mp done
    obtain ⟨_, -, same⟩ := bind_ok_iff.mp done
    obtain rfl := Except.ok.inj same
    obtain ⟨⟨⟩, valid⟩ := isOk_iff.mp (Bool.and_eq_true_iff.mp (require_ok_iff.mp counted)).2
    refine ⟨valid, fun transfer held => ⟨intends transfer held, ?_⟩⟩
    have voter := require_ok_iff.mp aimed
    rw [show builder.leadershipTransfer = some transfer from held] at voter
    exact voter

theorem decodeRecords_intends {fuel : Nat} {bytes : Bytes}
    (done : decodeRecords header fuel bytes builder = .ok next) (before : builder.Intends) : next.Intends := by
  induction fuel generalizing bytes builder with
  | zero => exact Except.ok.inj done ▸ before
  | succ fuel ih =>
    rw [decodeRecords] at done
    split_ifs at done
    · exact Except.ok.inj done ▸ before
    · dsimp only at done
      split_ifs at done
      obtain ⟨added, framed, done⟩ := bind_ok_iff.mp done
      exact ih done (framedRecord_intends framed before)

theorem consume_intends {fuel : Nat} {decoder last : CcsnStreamDecoder}
    (done : CcsnStreamDecoder.consume fuel decoder = .ok last) (before : decoder.builder.Intends) :
    last.builder.Intends := by
  induction fuel generalizing decoder with
  | zero => exact Except.ok.inj done ▸ before
  | succ fuel ih =>
    rw [CcsnStreamDecoder.consume] at done
    split at done
    · split_ifs at done
      · exact Except.ok.inj done ▸ before
      · obtain ⟨started, opened, done⟩ := bind_ok_iff.mp done
        obtain ⟨header, -, same⟩ := bind_ok_iff.mp opened
        exact ih done (Except.ok.inj same ▸ before)
    · split_ifs at done
      · exact Except.ok.inj done ▸ before
      · dsimp only at done
        split_ifs at done
        · exact Except.ok.inj done ▸ before
        · obtain ⟨grown, taken, done⟩ := bind_ok_iff.mp done
          obtain ⟨added, framed, same⟩ := bind_ok_iff.mp taken
          exact ih done (Except.ok.inj same ▸ framedRecord_intends framed before)
      · exact Except.ok.inj done ▸ before
      · obtain ⟨_, -, done⟩ := bind_ok_iff.mp done
        obtain ⟨_, -, done⟩ := bind_ok_iff.mp done
        obtain ⟨_, -, same⟩ := bind_ok_iff.mp done
        exact Except.ok.inj same ▸ before

theorem push_intends {chunks : List Bytes} {decoder last : CcsnStreamDecoder}
    (done : chunks.foldlM CcsnStreamDecoder.push decoder = .ok last) (before : decoder.builder.Intends) :
    last.builder.Intends := by
  induction chunks generalizing decoder with
  | nil => exact Except.ok.inj done ▸ before
  | cons chunk rest ih =>
    rw [List.foldlM_cons] at done
    obtain ⟨grown, pushed, done⟩ := bind_ok_iff.mp done
    unfold CcsnStreamDecoder.push at pushed
    split_ifs at pushed
    exact ih done (consume_intends pushed before)

inductive Decoded (snapshot : Checkpoint) : Prop where
  | whole (bytes id : Bytes) (maxBytes : Nat) (done : decodeCcsn bytes id maxBytes = .ok snapshot)
  | pieces (id : Bytes) (maxBytes : Nat) (chunks : List Bytes) (sum : BitVec 32)
      (done : CcsnStreamDecoder.decodeChunks id maxBytes chunks = .ok (snapshot, sum))

theorem Decoded.restorable (decoded : Decoded snapshot) : snapshot.Restorable := by
  cases decoded with
  | whole bytes id maxBytes done =>
    simp only [decodeCcsn, bind_ok_iff] at done
    obtain ⟨_, -, _, -, header, -, _, -, _, -, builder, read, finished⟩ := done
    exact restorable_of_finish finished (decodeRecords_intends read (by rintro _ ⟨⟩))
  | pieces id maxBytes chunks sum done =>
    obtain ⟨decoder, pushed, done⟩ := bind_ok_iff.mp done
    have intends := push_intends pushed (by rintro _ ⟨⟩)
    unfold CcsnStreamDecoder.finish at done
    split_ifs at done
    split at done
    · cases done
    next header =>
      obtain ⟨found, finished, same⟩ := bind_ok_iff.mp done
      obtain ⟨rfl, -⟩ := Prod.mk.inj (Except.ok.inj same)
      exact restorable_of_finish finished intends

theorem restoreMembershipState_ok (node : RaftNode) {state : MembershipState} (valid : state.validate = .ok ()) :
    ∃ restored, node.restoreMembershipState state = (restored, .ok ()) ∧ restored.voters = state.voters := by
  unfold RaftNode.restoreMembershipState
  rw [valid]
  exact ⟨_, rfl, rfl⟩

theorem restoreLeadershipTransfer_ok {restored : RaftNode} (restorable : snapshot.Restorable)
    (voters : restored.voters = snapshot.membership.voters) :
    ∃ resumed, restored.restoreLeadershipTransfer snapshot.leadershipTransfer = (resumed, .ok ()) := by
  unfold RaftNode.restoreLeadershipTransfer
  cases held : snapshot.leadershipTransfer with
  | none => exact ⟨_, rfl⟩
  | some transfer =>
    obtain ⟨intends, voter⟩ := restorable.transfer transfer held
    rw [← voters] at voter
    refine ⟨_, if_neg ?_⟩
    rintro refused
    simp only [Bool.or_eq_true, Bool.and_eq_true, beq_iff_eq, Bool.not_eq_true'] at refused
    rcases refused with (zero | ⟨own, stranger⟩) | stranger
    · exact intends zero
    · exact Bool.false_ne_true (stranger.symm.trans (own ▸ voter))
    · exact Bool.false_ne_true (stranger.symm.trans voter)

/-- An installation of a decoded checkpoint that fails leaves the node as it was. -/
theorem failed_install_is_atomic (restoreLogical : LogicalKvSnapshot → StoreConfig → Except KvError Kv)
    (node after : Node) (snapshot : Checkpoint) (decoded : Decoded snapshot) (error : NodeError)
    (failed : node.installDecodedCcsnSnapshot restoreLogical snapshot = (after, .error error)) : after = node := by
  have restorable := decoded.restorable
  obtain ⟨restored, installed, voters⟩ := restoreMembershipState_ok node.raft restorable.membership
  obtain ⟨resumed, opened⟩ := restoreLeadershipTransfer_ok restorable voters
  unfold Node.installDecodedCcsnSnapshot at failed
  rw [installed] at failed
  dsimp only at failed
  rw [opened] at failed
  split at failed
  · exact (Prod.mk.inj failed).1.symm
  · split at failed
    · exact (Prod.mk.inj failed).1.symm
    · cases (Prod.mk.inj failed).2

/-- A node of the cluster of `loneFile` whose store takes no key. -/
def keyless : Option Node :=
  (Node.new { Node.readerConfig with clusterId := List.replicate 16 1 } {1}).toOption.map fun node =>
    { node with config := { node.config with store := { node.config.store with maxKeyBytes := 0 } } }

theorem refused_loneFile : ∃ node snapshot, keyless = some node ∧
    decodeCcsn loneFile (List.replicate 16 1) 400 = .ok snapshot ∧ node.validateDecodedCcsnSnapshot snapshot = .ok () ∧
      ∃ error, node.installDecodedCcsnSnapshot Kv.restoreLogical snapshot = (node, .error error) := by
  have refused : (keyless.bind fun node => (decodeCcsn loneFile (List.replicate 16 1) 400).toOption.map fun snapshot =>
      ((node.validateDecodedCcsnSnapshot snapshot).isOk, (Kv.restoreLogical snapshot.kv node.config.store).isOk)) =
        some (true, false) := by
    decide +kernel
  obtain ⟨node, made, refused⟩ := Option.bind_eq_some_iff.mp refused
  obtain ⟨snapshot, decoded, refused⟩ := Option.map_eq_some_iff.mp refused
  have decoded := toOption_eq_some.mp decoded
  obtain ⟨valid, unfit⟩ := Prod.mk.inj refused
  obtain ⟨⟨⟩, valid⟩ := isOk_iff.mp valid
  have failed : ∃ error, (node.installDecodedCcsnSnapshot Kv.restoreLogical snapshot).2 = .error error := by
    unfold Node.installDecodedCcsnSnapshot
    rw [valid]
    cases restored : Kv.restoreLogical snapshot.kv node.config.store with
    | error error => exact ⟨_, rfl⟩
    | ok kv => simp [restored, Except.isOk, Except.toBool] at unfit
  obtain ⟨error, failed⟩ := failed
  have same := failed_install_is_atomic _ node _ snapshot (.whole _ _ _ decoded) error (Prod.ext rfl failed)
  exact ⟨node, snapshot, made, decoded, valid, error, Prod.ext same failed⟩

end CrashCourse.Cluster
