import CrashCourse.Raft.Replication

/-!
Configuration entries on the leader; a `LeaveJoint` is appended only where its
`EnterJoint` is committed.
-/

namespace CrashCourse.Raft
open CrashCourse.Core Consensus

variable {group : Group} {history : History NodeId Entry} {node : RaftNode}

theorem RaftNode.configEntry_leaves {envelope decoded : ConfigEnvelope} {index : Nat}
    (known : (node.configEntry envelope).envelope? = some decoded) (leaves : decoded.operation = .leaveJoint index) :
    ∃ named, envelope.operation = .leaveJoint named := by
  have done : ConfigEnvelope.decode envelope.encode = .ok decoded := by
    unfold Entry.envelope? RaftNode.configEntry at known
    dsimp only at known
    cases result : ConfigEnvelope.decode envelope.encode with
    | error error => simp [result, Except.toOption] at known
    | ok value => simpa [result, Except.toOption] using known
  have tag := ConfigEnvelope.decode_encode_tag done
  rw [leaves] at tag
  cases operation : envelope.operation with
  | leaveJoint named => exact ⟨named, rfl⟩
  | _ => rw [operation] at tag; simp [ConfigOperation.tag] at tag

/-- A `LeaveJoint` that this node appends answers a committed `EnterJoint`. -/
def Owed (node : RaftNode) (envelope : ConfigEnvelope) : Prop :=
  ∀ named index, envelope.operation = .leaveJoint named → node.jointEnterIndex = some index →
    index ≤ node.commitIndex

theorem Owed.of_other {envelope : ConfigEnvelope}
    (other : ∀ named, envelope.operation ≠ .leaveJoint named) : Owed node envelope :=
  fun named _ leaves => absurd leaves (other named)

namespace RaftNode

theorem configEntry_isConfig (node : RaftNode) (envelope : ConfigEnvelope) :
    (node.configEntry envelope).kind.isConfig := by
  unfold configEntry
  dsimp only
  split <;> rfl

theorem resyncTransferFinishing_claims (node : RaftNode) : node.SameClaims node.resyncTransferFinishing := by
  unfold resyncTransferFinishing
  split
  next => exact .refl node
  next transfer isOpen =>
    dsimp only
    split
    · exact { SameClaims.refl node with transfer := by simp [isOpen] }
    · exact .refl node

theorem resyncTransferFinishing_role (node : RaftNode) : node.resyncTransferFinishing.role = node.role := by
  unfold resyncTransferFinishing
  split
  · rfl
  · dsimp only
    split <;> rfl

theorem appendConfig_error {envelope : ConfigEnvelope} {error : RaftError}
    (refused : (node.appendConfig envelope).2 = .error error) : (node.appendConfig envelope).1 = node := by
  unfold appendConfig at refused ⊢
  dsimp only at refused ⊢
  split at refused
  next failed => rfl
  next => cases refused

def markFinishing (node : RaftNode) (transfer : LeadershipTransfer) : RaftNode :=
  { node with transfer := some { transfer with finishing := true } }

theorem markFinishing_claims {transfer : LeadershipTransfer}
    (isOpen : node.transfer = some transfer) : node.SameClaims (node.markFinishing transfer) :=
  { SameClaims.refl node with transfer := by simp [markFinishing, isOpen] }

theorem finishLeadershipTransfer_spec (node : RaftNode) (result : TransferResult) (leaderTime : Nat) :
    (∃ after error, node.finishLeadershipTransfer result leaderTime = (after, .error error) ∧
        node.SameClaims after ∧ after.role = node.role) ∨
      ∃ transfer after effects, node.transfer = some transfer ∧
        node.finishLeadershipTransfer result leaderTime = (after, .ok effects) ∧
        (node.markFinishing transfer).appendConfig
          { adminSession := transfer.adminSession
            leaderTime
            operation := .finishLeaderTransfer transfer.intentIndex result } =
          (after, .ok effects) := by
  have same := SameClaims.refl node
  unfold finishLeadershipTransfer
  cases isOpen : node.transfer with
  | none => exact .inl ⟨node, _, rfl, same, rfl⟩
  | some transfer =>
    dsimp only
    split
    · exact .inl ⟨node, _, rfl, same, rfl⟩
    cases done : (node.markFinishing transfer).appendConfig
        { adminSession := transfer.adminSession
          leaderTime
          operation := .finishLeaderTransfer transfer.intentIndex result } with
    | mk after reply =>
      unfold markFinishing at done
      rw [done]
      cases reply with
      | ok effects => exact .inr ⟨transfer, after, effects, rfl, rfl, done⟩
      | error error =>
        have kept := appendConfig_error (congrArg Prod.snd done)
        rw [done] at kept
        dsimp only at kept ⊢
        subst kept
        exact .inl ⟨_, _, rfl, { same with transfer := by simp [isOpen] }, rfl⟩

theorem owedLeave_owed {envelope : ConfigEnvelope} (owes : node.owedLeave = some envelope) : Owed node envelope := by
  intro named index _ isOpen
  by_contra pending
  simp [owedLeave, isOpen, guard, pending] at owes

end RaftNode

section Fixed
variable (inv : History.Inv (rules group) history) (refines : Refines group history node)
include inv refines

theorem Refines.free_of_transfer {transfer : LeadershipTransfer}
    (isOpen : node.transfer = some transfer) : ¬ group.fixed := by
  intro fixed
  obtain ⟨intent, settles, _, begins⟩ := refines.transfer isOpen
  have plain := refines.plain inv fixed intent (refines.log ▸ settles.member)
  simp [Entry.configHas, plain] at begins

theorem Refines.free_of_joint {index : Nat} (isOpen : node.jointEnterIndex = some index) : ¬ group.fixed := by
  intro fixed
  rw [refines.carries.enterIndex, (refines.plain inv fixed).project] at isOpen
  simp [Projection.genesis, group.settled fixed] at isOpen

end Fixed

section Leader
variable (inv : History.Inv (rules group) history)
  (refines : Refines group history node) (leads : Leads group history node)
  (role : node.role = .leader)
include inv refines leads role

theorem Refines.appendConfig (free : ¬ group.fixed) (envelope : ConfigEnvelope) (owed : Owed node envelope) :
    Simulates group history node.id (RaftNode.settle (node.appendConfig envelope)) := by
  unfold RaftNode.appendConfig
  dsimp only
  split
  next => exact ⟨history, .refl history, refines, rfl⟩
  next projected done =>
    have config := node.configEntry_isConfig envelope
    have valid := refines.valid inv
    have next : (node.configEntry envelope).index = node.log.length + 1 := by
      rw [← refines.lastIndex inv]; rfl
    obtain ⟨body, transfer, features⟩ := RaftNode.applyConfigOnAppend_body done
    have acceptable := RaftNode.applyConfigOnAppend_acceptable valid refines.carries
      refines.transferKept refines.featuresKept next done
    obtain ⟨start, elected, _⟩ := leads.elected
    have certified := refines.certified_append inv elected acceptable
      fun decoded index _ known leaves isOpen => by
        obtain ⟨named, leaving⟩ := RaftNode.configEntry_leaves known leaves
        exact owed named index leaving isOpen
    obtain ⟨step, explained, refines', leads'⟩ := refines.push inv leads role body transfer
      features (RaftNode.applyConfigOnAppend_carries config refines.carries done) rfl acceptable
      (fun fixed => absurd fixed free) certified
      (projected.retire (node.removedVoters envelope.operation) (node.configEntry envelope).index)
      fun fixed => absurd fixed free
    refine ⟨_, .cons (.single step) explained (Follows.quiet _ ?_), refines', body.id⟩
    intro effect member
    have reached := step.inv inv
    rcases List.mem_append.mp member with member | member
    · exact refines'.broadcastAppend reached leads' effect member
    · exact refines'.sendAppends reached leads' (fun _ _ fixed => absurd fixed free) effect member

theorem Refines.finishLeadershipTransfer (result : TransferResult) (leaderTime : Nat) :
    Simulates group history node.id
      (RaftNode.settle (node.finishLeadershipTransfer result leaderTime)) := by
  rcases node.finishLeadershipTransfer_spec result leaderTime with
    ⟨after, error, done, same, _⟩ | ⟨transfer, after, effects, isOpen, done, appended⟩
  · rw [done]
    exact ⟨history, .refl history, refines.claims same, same.id⟩
  · have same := RaftNode.markFinishing_claims isOpen
    rw [done, ← appended]
    exact (refines.claims same).appendConfig inv (leads.claims same) role
      (refines.free_of_transfer inv isOpen) _ (.of_other (by simp))

theorem Refines.settleTransfer : Simulates group history node.id node.settleTransfer := by
  have same := node.resyncTransferFinishing_claims
  have synced := refines.claims same
  have syncedLeads := leads.claims same
  have broadcast : ∀ after : RaftNode, node.resyncTransferFinishing.SameClaims after →
      Simulates group history node.id (after, after.broadcastAppend) := fun after kept =>
    ⟨history, Follows.quiet _ ((synced.claims kept).broadcastAppend inv (syncedLeads.claims kept)),
      synced.claims kept, kept.id.trans same.id⟩
  have self := RaftNode.SameClaims.refl node.resyncTransferFinishing
  unfold RaftNode.settleTransfer
  dsimp only
  split
  next transfer isOpen =>
    split
    next => exact broadcast _ self
    next =>
      have finish := fun result => synced.finishLeadershipTransfer inv syncedLeads
        (node.resyncTransferFinishing_role.trans role) result transfer.deadline
      rw [same.id] at finish
      generalize (if node.resyncTransferFinishing.id = transfer.target then
        TransferResult.success else .superseded) = result
      rcases node.resyncTransferFinishing.finishLeadershipTransfer_spec result transfer.deadline with
        ⟨after, error, done, kept, _⟩ | ⟨_, after, effects, _, done, _⟩
      · rw [done]
        exact broadcast after kept
      · have simulated := finish result
        rw [done] at simulated ⊢
        exact simulated
  next => exact broadcast _ self

end Leader
end CrashCourse.Raft
