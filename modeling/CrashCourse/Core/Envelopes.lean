import CrashCourse.Core.Config
import CrashCourse.Core.Reading

/-!
Config envelopes survive their codec: an envelope whose numbers fit their fields decodes to itself.
-/

namespace CrashCourse.Core

theorem crc32cZeroedTail_append (body : Bytes) {field field' : Bytes} (four : field.length = 4)
    (four' : field'.length = 4) : crc32cZeroedTail (body ++ field) = crc32cZeroedTail (body ++ field') := by
  simp [crc32cZeroedTail, four, four']

theorem openRecord_sealRecord (body : Bytes) : openRecord (sealRecord body) = .ok body := by
  let sum := crc32cZeroedTail (body ++ Enc.u32 0)
  have four : (Enc.u32 sum.toNat).length = 4 := leBytes_length 4 _
  have stored : leNat (Enc.u32 sum.toNat) = sum.toNat := leNat_leBytes_of_lt sum.isLt
  have same : crc32cZeroedTail (sealRecord body) = sum :=
    crc32cZeroedTail_append body four (leBytes_length 4 0)
  have shape : sealRecord body = body ++ Enc.u32 sum.toNat := rfl
  have length : (sealRecord body).length - 4 = body.length := by
    rw [shape, List.length_append, four]
    rfl
  unfold openRecord
  dsimp only
  rw [if_neg (by rw [shape, List.length_append, four]; omega), same, length, shape,
    List.drop_left, stored, if_neg (not_not.mpr rfl), List.take_left]

namespace Dec
variable {α β : Type}

def ReadsAll (decoder : Decode α) (chunk : Bytes) (value : α) : Prop :=
  ∀ before : Bytes, decoder ⟨before ++ chunk, before.length⟩ =
    .ok (value, ⟨before ++ chunk, before.length + chunk.length⟩)

theorem ReadsAll.finish (value : α) : ReadsAll (do Dec.finish; return value) [] value := by
  intro before
  have ended : Dec.finish ⟨before ++ [], before.length⟩ = .ok ((), ⟨before ++ [], before.length⟩) :=
    if_pos (by rw [List.append_nil])
  change (Dec.finish ⟨before ++ [], before.length⟩ >>= fun pair => _) = _
  rw [ended]
  rfl

theorem Reads.bindAll {first : Decode α} {second : α → Decode β} {chunk chunk' : Bytes} {value : α}
    {value' : β} (one : Reads first chunk value) (two : ReadsAll (second value) chunk' value') :
    ReadsAll (first >>= second) (chunk ++ chunk') value' := by
  intro before
  change (first _ >>= fun pair => second pair.1 pair.2) = _
  have here := one before chunk'
  have next := two (before ++ chunk)
  simp only [List.append_assoc, List.length_append] at here next ⊢
  rw [here]
  exact next.trans (by rw [Nat.add_assoc])

theorem Reads.finish {first : Decode α} {chunk : Bytes} {value : α} (reads : Reads first chunk value) : ReadsAll (do
      let value ← first
      Dec.finish
      return value) chunk value := by
  rw [← List.append_nil chunk]
  exact reads.bindAll (ReadsAll.finish value)

theorem ReadsAll.run {decoder : Decode α} {chunk : Bytes} {value : α}
    (reads : ReadsAll decoder chunk value) : Dec.run decoder chunk = .ok value := by
  have here : decoder (Dec.new chunk) = .ok (value, ⟨chunk, 0 + chunk.length⟩) := reads []
  unfold Dec.run
  rw [here]
  rfl

theorem Reads.nonzeroIndex {index : Nat} (positive : index ≠ 0) (fits : index < 2 ^ 64) :
    Reads decodeNonzeroIndex (Enc.u64 index) index := by
  apply (Reads.u64 fits).close
  rw [if_neg positive]

end Dec

theorem TransferResult.decode_tag (result : TransferResult) : decode result.tag = .ok result := by
  cases result <;> rfl

theorem ConfigOperation.decode_finish {intent : Nat} (positive : intent ≠ 0) (fits : intent < 2 ^ 64)
    (result : TransferResult) : decode 7 (encodeBody (.finishLeaderTransfer intent result)) =
      .ok (.finishLeaderTransfer intent result) := by
  apply Dec.ReadsAll.run
  apply Dec.Reads.finish
  apply (Dec.Reads.nonzeroIndex positive fits).bind
  apply (Dec.Reads.u8 result.tag).close
  rw [TransferResult.decode_tag]
  rfl

namespace ConfigEnvelope

def validSession : Option (SessionKey × Nat) → Prop
  | none => True
  | some (key, sequence) =>
    key.namespaceCode = SessionNamespace.adminRequest.code ∧ key.client ≠ 0 ∧ sequence ≠ 0 ∧
      sequence < 2 ^ 64

theorem decodeSession_reads {session : Option (SessionKey × Nat)} (valid : validSession session) :
    Dec.Reads decodeSession (encodeSession session) session := by
  cases session with
  | none =>
    intro before after
    exact ((Dec.Reads.u8 0).bind ((Dec.Reads.u8 0).bind ((Dec.Reads.u64 (Nat.two_pow_pos 64)).bind
      ((Dec.Reads.u64 (Nat.two_pow_pos 64)).close (if_pos ⟨rfl, rfl, rfl, rfl⟩))))) before after
  | some entry =>
    obtain ⟨⟨code, client⟩, sequence⟩ := entry
    obtain ⟨rfl, named, counted, fits⟩ := valid
    have back : UInt64.ofNat client.toNat = client := UInt64.ofNat_toNat
    have fresh : SessionKey.new SessionNamespace.adminRequest.code client =
        .ok ⟨SessionNamespace.adminRequest.code, client⟩ := by
      simp [SessionKey.new, named]
    have fields : encodeSession (some (⟨SessionNamespace.adminRequest.code, client⟩, sequence)) =
        Enc.u8 1 ++ (Enc.u8 SessionNamespace.adminRequest.code ++
          (Enc.u64 client.toNat ++ Enc.u64 sequence)) := by
      simp [encodeSession]
    rw [fields]
    apply (Dec.Reads.u8 1).bind
    apply (Dec.Reads.u8 _).bind
    apply (Dec.Reads.u64 client.toNat_lt).bind
    apply (Dec.Reads.u64 fits).close
    rw [if_neg fun none => absurd none.1 (by decide), if_pos ⟨rfl, rfl, counted⟩, back, fresh]
    rfl

theorem decode_encode {envelope : ConfigEnvelope} (session : validSession envelope.adminSession)
    (time : envelope.leaderTime < 2 ^ 64) (short : envelope.operation.encodeBody.length ≤ maxCodecBytes)
    (body : ConfigOperation.decode envelope.operation.tag envelope.operation.encodeBody =
      .ok envelope.operation) : decode envelope.encode = .ok envelope := by
  have read : Dec.ReadsAll decodeBody
      (Enc.header configEnvelopeMagic configFormatVersion ++ (encodeSession envelope.adminSession ++
        (Enc.u64 envelope.leaderTime ++ (Enc.u8 envelope.operation.tag ++
          (Enc.bytes envelope.operation.encodeBody ++ []))))) envelope := by
    unfold decodeBody
    apply (Dec.Reads.header (by decide) (by decide)).bindAll
    apply (decodeSession_reads session).bindAll
    apply (Dec.Reads.u64 time).bindAll
    apply (Dec.Reads.u8 _).bindAll
    apply (Dec.Reads.bytesField short).bindAll
    rw [body]
    exact Dec.ReadsAll.finish envelope
  unfold decode encode
  rw [openRecord_sealRecord]
  simp only [List.append_nil, List.append_assoc] at read ⊢
  exact read.run

end ConfigEnvelope
end CrashCourse.Core
