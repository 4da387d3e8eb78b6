import VectorTick.Protocol.Acceptance

/-! What a rejected frame leaves behind in the decoder, and what the frames after it see of that.

The sequence number and the session are taken over from the header before the payload is decoded.
-/

set_option autoImplicit false

namespace VectorTick.Vtp1.Decoder

open Foundation

def outcome (decoder : Decoder) (call : Call) : CanonicalEvent × Except Stop Nat :=
  (decoder.decodeFrame call.data call.slot call.receiveTsNs).2

def outcomes : Decoder → List Call → List (CanonicalEvent × Except Stop Nat)
  | _, [] => []
  | decoder, call :: rest => decoder.outcome call :: outcomes (decoder.step call) rest

/-- The call is refused. -/
def Rejects (decoder : Decoder) (call : Call) : Prop :=
  ∃ stop, (decoder.outcome call).2 = .error stop

theorem decodeFrame_congr {first second : Decoder} (same : first.lastSequence = second.lastSequence)
    (call : Call) :
    first.outcome call = second.outcome call ∧ (first.step call).lastSequence =
      (second.step call).lastSequence := by
  unfold outcome step decodeFrame
  cases Frame.readFrame call.data with
  | none => exact ⟨rfl, same⟩
  | some found =>
    obtain ⟨header, payload, consumed⟩ := found
    dsimp only
    cases Frame.validate header payload call.data.length with
    | error stop => exact ⟨rfl, same⟩
    | ok _ =>
      dsimp only
      rw [same]
      by_cases behind : header.sequence ≤ second.lastSequence ∧
        (!isControl header.messageType) = true
      · rw [if_pos behind, if_pos behind]
        exact ⟨rfl, same⟩
      rw [if_neg behind, if_neg behind]
      by_cases control : isControl header.messageType = true
      · rw [if_pos control, if_pos control]
        exact ⟨rfl, rfl⟩
      rw [if_neg control, if_neg control]
      generalize decodePayload header.messageType payload header.payloadLength _ = filled
      obtain ⟨event, ended⟩ := filled
      cases ended <;> exact ⟨rfl, rfl⟩

theorem outcomes_congr (calls : List Call) {first second : Decoder}
    (same : first.lastSequence = second.lastSequence) :
    first.outcomes calls = second.outcomes calls := by
  induction calls generalizing first second with
  | nil => rfl
  | cons call rest ih =>
    obtain ⟨answer, again⟩ := decodeFrame_congr same call
    rw [outcomes, outcomes, answer, ih again]

/-- The call leaves the sequence number and the session, and every run
after it goes as without it. -/
structure LeftAlone (decoder : Decoder) (call : Call) : Prop where
  sequence : (decoder.step call).lastSequence = decoder.lastSequence
  session : (decoder.step call).lastSessionId = decoder.lastSessionId
  later : ∀ calls, (decoder.step call).outcomes calls = decoder.outcomes calls

theorem step_newer {decoder : Decoder} {call : Call} (intact : Intact call.data)
    (newer : decoder.lastSequence < frameSequence call.data) :
    (decoder.step call).lastSequence = frameSequence call.data := by
  rw [step, decodeFrame_intact intact (.inl newer)]
  by_cases control : isControl (messageType call.data) = true
  · rw [if_pos control]
    rfl
  · rw [if_neg control]
    generalize decodePayload (messageType call.data) _ _ _ = filled
    obtain ⟨event, ended⟩ := filled
    cases ended <;> rfl

/-- A rejected frame leaves the decoder as it was exactly if the frame itself is refused: it is not
intact, or not newer than the last one. -/
theorem rejected_left_alone_iff {decoder : Decoder} {call : Call}
    (rejected : decoder.Rejects call) :
    LeftAlone decoder call ↔
      ¬ (Intact call.data ∧ decoder.lastSequence < frameSequence call.data) := by
  obtain ⟨stop, failed⟩ := rejected
  constructor
  · rintro alone ⟨intact, newer⟩
    have same : frameSequence call.data = decoder.lastSequence :=
      (step_newer intact newer).symm.trans alone.sequence
    rw [same] at newer
    exact UInt64.lt_irrefl _ newer
  · intro old
    have refused : ¬ (Intact call.data ∧
        (decoder.lastSequence < frameSequence call.data ∨
          isControl (messageType call.data) = true)) := by
      rintro ⟨intact, newer | control⟩
      · exact old ⟨intact, newer⟩
      · have taken :=
          @decodeFrame_intact decoder call.data call.slot call.receiveTsNs intact (.inr control)
        rw [if_pos control] at taken
        rw [outcome, taken] at failed
        cases failed
    have kept : (decoder.step call).lastSequence = decoder.lastSequence ∧
        (decoder.step call).lastSessionId = decoder.lastSessionId := by
      rcases (@decodeFrame_stays decoder call.data call.slot call.receiveTsNs refused).1 with
        same | counted
      · rw [step, same]
        exact ⟨rfl, rfl⟩
      · rw [step, counted]
        exact ⟨rfl, rfl⟩
    exact ⟨kept.1, kept.2, fun calls => outcomes_congr calls kept.1⟩

def emptyBeat (sequence : UInt64) : Call := ⟨frameBytes .heartbeat sequence 7 [], emptyEvent, 0⟩

theorem emptyBeat_rejected (sequence : UInt64) (decoder : Decoder) :
    decoder.Rejects (emptyBeat sequence) ∧
    Intact (emptyBeat sequence).data ∧ frameSequence (emptyBeat sequence).data = sequence := by
  have header := @readHeader_frameBytes .heartbeat sequence 7 []
  have intact : Intact (emptyBeat sequence).data := intact_frameBytes (by decide)
  have number : frameSequence (emptyBeat sequence).data = sequence :=
    congrArg FrameHeader.sequence header
  have kind : messageType (emptyBeat sequence).data = 5 := congrArg FrameHeader.messageType header
  refine ⟨?_, intact, number⟩
  by_cases newer : decoder.lastSequence < sequence
  · have taken := @decodeFrame_intact decoder (emptyBeat sequence).data (emptyBeat sequence).slot
      (emptyBeat sequence).receiveTsNs intact (.inl (by rwa [number]))
    have size : (Frame.readHeader (emptyBeat sequence).data).payloadLength = 0 :=
      congrArg FrameHeader.payloadLength header
    rw [kind, if_neg (by decide), size] at taken
    exact ⟨.status ⟨.invalidPayload, "Heartbeat payload too small"⟩, by rw [outcome, taken]; rfl⟩
  · refine (@decodeFrame_stays decoder (emptyBeat sequence).data (emptyBeat sequence).slot
      (emptyBeat sequence).receiveTsNs ?_).2
    rintro ⟨-, later | control⟩
    · exact newer (by rwa [number] at later)
    · rw [kind] at control
      exact absurd control (by decide)

theorem rejected_left_alone_beat : Rejects ⟨1, 5, 1, 0⟩ (emptyBeat 5) ∧
    LeftAlone ⟨1, 5, 1, 0⟩ (emptyBeat 5) := by
  obtain ⟨rejected, -, number⟩ := emptyBeat_rejected 5 ⟨1, 5, 1, 0⟩
  refine ⟨rejected, (rejected_left_alone_iff rejected).mpr ?_⟩
  rintro ⟨-, newer⟩
  rw [number] at newer
  exact absurd newer (by decide)

theorem rejected_moves_sequence : ¬ ∀ (decoder : Decoder) (call : Call), decoder.Rejects call →
    LeftAlone decoder call := by
  intro claimed
  obtain ⟨rejected, intact, number⟩ := emptyBeat_rejected 5 {}
  have same := (claimed {} (emptyBeat 5) rejected).sequence
  rw [step_newer intact (by rw [number]; decide), number] at same
  exact absurd same (by decide)

end VectorTick.Vtp1.Decoder
