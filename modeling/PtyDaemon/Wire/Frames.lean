import Mathlib.Tactic.Common
import PtyDaemon.Framework.Incremental
import PtyDaemon.Protocol

/-!
# Frames

Requests and acknowledgements come over one stream in frames of the same form, and only the payload
says which of the two a frame is. The frames of a buffer do not depend on what the payload is
decoded as.
-/

namespace PtyDaemon

/-- The payload of the first frame of the buffer and the bytes it takes. -/
def nextFrame (buf : List UInt8) : Option (List UInt8 × Nat) :=
  match frameLength buf with
  | none => none
  | some len => if buf.length < 4 + len then none else some ((buf.drop 4).take len, 4 + len)

theorem tryDecodeMessage_eq {α : Type} (fromSlice : List UInt8 → Except String α)
    (buf : List UInt8) :
    tryDecodeMessage fromSlice buf = (nextFrame buf).map fun p => (fromSlice p.1, p.2) := by
  unfold tryDecodeMessage nextFrame
  cases frameLength buf with
  | none => rfl
  | some len =>
    dsimp only
    split <;> rfl

theorem tryDecodeMessage_none {α : Type} {fromSlice : List UInt8 → Except String α}
    {buf : List UInt8} : tryDecodeMessage fromSlice buf = none ↔ nextFrame buf = none := by
  simp [tryDecodeMessage_eq]

private theorem nextFrame_eq_some {buf : List UInt8} {p : List UInt8 × Nat} :
    nextFrame buf = some p ↔ ∃ len, frameLength buf = some len ∧ 4 + len ≤ buf.length ∧
      p = ((buf.drop 4).take len, 4 + len) := by
  unfold nextFrame
  cases frameLength buf with
  | none => simp
  | some len => simp [eq_comm]

private theorem frameLength_append {buf : List UInt8} {len : Nat} (h : frameLength buf = some len)
    (more : List UInt8) : frameLength (buf ++ more) = some len := by
  match buf, h with
  | b0 :: b1 :: b2 :: b3 :: _, h => exact h

/-- The frames of a stream. -/
def frames : Incremental.Decoder UInt8 (List UInt8) where
  decode := nextFrame
  pos h := by
    obtain ⟨len, _, _, rfl⟩ := nextFrame_eq_some.mp h
    exact Nat.lt_of_lt_of_le (by decide) (Nat.le_add_right 4 len)
  bound h := by
    obtain ⟨len, _, hfits, rfl⟩ := nextFrame_eq_some.mp h
    exact hfits
  stable {xs p} ys h := by
    obtain ⟨len, hlen, hfits, rfl⟩ := nextFrame_eq_some.mp h
    apply nextFrame_eq_some.mpr
    refine ⟨len, frameLength_append hlen ys, ?_, ?_⟩
    · simp only [List.length_append]
      omega
    · rw [List.drop_append_of_le_length (by omega), List.take_append_of_le_length]
      simp only [List.length_drop]
      omega

theorem frames_stuck {buf : List UInt8} (h : nextFrame buf = none) :
    frames.messages buf = [] ∧ frames.rest buf = buf :=
  ⟨frames.messages_stuck h, frames.rest_stuck h⟩

theorem frames_more {buf : List UInt8} {p : List UInt8 × Nat} (h : nextFrame buf = some p) :
    frames.messages buf = p :: frames.messages (buf.drop p.2) ∧
      frames.rest buf = frames.rest (buf.drop p.2) :=
  ⟨frames.messages_more h, frames.rest_more h⟩

theorem nextFrame_rest (buf : List UInt8) : nextFrame (frames.rest buf) = none :=
  frames.decode_rest buf

/-- The payloads of the complete frames of a buffer. -/
def payloads (buf : List UInt8) : List (List UInt8) := (frames.messages buf).map Prod.fst

private theorem frameLength_encode {json : List UInt8} (h : json.length < 2 ^ 32) :
    frameLength (encodeMessage json) = some json.length := by
  simp only [encodeMessage, List.cons_append, List.nil_append, frameLength, Option.some.injEq]
  simp only [UInt32.toNat_toUInt8, UInt32.toNat_shiftRight, UInt32.toNat_ofNat']
  simp [Nat.shiftRight_eq_div_pow]
  omega

theorem encodeMessage_length (json : List UInt8) :
    (encodeMessage json).length = 4 + json.length := by
  simp [encodeMessage]
  omega

/-- What has been encoded is the first frame. -/
theorem nextFrame_encode {json : List UInt8} (h : json.length < 2 ^ 32) (more : List UInt8) :
    nextFrame (encodeMessage json ++ more) = some (json, 4 + json.length) := by
  apply nextFrame_eq_some.mpr
  refine ⟨json.length, frameLength_append (frameLength_encode h) more, ?_, ?_⟩
  · simp only [List.length_append, encodeMessage_length]
    omega
  · simp [encodeMessage]

/-- The frames of a concatenation of encoded messages. -/
theorem frames_encode {ps : List (List UInt8)} (h : ∀ p ∈ ps, p.length < 2 ^ 32)
    (more : List UInt8) :
    frames.messages (ps.flatMap encodeMessage ++ more) =
        ps.map (fun p => (p, 4 + p.length)) ++ frames.messages more ∧
      frames.rest (ps.flatMap encodeMessage ++ more) = frames.rest more := by
  induction ps with
  | nil => exact ⟨rfl, rfl⟩
  | cons p ps ih =>
    obtain ⟨hmessages, hrest⟩ := ih fun q hq => h q (List.mem_cons_of_mem p hq)
    obtain ⟨hfirst, hleft⟩ :=
      frames_more (nextFrame_encode (h p List.mem_cons_self) (ps.flatMap encodeMessage ++ more))
    have hdrop : (encodeMessage p ++ (ps.flatMap encodeMessage ++ more)).drop (4 + p.length) =
        ps.flatMap encodeMessage ++ more := by
      rw [← encodeMessage_length p, List.drop_left]
    simp only [List.flatMap_cons, List.append_assoc]
    rw [hfirst, hleft, hdrop, hmessages, hrest]
    exact ⟨rfl, rfl⟩

end PtyDaemon
