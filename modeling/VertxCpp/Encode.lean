/-
# The encoder: `set_int`, `to_cstring`, `to_string`

`src/vertx/ClusteredMessage.h`.  `to_string` gives `to_cstring` the bare pointer
to a string of 2048 bytes and an index, and cuts the string at the index it gets
back.  `Out` is that pointer with that index; a write behind the buffer is the
fault `bufferOverrun`.

The frame is written once from front to back, its first word being the
`message_size` the object happens to hold, and then the word is written again
with the number of bytes behind it.  `frame` is the result as one list:
`toString_eq` says that this is what `to_string` returns when it fits, and that
it faults on the first byte past the buffer when it does not.
-/
import VertxCpp.Library.BigEndian
import VertxCpp.Message

namespace VertxCpp

/-- `char *result` and the `int &index` of the next write. -/
@[ext] structure Out where
  result : Bytes
  index : ℕ

namespace Out

/-- `result[index++] = c`. -/
def put (o : Out) (c : UInt8) : Except Fault Out :=
  if o.index < o.result.length then .ok ⟨o.result.set o.index c, o.index + 1⟩
  else .error (.bufferOverrun o.index)

/-- `for (char c : s) result[index++] = c`. -/
def putChars (o : Out) (s : Bytes) : Except Fault Out := s.foldlM put o

/-- `set_int(result, index, i_value)`. -/
def setInt (o : Out) (iValue : Int32) : Except Fault Out := do
  let o ← o.put ((iValue.toUInt32 &&& 0xff000000) >>> 24).toUInt8
  let o ← o.put ((iValue.toUInt32 &&& 0x00ff0000) >>> 16).toUInt8
  let o ← o.put ((iValue.toUInt32 &&& 0x0000ff00) >>> 8).toUInt8
  o.put (iValue.toUInt32 &&& 0x000000ff).toUInt8

end Out

namespace ClusteredMessage

/-- The last statement but one of `to_cstring`: the reply is written where it is a
`std::string`, and nothing, no length either, where it is not. -/
def putReply (m : ClusteredMessage) (o : Out) : Except Fault Out :=
  match m.reply with
  | .string _ => do
    let o ← o.setInt (Int32.ofNat m.replyAsString.length) -- body
    o.putChars m.replyAsString
  | _ => pure o

/-- `to_cstring(result, index)`. -/
def toCstring (m : ClusteredMessage) (o : Out) : Except Fault Out := do
  let o ← o.setInt m.messageSize -- size
  let o ← o.put 1 -- protocol version
  let o ← o.put 9 -- system codec, string
  let o ← o.put 0 -- send
  let o ← o.setInt (Int32.ofNat m.replay.length) -- reply
  let o ← o.putChars m.replay
  let o ← o.setInt (Int32.ofNat m.address.length) -- replay address
  let o ← o.putChars m.address
  let o ← o.setInt m.port -- port
  let o ← o.setInt (Int32.ofNat m.host.length) -- host
  let o ← o.putChars m.host
  let o ← o.setInt 4 -- headers
  let o ← m.putReply o
  -- `set_int(result, 0, index - 4)` has its own index, so `index` stays
  let back ← (Out.mk o.result 0).setInt (Int32.ofInt (o.index - 4))
  pure ⟨back.result, o.index⟩

/-- `to_string(message)`. -/
def toString (m : ClusteredMessage) : Except Fault Bytes := do
  let o ← m.toCstring ⟨List.replicate 2048 0, 0⟩
  pure (o.result.take o.index)

end ClusteredMessage

/-! ### The frame as a list -/

/-- A length and its bytes, as `set_int` and the loop behind it write them. -/
def lengthPrefixed (s : Bytes) : Bytes := BigEndian.bytes (Int32.ofNat s.length).toUInt32 ++ s

@[simp] theorem length_lengthPrefixed (s : Bytes) : (lengthPrefixed s).length = 4 + s.length := by
  simp [lengthPrefixed]

/-- What `to_cstring` writes last: the reply where it is a string, else nothing. -/
def replyField : Any → Bytes
  | .string s => lengthPrefixed s
  | _ => []

namespace ClusteredMessage

/-- Everything behind the first word of the frame of `m`. -/
def payload (m : ClusteredMessage) : Bytes :=
  [1, 9, 0] ++ lengthPrefixed m.replay ++ lengthPrefixed m.address
    ++ BigEndian.bytes m.port.toUInt32 ++ lengthPrefixed m.host
    ++ BigEndian.bytes (4 : Int32).toUInt32 ++ replyField m.reply

/-- The frame of `m`: the number of bytes that follow, and those. -/
def frame (m : ClusteredMessage) : Bytes :=
  BigEndian.bytes (Int32.ofNat m.payload.length).toUInt32 ++ m.payload

theorem length_frame (m : ClusteredMessage) :
    m.frame.length
      = 27 + m.replay.length + m.address.length + m.host.length + (replyField m.reply).length := by
  simp [frame, payload]
  omega

end ClusteredMessage

/-! ### Writing front to back -/

namespace Out

/-- `w` written so far, `r` the old content of what is left of the buffer. -/
def written (w r : Bytes) : Out := ⟨w ++ r, w.length⟩

theorem setInt_eq (o : Out) (i : Int32) : o.setInt i = o.putChars (BigEndian.bytes i.toUInt32) := by
  obtain ⟨h₁, h₂, h₃, h₄⟩ := BigEndian.toUInt8_mask i.toUInt32
  rw [setInt, h₁, h₂, h₃, h₄]
  simp [putChars, BigEndian.bytes]

theorem put_eq (o : Out) (c : UInt8) : o.put c = o.putChars [c] := by
  simp [putChars]

theorem putChars_append (o : Out) (s t : Bytes) :
    o.putChars (s ++ t) = o.putChars s >>= fun o => o.putChars t := by
  simp [putChars]

/-- **A write fits or faults.**  Where the buffer has room the bytes replace its
old content; where it has not, the first byte past the end faults. -/
theorem putChars_written (w r s : Bytes) :
    (Out.written w r).putChars s
      = if s.length ≤ r.length then .ok (Out.written (w ++ s) (r.drop s.length))
        else .error (.bufferOverrun (w.length + r.length)) := by
  induction s generalizing w r with
  | nil => simp [putChars, Out.written]; rfl
  | cons c s ih =>
    have hsplit : (Out.written w r).putChars (c :: s)
        = (Out.written w r).put c >>= fun o => o.putChars s := by
      rw [put_eq, ← putChars_append, List.singleton_append]
    rw [hsplit]
    cases r with
    | nil => simp [put, Out.written, bind, Except.bind]
    | cons x r =>
      have hput : (Out.written w (x :: r)).put c = .ok (Out.written (w ++ [c]) r) := by
        simp [put, Out.written]
      have := ih (w ++ [c]) r
      rw [hput]
      simp only [bind, Except.bind, this, List.length_cons, List.length_append, List.length_nil]
      simp only [List.append_assoc, List.singleton_append, Nat.add_le_add_iff_right,
        List.drop_succ_cons]
      rw [show w.length + (0 + 1) + r.length = w.length + (r.length + 1) by omega]

end Out

theorem ClusteredMessage.putReply_eq (m : ClusteredMessage) (o : Out) :
    m.putReply o = o.putChars (replyField m.reply) := by
  rw [putReply, replyAsString]
  cases m.reply with
  | string s =>
    simp only [Any.asString, replyField, lengthPrefixed, Out.setInt_eq, Out.putChars_append]
  | _ => simp [replyField, Out.putChars]

/-- **The encoder is one pass and one correction.**  `to_cstring` writes its whole
draft, whose first word is the `message_size` field, and then the first word
again. -/
theorem ClusteredMessage.toCstring_eq (m : ClusteredMessage) (o : Out) :
    m.toCstring o
      = o.putChars (BigEndian.bytes m.messageSize.toUInt32 ++ m.payload) >>= fun o =>
          (Out.mk o.result 0).setInt (Int32.ofInt (o.index - 4)) >>= fun back =>
            pure ⟨back.result, o.index⟩ := by
  rw [show m.payload = [1] ++ [9] ++ [0] ++ lengthPrefixed m.replay ++ lengthPrefixed m.address
    ++ BigEndian.bytes m.port.toUInt32 ++ lengthPrefixed m.host
    ++ BigEndian.bytes (4 : Int32).toUInt32 ++ replyField m.reply from rfl]
  simp only [toCstring, putReply_eq, lengthPrefixed, Out.setInt_eq, Out.put_eq, List.append_assoc,
    Out.putChars_append, bind_assoc]

/-- Writing the first word again: the four bytes at the front are replaced. -/
theorem Out.setInt_front (w r : Bytes) (i j : Int32) :
    (Out.mk (BigEndian.bytes i.toUInt32 ++ w ++ r) 0).setInt j
      = .ok (Out.written (BigEndian.bytes j.toUInt32) (w ++ r)) := by
  have hfront : Out.mk (BigEndian.bytes i.toUInt32 ++ w ++ r) 0
      = Out.written [] (BigEndian.bytes i.toUInt32 ++ w ++ r) := rfl
  rw [hfront, Out.setInt_eq, Out.putChars_written, if_pos (by simp)]
  simp [BigEndian.bytes]

/-- **What `to_string` returns.**  The frame where the buffer of 2048 bytes holds
it; otherwise the first byte past the buffer is written behind it. -/
theorem ClusteredMessage.toString_eq (m : ClusteredMessage) :
    m.toString
      = if m.frame.length ≤ 2048 then .ok m.frame else .error (.bufferOverrun 2048) := by
  have hlen : (BigEndian.bytes m.messageSize.toUInt32 ++ m.payload).length = m.frame.length := by
    simp [frame]
  have hstart : (⟨List.replicate 2048 0, 0⟩ : Out) = Out.written [] (List.replicate 2048 0) := rfl
  rw [toString, toCstring_eq, hstart, Out.putChars_written, hlen, List.length_replicate]
  split_ifs with h
  · have hindex : Int32.ofInt ((m.frame.length : ℤ) - 4) = Int32.ofNat m.payload.length := by
      rw [← Int32.ofInt_eq_ofNat, ← hlen, List.length_append, BigEndian.length_bytes]
      congr 1
      omega
    have hback := Out.setInt_front m.payload ((List.replicate 2048 0).drop m.frame.length)
      m.messageSize (Int32.ofNat m.payload.length)
    simp only [bind, Except.bind, pure, Except.pure, Out.written, List.nil_append, hlen, hindex,
      hback]
    rw [← List.append_assoc, ← frame, List.take_left]
  · rfl

/-- **The encoder stays inside its buffer exactly where the frame fits.**  The buffer
has 2048 bytes, whatever the strings of the message are: no byte is written behind it,
and the whole frame comes back, where the frame has no more. -/
theorem ClusteredMessage.toString_eq_frame_iff (m : ClusteredMessage) :
    ((∃ o, m.toCstring ⟨List.replicate 2048 0, 0⟩ = .ok o) ∧ m.toString = .ok m.frame) ↔
      27 + m.replay.length + m.address.length + m.host.length + (replyField m.reply).length
        ≤ 2048 := by
  rw [← m.length_frame]
  constructor
  · rintro ⟨-, hstring⟩
    by_contra hlong
    rw [m.toString_eq, if_neg hlong] at hstring
    cases hstring
  · intro hfit
    have hstring : m.toString = .ok m.frame := by rw [m.toString_eq, if_pos hfit]
    refine ⟨?_, hstring⟩
    rw [toString] at hstring
    cases hwritten : m.toCstring ⟨List.replicate 2048 0, 0⟩ with
    | error e =>
      rw [hwritten] at hstring
      cases hstring
    | ok o => exact ⟨o, rfl⟩

/-- A reply of 2018 times `a`, all other strings empty: one byte too many. -/
def longReply : ClusteredMessage where
  messageSize := 0
  protocolVersion := 1
  systemCodecId := 9
  send := true
  address := []
  replay := []
  port := 0
  host := []
  headers := 4
  body := .empty
  reply := .string (List.replicate 2018 97)

/-- The byte behind the buffer is written. -/
theorem longReply_overruns :
    longReply.toString = .error (.bufferOverrun 2048) ∧
      ¬ ((∃ o, longReply.toCstring ⟨List.replicate 2048 0, 0⟩ = .ok o) ∧
        longReply.toString = .ok longReply.frame) := by
  have hlen : longReply.frame.length = 2049 := by
    rw [longReply.length_frame, longReply, replyField, length_lengthPrefixed,
      List.length_replicate]
    rfl
  have hstring : longReply.toString = .error (.bufferOverrun 2048) := by
    rw [longReply.toString_eq, hlen, if_neg (by omega)]
  refine ⟨hstring, fun h => ?_⟩
  rw [hstring] at h
  cases h.2

end VertxCpp
