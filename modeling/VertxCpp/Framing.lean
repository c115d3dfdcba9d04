/-
# A stream of frames

`to_string` of `src/vertx/ClusteredMessage.h` puts the length of a frame in front of it.  So no
frame is the beginning of another, and frames sent over one connection one after another can be
told apart from their bytes alone, however they are cut on the way: the bytes of the stream are
the same exactly where the messages agree in all that is sent of them
(`stream_eq_iff`).  `onMessage`, which takes what a read returned for one frame, does not make
use of it (`receive_eq_frames_iff`).
-/
import VertxCpp.EventBus
import VertxCpp.Library.PrefixCode
import VertxCpp.RoundTrip

namespace VertxCpp

open EventBus Memory InformationTheory PrefixCode

namespace ClusteredMessage

/-- The reply, where it is a string. -/
def replyText (m : ClusteredMessage) : Option Bytes :=
  match m.reply with
  | .string s => some s
  | _ => none

/-- What `to_string` writes of a message, but for the constants. -/
def sent (m : ClusteredMessage) : Bytes × Bytes × Int32 × Bytes × Option Bytes :=
  (m.replay, m.address, m.port, m.host, m.replyText)

theorem replyField_eq (m : ClusteredMessage) :
    replyField m.reply = (m.replyText.map lengthPrefixed).getD [] := by
  rw [replyText]
  cases m.reply <;> rfl

/-- A length and its bytes are not nothing, and the bytes are the text. -/
theorem replyField_inj {m n : ClusteredMessage} (h : replyField m.reply = replyField n.reply) :
    m.replyText = n.replyText := by
  rw [replyField_eq, replyField_eq] at h
  have hlen (t : Bytes) : lengthPrefixed t ≠ [] := by
    rw [← List.length_pos_iff, length_lengthPrefixed]
    omega
  cases hm : m.replyText with
  | none =>
    cases hn : n.replyText with
    | none => rfl
    | some t =>
      rw [hm, hn] at h
      exact absurd h.symm (hlen t)
  | some s =>
    cases hn : n.replyText with
    | none =>
      rw [hm, hn] at h
      exact absurd h (hlen s)
    | some t =>
      rw [hm, hn] at h
      rw [(List.append_inj' h (by simpa using congrArg List.length h)).2]

/-- The length of a frame from its first word. -/
def announcedSize : Bytes → ℕ
  | [a, b, c, d] => (BigEndian.join a b c d).toNat + 4
  | _ => 0

theorem length_payload (m : ClusteredMessage) : m.payload.length + 4 = m.frame.length := by
  simp [frame, add_comm]

/-- **A frame says how long it is.** -/
theorem announcedSize_frame {m : ClusteredMessage} (hfit : m.frame.length ≤ 2048) :
    announcedSize (m.frame.take 4) = m.frame.length := by
  have hlen := m.length_payload
  have hword : (Int32.ofNat m.payload.length).toUInt32.toNat = m.payload.length := by
    have hmod : (Int32.ofNat m.payload.length).toUInt32.toNat = m.payload.length % 2 ^ 32 := rfl
    omega
  have htake : m.frame.take 4 = BigEndian.bytes (Int32.ofNat m.payload.length).toUInt32 :=
    List.take_left' (BigEndian.length_bytes _)
  rw [htake, BigEndian.bytes, announcedSize, BigEndian.join_bytes, hword, hlen]

/-- The frames that `to_string` returns. -/
def frames : Set Bytes := {f | ∃ m : ClusteredMessage, m.toString = .ok f}

theorem frame_mem_frames {m : ClusteredMessage} (hfit : m.frame.length ≤ 2048) :
    m.frame ∈ frames := ⟨m, by rw [m.toString_eq, if_pos hfit]⟩

/-- **Frames are told apart** in a stream of them. -/
theorem uniquelyDecodable_frames : UniquelyDecodable frames := by
  have hframe : ∀ f ∈ frames, 4 ≤ f.length ∧ announcedSize (f.take 4) = f.length := by
    rintro f ⟨m, hm⟩
    rw [m.toString_eq] at hm
    split_ifs at hm with hfit
    obtain rfl := Except.ok.inj hm
    exact ⟨by have := m.length_payload; omega, announcedSize_frame hfit⟩
  refine (prefixFree_of_size announcedSize hframe).uniquelyDecodable fun hnil => ?_
  have hlen := (hframe [] hnil).1
  rw [List.length_nil] at hlen
  omega

/-- **A frame is what was sent.** -/
theorem frame_eq_iff {m n : ClusteredMessage} (hm : m.frame.length ≤ 2048)
    (hn : n.frame.length ≤ 2048) : m.frame = n.frame ↔ m.sent = n.sent := by
  constructor
  · intro h
    obtain ⟨mem, hmem⟩ : ∃ mem, CStr m.frame mem := ⟨overlay _ fun _ => 0, holds_overlay _ _⟩
    obtain ⟨haddress, hreplay, hport, hhost, -⟩ :=
      fields_arrive (by rw [m.toString_eq, if_pos hm]) hmem false
    obtain ⟨haddress', hreplay', hport', hhost', -⟩ :=
      fields_arrive (m := n) (by rw [n.toString_eq, if_pos hn]) (h ▸ hmem) false
    rw [haddress] at haddress'
    rw [hreplay] at hreplay'
    rw [hport] at hport'
    rw [hhost] at hhost'
    have hsize : m.payload.length = n.payload.length := by
      rw [← Nat.add_right_cancel_iff (n := 4), length_payload, length_payload, h]
    have hheader : m.header = n.header := by
      rw [header, header, hsize, haddress', hreplay', hport', hhost']
    rw [frame_eq, frame_eq, hheader] at h
    rw [sent, sent, haddress', hreplay', hport', hhost',
      replyField_inj (List.append_cancel_left h)]
  · intro h
    obtain ⟨hreplay, h⟩ := Prod.mk.inj h
    obtain ⟨haddress, h⟩ := Prod.mk.inj h
    obtain ⟨hport, h⟩ := Prod.mk.inj h
    obtain ⟨hhost, htext⟩ := Prod.mk.inj h
    rw [frame, frame, payload, payload, replyField_eq, replyField_eq, hreplay, haddress, hport,
      hhost, htext]

/-- **The bytes of a stream are the messages**, as far as anything is sent of them. -/
theorem stream_eq_iff {ms ns : List ClusteredMessage} (hms : ∀ m ∈ ms, m.frame.length ≤ 2048)
    (hns : ∀ n ∈ ns, n.frame.length ≤ 2048) :
    (ms.map frame).flatten = (ns.map frame).flatten ↔ ms.map sent = ns.map sent := by
  rw [flatten_map_inj uniquelyDecodable_frames (fun m hm => frame_mem_frames (hms m hm))
    fun n hn => frame_mem_frames (hns n hn)]
  induction ms generalizing ns with
  | nil => cases ns <;> simp
  | cons m ms ih =>
    cases ns with
    | nil => simp
    | cons n ns =>
      rw [List.map_cons, List.map_cons, List.map_cons, List.map_cons, List.cons.injEq,
        List.cons.injEq, frame_eq_iff (hms m List.mem_cons_self) (hns n List.mem_cons_self),
        ih (fun m hm => hms m (List.mem_cons_of_mem _ hm))
          fun n hn => hns n (List.mem_cons_of_mem _ hn)]

/-- A request, and the answer to it, are not two answers. -/
theorem stream_eq_iff_orders :
    let request := requestMessage (bytes "reply") (bytes "orders") 1 (bytes "a") .empty
    let answer := { request with reply := .string (bytes "done") }
    ([request, answer].map frame).flatten ≠ ([answer, answer].map frame).flatten := by
  intro request answer h
  have hfit : ∀ m ∈ [request, answer], m.frame.length ≤ 2048 := by decide
  have hfit' : ∀ m ∈ [answer, answer], m.frame.length ≤ 2048 := by decide
  exact absurd ((stream_eq_iff hfit hfit').1 h) (by decide)

end ClusteredMessage

end VertxCpp
