import Iso8583Switch.Edge.Iso8583Codec
import Iso8583Switch.Hsm.ThalesCodec
import Iso8583Switch.Properties.UniversalCodec

/-!
# Framing does not depend on chunks

Both codecs read their own frames (`Framing.Reads`), so whatever was encoded is
decoded, however the connection cuts it.  For the HSM this rests on two facts about
text: what three texts make together is UTF-8, and a header of four bytes and a command
of two end at character boundaries.
-/

namespace Iso8583Switch

open Text Framing PrefixedLog

/-! ## The codec of the sockets -/

theorem codecEncode_eq (item : Bytes) : codecEncode item = u16Frame item := by
  simp [codecEncode, u16Frame, beBytes]

namespace CodecCrate

theorem decode_eq {ε : Type} (crate : CodecCrate) :
    crate.decode (ε := ε) = framed Except.ok := by
  funext src
  rw [framed]
  rcases hsplit : splitFrame src with ⟨_ | payload, rest⟩
  · cases crate <;> simp only [decode, EdgeIngress.decode, EdgeEgress.decode, hsplit]
  · cases crate <;> simp only [decode, EdgeIngress.decode, EdgeEgress.decode, hsplit, Except.map]

/-- Every decoder reads the frames of every encoder. -/
theorem reads {ε : Type} (crate : CodecCrate) :
    Reads (crate.decode (ε := ε)) u16Frame fun payload => payload.length ≤ 65535 := by
  rw [decode_eq]
  exact reads_framed (fun _ => Nat.lt_succ_of_le) fun _ _ => rfl

theorem encodeAll_eq (crate : CodecCrate) (payloads : List Bytes) :
    crate.encodeAll payloads = stream u16Frame payloads := by
  have hencode (dst item : Bytes) : crate.encode item dst = dst ++ u16Frame item := by
    rw [← codecEncode_eq]
    cases crate <;> rfl
  have hfold := foldl_append u16Frame (fun _ => true) hencode payloads []
  rw [List.filter_true] at hfold
  exact hfold

end CodecCrate

/-- However the encodings are cut into chunks, the payloads are decoded in order, each
as soon as its encoding has fully arrived, and nothing is left. -/
theorem stream_framing {ε : Type} (sender receiver : CodecCrate) (payloads : List Bytes)
    (hpayloads : ∀ payload ∈ payloads, payload.length ≤ 65535) (chunks : List Bytes)
    (hchunks : chunks.flatten = sender.encodeAll payloads) :
    receiveAll (receiver.decode (ε := ε)) chunks = some (payloads, []) ∧
    ∀ before after, chunks = before ++ after → ∃ decoded residue,
      receiveAll (receiver.decode (ε := ε)) before = some (decoded, residue) ∧
      decoded <+: payloads ∧ ∀ m, m ≤ payloads.length →
        (m ≤ decoded.length ↔
          (sender.encodeAll (payloads.take m)).length ≤ before.flatten.length) := by
  rw [sender.encodeAll_eq] at hchunks
  refine ⟨receiveAll_stream receiver.reads hpayloads hchunks, ?_⟩
  rintro before after rfl
  have hprefix : before.flatten <+: stream u16Frame payloads := by
    rw [← hchunks, List.flatten_append]
    exact List.prefix_append _ _
  obtain ⟨decoded, residue, later, harrived, hreceive⟩ :=
    receiveAll_arrived receiver.reads hpayloads hprefix
  refine ⟨decoded, residue, hreceive, ⟨later, harrived.items_eq.symm⟩, fun m hm => ?_⟩
  rw [sender.encodeAll_eq]
  exact harrived.le_length_iff hm

/-- An empty message and one of two bytes, cut inside the second length. -/
theorem stream_framing_cut :
    receiveAll (CodecCrate.edgeEgress.decode (ε := Empty)) [[0, 0, 0], [2, 7], [9]] =
      some ([[], [7, 9]], []) :=
  (stream_framing .edgeIngress .edgeEgress [[], [7, 9]] (by decide) [[0, 0, 0], [2, 7], [9]]
    (by decide)).1

/-! ## The codec of the HSM -/

/-- The header takes four bytes and the command two. -/
structure ThalesMessage.WellFormed (item : ThalesMessage) : Prop where
  header : len item.header = 4
  command : len item.command = 2

namespace ThalesCodec

/-- A message that `encode` takes. -/
def Sendable (item : ThalesMessage) : Prop := item.WellFormed ∧ item.length ≤ 65535

theorem length_bytes (item : ThalesMessage) : item.bytes.length = item.length := by
  rw [ThalesMessage.bytes, List.length_append, List.length_append]
  rfl

theorem message_bytes {item : ThalesMessage} (h : item.WellFormed) :
    message item.bytes = .ok item := by
  obtain ⟨header, command, payload⟩ := item
  obtain ⟨hheader, hcommand⟩ := h
  dsimp only at hheader hcommand
  have htext : ThalesMessage.bytes ⟨header, command, payload⟩ =
      asBytes (header ++ command ++ payload) := by
    rw [asBytes_append, asBytes_append]
    rfl
  have hsix : len (header ++ command) = 6 := by rw [len_append, hheader, hcommand]
  have hlen : len (header ++ command ++ payload) = 6 + len payload := by rw [len_append, hsix]
  have hfirst : slice (header ++ command ++ payload) 0 4 = some header := by
    have hcut := slice_append "" header (command ++ payload)
    rw [String.empty_append, ← String.append_assoc, hheader] at hcut
    exact hcut
  have hsecond : slice (header ++ command ++ payload) 4 6 = some command := by
    have hcut := slice_append header command payload
    rw [hheader, hcommand] at hcut
    exact hcut
  have hthird : slice (header ++ command ++ payload) 6 (6 + len payload) = some payload := by
    have hcut := slice_append (header ++ command) payload ""
    rw [String.append_empty, hsix] at hcut
    exact hcut
  have hlong : ¬ 6 + len payload < 6 := by omega
  rw [message, htext, fromUtf8_asBytes]
  dsimp only
  rw [hlen, if_neg hlong, cut, cut, cut, hfirst, hsecond, hthird]
  rfl

theorem Sendable.length_lt {item : ThalesMessage} (h : Sendable item) :
    item.bytes.length < 2 ^ 16 := by
  rw [length_bytes]
  exact Nat.lt_succ_of_le h.2

theorem decode_eq : decode = framed message := funext fun _ => rfl

theorem reads : Reads decode (fun item => u16Frame item.bytes) Sendable := by
  rw [decode_eq]
  exact reads_framed (fun _ => Sendable.length_lt) fun _ hitem => message_bytes hitem.1

theorem encode_long {item : ThalesMessage} (h : 65535 < item.length) (dst : Bytes) :
    encode item dst = (.error (.invalidData "Message too long"), dst) := if_pos h

theorem encode_short {item : ThalesMessage} (h : item.length ≤ 65535) (dst : Bytes) :
    encode item dst = (.ok (), dst ++ u16Frame item.bytes) := by
  rw [encode, u16Frame, length_bytes]
  exact if_neg (Nat.not_lt.mpr h)

/-- Only the messages that are not too long leave a trace. -/
theorem encodeAll_eq (items : List ThalesMessage) : encodeAll items =
    stream (fun item => u16Frame item.bytes) (items.filter (·.length ≤ 65535)) := by
  refine foldl_append _ (fun item => item.length ≤ 65535) (fun dst item => ?_) items []
  rcases Nat.lt_or_ge 65535 item.length with hlong | hshort
  · rw [encode_long hlong, if_neg (by simpa using hlong)]
  · rw [encode_short hshort, if_pos (by simpa using hshort)]

end ThalesCodec

/-- The messages that are not too long are decoded in order, however their stream is
cut.  A message that is too long is an error and changes nothing. -/
theorem thales_framing (items : List ThalesMessage) (hitems : ∀ item ∈ items, item.WellFormed)
    (chunks : List Bytes) (hchunks : chunks.flatten = ThalesCodec.encodeAll items) :
    receiveAll ThalesCodec.decode chunks = some (items.filter (·.length ≤ 65535), []) ∧
    ∀ item dst, 65535 < item.length →
      ThalesCodec.encode item dst = (.error (.invalidData "Message too long"), dst) := by
  refine ⟨receiveAll_stream ThalesCodec.reads (fun item hmem => ?_)
    (hchunks.trans (ThalesCodec.encodeAll_eq items)), fun item dst hlong =>
      ThalesCodec.encode_long hlong dst⟩
  obtain ⟨hitem, hshort⟩ := List.mem_filter.mp hmem
  exact ⟨hitems item hitem, of_decide_eq_true hshort⟩

/-- A message with a payload of two bytes in one character, cut inside it. -/
theorem thales_framing_cut :
    receiveAll ThalesCodec.decode [[0, 8, 48, 48, 48, 49, 77], [54, 0xC3], [0xA9]] =
      some ([⟨"0001", "M6", "\u00E9"⟩], []) :=
  (thales_framing [⟨"0001", "M6", "\u00E9"⟩]
    (fun item hitem => by cases List.mem_singleton.mp hitem; exact ⟨by decide, by decide⟩)
    [[0, 8, 48, 48, 48, 49, 77], [54, 0xC3], [0xA9]] (by decide)).1

end Iso8583Switch
