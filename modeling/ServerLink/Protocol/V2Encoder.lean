import ServerLink.Protocol.Encoder

/-!
# ServerLink.Protocol.V2Encoder

The ZMTP 2 encoder (`v2_encoder.cpp`) on top of the batching state machine of
`encoder.hpp`.
-/

namespace ServerLink

/-- `v2_encoder_t`. -/
abbrev V2Encoder := EncoderBase

namespace V2Encoder

/-- The size that is put on the wire: one more for a subscription's marker byte. -/
def wireSize (m : Msg) : Nat :=
  if m.isSubscribe || m.isCancel then (m.size + 1) % 2 ^ 64 else m.size

/-- The marker byte of a subscribe or cancel message. -/
def markerByte (m : Msg) : List UInt8 :=
  if m.isSubscribe then [1] else if m.isCancel then [0] else []

/-- What `message_ready` stores in `m_tmp_buf`. The large flag is decided on the size
of the message, the width of the length field on the size on the wire. -/
def header (m : Msg) : List UInt8 :=
  let flags := V2Protocol.flagsByte m.more (255 < m.size) m.command
  if 255 < wireSize m then flags :: putUint64 (wireSize m) ++ markerByte m
  else flags :: UInt8.ofNat (wireSize m) :: markerByte m

/-- The constructor. -/
def new (bufSize : Nat) : V2Encoder := EncoderBase.new bufSize

/-- The frame of a message, as the two actions produce it. -/
def frameBytes (m : Msg) : List UInt8 := EncoderBase.frameBytes header m

/-- Encode a sequence of messages. -/
def encodeAll (e : V2Encoder) (ms : List Msg) : Except Fault (V2Encoder × List UInt8) :=
  EncoderBase.encodeAll header e ms

/-- **What the encoder produces.** For every positive batch size, encoding a sequence
of data messages succeeds and yields the concatenation of their frames. -/
theorem encodeAll_eq {n : Nat} (hn : 0 < n) {ms : List Msg} (hms : ∀ m ∈ ms, m.hasData = true) :
    ∃ e, encodeAll (new n) ms = .ok (e, ms.flatMap frameBytes) := by
  obtain ⟨e, he, -⟩ := EncoderBase.encodeAll_eq header hn (EncoderBase.new_inv n) rfl rfl hms
  exact ⟨e, he⟩

end V2Encoder

end ServerLink
