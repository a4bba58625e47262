import ServerLink.Protocol.Encoder
import ServerLink.Protocol.Frame

/-!
# ServerLink.Protocol.V31Encoder

The ZMTP 3.1 encoder (`v3_1_encoder.cpp`). It differs from the ZMTP 2 encoder in that a
subscription becomes a command: its name goes in front of the topic, and the large flag
is decided after the name has been counted.
-/

namespace ServerLink

/-- `sub_cmd_name`, `"\x9SUBSCRIBE"`. -/
def subCmdName : List UInt8 := [9, 83, 85, 66, 83, 67, 82, 73, 66, 69]

/-- `cancel_cmd_name`, `"\6CANCEL"`. -/
def cancelCmdName : List UInt8 := [6, 67, 65, 78, 67, 69, 76]

/-- `v3_1_encoder_t`. -/
abbrev V31Encoder := EncoderBase

namespace V31Encoder

/-- The command name that goes in front of a subscribe or cancel message. -/
def commandName (m : Msg) : List UInt8 :=
  if m.isSubscribe then subCmdName else if m.isCancel then cancelCmdName else []

/-- The size that is put on the wire: the name is counted. -/
def wireSize (m : Msg) : Nat := (m.size + (commandName m).length) % 2 ^ 64

/-- What `message_ready` stores in `m_tmp_buf`. -/
def header (m : Msg) : List UInt8 :=
  let flags := V2Protocol.flagsByte m.more (255 < wireSize m)
    (m.command || m.isSubscribe || m.isCancel)
  if 255 < wireSize m then flags :: putUint64 (wireSize m) ++ commandName m
  else flags :: UInt8.ofNat (wireSize m) :: commandName m

/-- The constructor. -/
def new (bufSize : Nat) : V31Encoder := EncoderBase.new bufSize

/-- The frame of a message, as the two actions produce it. -/
def frameBytes (m : Msg) : List UInt8 := EncoderBase.frameBytes header m

/-- Encode a sequence of messages. -/
def encodeAll (e : V31Encoder) (ms : List Msg) : Except Fault (V31Encoder × List UInt8) :=
  EncoderBase.encodeAll header e ms

theorem encodeAll_eq {n : Nat} (hn : 0 < n) {ms : List Msg} (hms : ∀ m ∈ ms, m.hasData = true) :
    ∃ e, encodeAll (new n) ms = .ok (e, ms.flatMap frameBytes) := by
  obtain ⟨e, he, -⟩ := EncoderBase.encodeAll_eq header hn (EncoderBase.new_inv n) rfl rfl hms
  exact ⟨e, he⟩

/-- The frame a message becomes. -/
def wireFrame (m : Msg) : Frame where
  more := m.more
  command := m.command || m.isSubscribe || m.isCancel
  payload := commandName m ++ m.data

theorem commandName_length_le (m : Msg) : (commandName m).length ≤ 10 := by
  unfold commandName
  split
  · exact Nat.le_refl _
  · split
    · exact Nat.le_of_ble_eq_true rfl
    · exact Nat.zero_le _

/-- The frame of every message is read back. -/
theorem feed_frameBytes {A : Nat → Bool} {m : Msg} (hsize : m.size < 2 ^ 63)
    (hA : A (wireSize m) = true) :
    FrameState.feed A .flags (frameBytes m) = (.flags, [wireFrame m]) := by
  have hname := commandName_length_le m
  have hlen : (wireFrame m).payload.length = wireSize m := by
    rw [wireSize, Nat.mod_eq_of_lt (by omega)]
    simp only [wireFrame, List.length_append, Msg.size]
    omega
  have hlt : wireSize m < 2 ^ 64 := Nat.mod_lt _ (by omega)
  unfold frameBytes EncoderBase.frameBytes header
  dsimp only
  by_cases hbig : 255 < wireSize m
  · rw [if_pos hbig, List.cons_append, List.cons_append, List.append_assoc,
      show commandName m ++ m.data = (wireFrame m).payload from rfl,
      FrameState.feed_large hA (by simpa using hbig) hlt hlen]
    simp [wireFrame]
  rw [if_neg hbig, List.cons_append, List.cons_append,
    show commandName m ++ m.data = (wireFrame m).payload from rfl,
    FrameState.feed_small hA (by simpa using hbig) (by omega) hlen]
  simp [wireFrame]

end V31Encoder

end ServerLink
