import ServerLink.Protocol.Delivery
import ServerLink.Protocol.V2Encoder

/-!
# ServerLink.Protocol.RoundTrip

The encoder and the decoder back to back. A sequence of messages survives the trip
(`RoundTrip`) exactly when no subscribe or cancel message has a topic of 255 bytes: the
encoder decides on the large flag before it counts the marker byte, so such a frame
carries an eight-byte length without the flag that announces one.
-/

namespace ServerLink

open V2Encoder FrameState List V2Decoder Allocator

variable {m : Msg}

/-- The frame a message is meant to become on the other side: a subscription is the
byte 1 or 0 followed by the topic. -/
def intendedFrame (m : Msg) : Frame where
  more := m.more
  command := m.command
  payload :=
    if m.isSubscribe then 1 :: m.data else if m.isCancel then 0 :: m.data else m.data

/-- The bytes the encoder, with batches of `outBatch` bytes, produces for the messages,
delivered to a new decoder as `plan` says, become the intended frames; none of the
bytes is left over and the decoder ends at a frame boundary. -/
def RoundTrip (mem : Memory) (outBatch inBatch : Nat) (zeroCopy : Bool) (plan : Nat → ReadEvent)
    (ms : List Msg) : Prop :=
  ∃ e bytes r0 r, encodeAll (V2Encoder.new outBatch) ms = .ok (e, bytes) ∧
    Receiver.new mem inBatch (-1) zeroCopy = .ok r0 ∧
    r0.deliver mem plan bytes.length 0 bytes = .ok r ∧
    r.frames = ms.map intendedFrame ∧ r.failed = false ∧ r.dec.frameState = .flags

/-- A subscribe or cancel message whose length field is announced wrongly. -/
def Misannounced (m : Msg) : Prop := (m.isSubscribe || m.isCancel) = true ∧ m.size = 255

instance (m : Msg) : Decidable (Misannounced m) := inferInstanceAs (Decidable (_ ∧ _))

/-! ### One frame -/

theorem marker_append_data (m : Msg) : markerByte m ++ m.data = (intendedFrame m).payload := by
  unfold markerByte intendedFrame
  split
  · rfl
  · split <;> rfl

theorem intendedFrame_payload_ne_nil (hm : Misannounced m) : (intendedFrame m).payload ≠ [] := by
  have hlen := congrArg length (marker_append_data m)
  rw [length_append, show m.data.length = 255 from hm.2] at hlen
  intro h
  rw [h] at hlen
  simp at hlen

theorem wireSize_eq (h : m.size < 2 ^ 63) : wireSize m = (intendedFrame m).payload.length := by
  rw [← marker_append_data]
  unfold wireSize markerByte
  simp only [Msg.size] at h ⊢
  by_cases h1 : m.isSubscribe = true
  · simp only [h1, Bool.true_or, if_true, length_append, length_singleton]
    omega
  by_cases h2 : m.isCancel = true
  · simp only [h1, h2, Bool.or_true, if_true, if_false, Bool.false_eq_true,
      length_append, length_singleton]
    omega
  · simp [h1, h2]

theorem frameBytes_eq (m : Msg) :
    frameBytes m =
      if 255 < wireSize m then
        V2Protocol.flagsByte m.more (255 < m.size) m.command ::
          (putUint64 (wireSize m) ++ (intendedFrame m).payload)
      else V2Protocol.flagsByte m.more (255 < m.size) m.command ::
          UInt8.ofNat (wireSize m) :: (intendedFrame m).payload := by
  rw [← marker_append_data]
  unfold frameBytes EncoderBase.frameBytes header
  split <;> simp

/-- The frame of any other message is read back as intended. -/
theorem feed_frameBytes {A : Nat → Bool} (hsize : m.size < 2 ^ 63) (hA : A (wireSize m) = true)
    (hm : ¬ Misannounced m) :
    feed A .flags (frameBytes m) = (.flags, [intendedFrame m]) := by
  have hlen := wireSize_eq hsize
  have hflag : 255 < wireSize m ↔ 255 < m.size := by
    unfold wireSize
    split
    · rename_i hs
      have : m.size ≠ 255 := fun h => hm ⟨hs, h⟩
      omega
    · exact Iff.rfl
  have hlt : wireSize m < 2 ^ 64 := by
    unfold wireSize
    split <;> omega
  rw [frameBytes_eq]
  by_cases hbig : 255 < wireSize m
  · rw [if_pos hbig, feed_large hA (by simpa using hflag.mp hbig) hlt hlen.symm]
    simp [intendedFrame]
  · rw [if_neg hbig, feed_small hA
      (by simpa using fun h => hbig (hflag.mpr h)) (by omega) hlen.symm]
    simp [intendedFrame]

/-- The frame of a misannounced message is taken for an empty one. -/
theorem feed_frameBytes_misannounced {A : Nat → Bool} (hA : A 0 = true) (hm : Misannounced m) :
    ∃ s fs, feed A .flags (frameBytes m) = (s, ⟨m.more, m.command, []⟩ :: fs) := by
  obtain ⟨hs, h255⟩ := hm
  have hw : wireSize m = 256 := by
    rw [wireSize, if_pos hs, h255]
    decide
  rw [frameBytes_eq, if_pos (by omega), hw, h255]
  have h := feed_small (f := V2Protocol.flagsByte m.more (decide (255 < 255)) m.command)
    hA (by simp) (by omega) length_nil
  have happ := feed_append ([0, 0, 0, 0, 0, 1, 0] ++ (intendedFrame m).payload) h
  simp only [V2Protocol.flagsByte_more, V2Protocol.flagsByte_command] at happ
  exact ⟨_, _, happ⟩

/-! ### A sequence of messages -/

section Trip

variable {mem : Memory} {limit outBatch inBatch : Nat} {zeroCopy : Bool}
  {plan : Nat → ReadEvent} {ms : List Msg}

variable (plan) in
/-- What arrives is what the byte machine makes of the frames. -/
theorem exists_delivery (hg : mem.Grants limit) (hlimit : 2 ^ 63 ≤ limit) (hout : 0 < outBatch)
    (hin : 0 < inBatch) (hint : inBatch < 2 ^ 31) (hbatch : zeroCopy = true → 9 ≤ inBatch)
    (hms : ∀ m ∈ ms, m.hasData = true) :
    ∃ e r0 r, encodeAll (V2Encoder.new outBatch) ms = .ok (e, ms.flatMap frameBytes) ∧
      Receiver.new mem inBatch (-1) zeroCopy = .ok r0 ∧
      r0.deliver mem plan (ms.flatMap frameBytes).length 0 (ms.flatMap frameBytes) = .ok r ∧
      r.frames = (feed (accepts limit (-1)) .flags (ms.flatMap frameBytes)).2 ∧
      (r.failed = true → (feed (accepts limit (-1)) .flags
        (ms.flatMap frameBytes)).1 = .refused) ∧
      (r.failed = false → r.dec.frameState = (feed (accepts limit (-1)) .flags
        (ms.flatMap frameBytes)).1) := by
  obtain ⟨e, he⟩ := encodeAll_eq hout hms
  have hroom : allocationSize inBatch ≤ limit := by
    simp only [allocationSize, maxCountersOf, atomicCounterSize,
      contentSize, Msg.maxVsmSize]
    omega
  obtain ⟨r0, hr0, hI, hf, hfr, hst, hM, -⟩ := Receiver.new_ok (-1) hg hin hroom hbatch
  obtain ⟨r, hr, -, ha⟩ := Receiver.deliver_eq hg plan _ 0 r0 (ms.flatMap frameBytes) hI hf
    (Nat.le_refl _)
  rw [hM, hst] at ha
  exact ⟨e, r0, r, he, hr0, hr, by rw [ha.frames, hfr, nil_append], ha.failed, ha.state⟩

theorem accepts_wireSize (hlimit : 2 ^ 63 ≤ limit) (hm : m.size + 41 ≤ 2 ^ 63) :
    accepts limit (-1) (wireSize m) = true := by
  refine accepts_iff.mpr ⟨by omega, Or.inr ?_⟩
  have : wireSize m ≤ m.size + 1 := by
    unfold wireSize
    split <;> omega
  simp only [contentSize]
  omega

/-- A misannounced message is not read back, whatever comes before and after it. -/
theorem not_roundTrip (hg : mem.Grants limit) (hlimit : 2 ^ 63 ≤ limit) (hout : 0 < outBatch)
    (hin : 0 < inBatch) (hint : inBatch < 2 ^ 31) (hbatch : zeroCopy = true → 9 ≤ inBatch)
    (hms : ∀ m ∈ ms, m.hasData = true ∧ m.size + 41 ≤ 2 ^ 63) (hm : m ∈ ms)
    (hbad : Misannounced m) :
    ¬ RoundTrip mem outBatch inBatch zeroCopy plan ms := by
  rintro ⟨e, bytes, r0, r, he, hr0, hr, hframes, -, -⟩
  obtain ⟨e', r0', r', he', hr0', hr', hfr, -, -⟩ :=
    exists_delivery plan hg hlimit hout hin hint hbatch (fun m hm => (hms m hm).1)
  rw [he] at he'
  obtain ⟨rfl, rfl⟩ : e = e' ∧ bytes = ms.flatMap frameBytes := by
    cases he'
    exact ⟨rfl, rfl⟩
  rw [hr0] at hr0'
  cases hr0'
  rw [hr] at hr'
  cases hr'
  -- Up to the first such message the stream is read as intended.
  obtain ⟨bad, hfind⟩ := Option.isSome_iff_exists.mp
    (find?_isSome (p := fun m => decide (Misannounced m)).mpr ⟨m, hm, decide_eq_true hbad⟩)
  obtain ⟨hbad', pre, post, hsplit, hpre⟩ := find?_eq_some_iff_append.mp hfind
  have hgood : feed (accepts limit (-1)) .flags (pre.flatMap frameBytes) =
      (.flags, pre.map intendedFrame) := by
    refine Mealy.feed_flatMap fun x hx => ?_
    have hx' := hms x (by simp [hsplit, hx])
    exact feed_frameBytes (by omega) (accepts_wireSize hlimit hx'.2) (by simpa using hpre x hx)
  obtain ⟨s, fs, hs⟩ := feed_frameBytes_misannounced
    (A := accepts limit (-1)) (by rfl) (of_decide_eq_true hbad')
  rw [hframes, hsplit, flatMap_append, feed_append _ hgood, flatMap_cons,
    feed_append _ hs, map_append, map_cons] at hfr
  have hhead := append_cancel_left hfr
  have hpayload := congrArg Frame.payload (cons.inj hhead).1
  exact absurd hpayload (intendedFrame_payload_ne_nil (of_decide_eq_true hbad'))

/-- **Round trip.** For every batch size of the two sides, every way the bytes are cut
into reads and every sequence of messages, the messages are read back as intended iff
none of them is a subscribe or cancel message with a topic of 255 bytes. A message,
its content record and the marker byte fit into one object; `malloc` grants objects of
that size. -/
theorem roundTrip_iff (hg : mem.Grants limit) (hlimit : 2 ^ 63 ≤ limit) (hout : 0 < outBatch)
    (hin : 0 < inBatch) (hint : inBatch < 2 ^ 31) (hbatch : zeroCopy = true → 9 ≤ inBatch)
    (hms : ∀ m ∈ ms, m.hasData = true ∧ m.size + 41 ≤ 2 ^ 63) :
    RoundTrip mem outBatch inBatch zeroCopy plan ms ↔
      ∀ m ∈ ms, ¬ ((m.isSubscribe || m.isCancel) = true ∧ m.size = 255) := by
  refine ⟨fun h m hm hbad => not_roundTrip hg hlimit hout hin hint hbatch hms hm hbad h, ?_⟩
  intro hgood
  obtain ⟨e, r0, r, he, hr0, hr, hfr, hfail, hst⟩ :=
    exists_delivery plan hg hlimit hout hin hint hbatch (fun m hm => (hms m hm).1)
  have hfeed : feed (accepts limit (-1)) .flags (ms.flatMap frameBytes) =
      (.flags, ms.map intendedFrame) := by
    refine Mealy.feed_flatMap fun m hm => ?_
    have hm' := hms m hm
    exact feed_frameBytes (by omega) (accepts_wireSize hlimit hm'.2) (hgood m hm)
  rw [hfeed] at hfr hfail hst
  have hok : r.failed = false := by
    cases hf : r.failed with
    | false => rfl
    | true => exact absurd (hfail hf) (by simp)
  exact ⟨e, _, r0, r, he, hr0, hr, hfr, hok, hst hok⟩

/-- A subscription, a cancellation and the two parts of a message, byte by byte through
batches of sixteen bytes. -/
theorem roundTrip_of_subscriptions :
    RoundTrip largeMemory 16 16 true (fun _ => ⟨1, [0]⟩)
      [Msg.initSubscribe [97, 98], Msg.initCancel [],
        (Msg.initBuffer [1, 2, 3]).setFlags Msg.moreFlag, Msg.initBuffer []] :=
  (roundTrip_iff largeMemory_grants (Nat.le_refl _) (by omega) (by omega) (by omega)
    (fun _ => by omega) (by decide)).mpr (by decide)

/-- A subscription to a topic of 255 bytes is lost. -/
theorem not_roundTrip_topic_255 :
    ¬ RoundTrip largeMemory 8192 8192 true (fun _ => ⟨8192, []⟩)
      [Msg.initSubscribe (replicate 255 97)] :=
  have hdata := Msg.initSubscribe_hasData (replicate 255 97)
  have hsize : (Msg.initSubscribe (replicate 255 97)).size = 255 := length_replicate
  not_roundTrip (m := Msg.initSubscribe (replicate 255 97)) largeMemory_grants
    (Nat.le_refl _) (by omega) (by omega) (by omega) (fun _ => by omega)
    (fun m hm => by
      obtain rfl := mem_singleton.mp hm
      exact ⟨hdata, by omega⟩)
    (mem_singleton.mpr rfl) ⟨by rw [Msg.initSubscribe_isSubscribe]; rfl, hsize⟩

end Trip

end ServerLink
