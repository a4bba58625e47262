import ServerLink.Protocol.Frame
import ServerLink.Protocol.V2Decoder

/-!
# ServerLink.Protocol.DecoderFrames

The decoder refines the byte machine of `Protocol.Frame` (`decode_frames`): whatever
part of a stream a call of `decode` consumes, it consumes as the byte machine does.
-/

namespace ServerLink

open FrameState Allocator List

namespace V2Decoder

variable {mem : Memory}
variable {k : Nat} {d : V2Decoder}

/-! ### The decoder between calls -/

/-- What the field being read must look like. -/
def FieldOk (d : V2Decoder) : Prop :=
  match d.next with
  | .flagsReady | .oneByteSizeReady => d.toRead = 1 ∧ d.tmpbuf = []
  | .eightByteSizeReady => d.tmpbuf.length + d.toRead = 8
  | .messageReady => d.inProgress.flags = d.msgFlags

/-- The state of the decoder between two calls that returned no error. -/
structure WF (d : V2Decoder) : Prop where
  check : d.inProgress.check = true
  toRead_pos : 0 < d.toRead
  field : d.FieldOk

/-- How far the current frame has come. -/
def frameState (d : V2Decoder) : FrameState :=
  let more := d.msgFlags &&& Msg.moreFlag != 0
  let command := d.msgFlags &&& Msg.commandFlag != 0
  match d.next with
  | .flagsReady => .flags
  | .oneByteSizeReady => .oneByteSize more command
  | .eightByteSizeReady => .eightByteSize more command d.tmpbuf
  | .messageReady => .body more command d.toRead d.inProgress.data

/-- The frame a received message stands for. -/
def toFrame (m : Msg) : Frame := ⟨m.more, m.command, m.data⟩

/-- The sizes of a frame the decoder takes, when `malloc` grants what is not larger
than `limit`. -/
def accepts (limit : Nat) (maxMsgSize : Int) (n : Nat) : Bool :=
  decide (¬ (0 ≤ maxMsgSize ∧ maxMsgSize < n)) &&
    decide (n ≤ Msg.maxVsmSize ∨ contentSize + n ≤ limit)

theorem accepts_iff {limit n : Nat} {max : Int} :
    accepts limit max n = true ↔
      ¬ (0 ≤ max ∧ max < n) ∧ (n ≤ Msg.maxVsmSize ∨ contentSize + n ≤ limit) := by
  simp only [accepts, Bool.and_eq_true, decide_eq_true_eq]

theorem new_ok {bufsize : Nat} {max : Int} {zc : Bool} (h : new mem bufsize max zc k = .ok d) :
    d.WF ∧ d.frameState = .flags ∧ d.maxMsgSize = max ∧ d.zeroCopy = zc ∧ d.inPlace = [] ∧
      d.inProgress = Msg.init ∧ d.readPos = tmpbufPtr ∧ d.next = .flagsReady ∧
      Allocator.new mem bufsize k = .ok d.alloc := by
  unfold new at h
  cases ha : Allocator.new mem bufsize k with
  | error e => rw [ha] at h; cases h
  | ok a =>
    rw [ha] at h
    cases h
    exact ⟨⟨rfl, Nat.one_pos, rfl, rfl⟩, rfl, rfl, rfl, rfl, rfl, rfl, rfl, rfl⟩

theorem frameState_ne_refused (d : V2Decoder) : d.frameState ≠ .refused := by
  unfold frameState
  cases d.next <;> simp

/-- A part of the current field moves the byte machine on and emits nothing. -/
theorem advance_lt {bs : List UInt8} {A : Nat → Bool} (hd : d.WF) (h : bs.length < d.toRead) :
    (d.advance bs).WF ∧ feed A d.frameState bs = ((d.advance bs).frameState, []) := by
  have hfield := hd.field
  cases hn : d.next with
  | flagsReady =>
    have h1 : d.toRead = 1 ∧ d.tmpbuf = [] := by simpa [FieldOk, hn] using hfield
    obtain rfl : bs = [] := length_eq_zero_iff.mp (by omega)
    exact ⟨by rwa [advance_nil], by simp [advance_nil]⟩
  | oneByteSizeReady =>
    have h1 : d.toRead = 1 ∧ d.tmpbuf = [] := by simpa [FieldOk, hn] using hfield
    obtain rfl : bs = [] := length_eq_zero_iff.mp (by omega)
    exact ⟨by rwa [advance_nil], by simp [advance_nil]⟩
  | eightByteSizeReady =>
    have h1 : d.tmpbuf.length + d.toRead = 8 := by simpa [FieldOk, hn] using hfield
    have htmp := advance_tmpbuf (d := d) bs (by simp [hn])
    refine ⟨⟨by simp [hd.check], by simp; omega, ?_⟩, ?_⟩
    · simp [FieldOk, hn, htmp]
      omega
    · simpa [frameState, hn, htmp] using feed_eightByteSize_lt d.tmpbuf (by omega)
  | messageReady =>
    have h1 : d.inProgress.flags = d.msgFlags := by simpa [FieldOk, hn] using hfield
    refine ⟨⟨by simp [hd.check], by simp; omega, by simp [FieldOk, hn, h1]⟩, ?_⟩
    simpa [frameState, hn, advance_data] using feed_body_lt _ h

/-- Within the current field the byte machine refuses nothing before the last byte. -/
theorem unrefused_of_le {bs : List UInt8} {A : Nat → Bool} (hd : d.WF)
    (h : bs.length ≤ d.toRead) : FrameState.Unrefused A d.frameState bs := by
  rintro p q rfl hq
  have hlt : p.length < d.toRead := by
    have := length_pos_iff.mpr hq
    rw [length_append] at h
    omega
  rw [(advance_lt (A := A) hd hlt).2]
  exact frameState_ne_refused _

theorem flagsReady_spec {b : UInt8} {A : Nat → Bool} (hc : d.inProgress.check = true)
    (htmp : d.tmpbuf = [b]) :
    d.flagsReady.WF ∧ step A .flags b = (d.flagsReady.frameState, none) := by
  simp only [flagsReady, htmp, headD_cons, step]
  split
  · exact ⟨⟨hc, by simp [nextStep], rfl⟩, by simp [frameState, nextStep]⟩
  · exact ⟨⟨hc, by simp [nextStep], rfl, rfl⟩, by simp [frameState, nextStep]⟩

/-- What a call of the decoder that consumed `used` has to do with the byte machine. -/
def Consumed (A : Nat → Bool) (d : V2Decoder) (used : List UInt8) (d' : V2Decoder) :
    DecodeRc → Prop
  | .more => d'.WF ∧ feed A d.frameState used = (d'.frameState, [])
  | .ready =>
    d'.WF ∧ d'.next = .flagsReady ∧
      feed A d.frameState used = (.flags, [toFrame d'.inProgress])
  | .error _ => feed A d.frameState used = (.refused, [])

theorem Consumed.prepend {A : Nat → Bool} {d1 d' : V2Decoder} {used1 used : List UInt8}
    {rc : DecodeRc} (h : Consumed A d1 used d' rc)
    (hfeed : feed A d.frameState used1 = (d1.frameState, [])) :
    Consumed A d (used1 ++ used) d' rc := by
  have happ := feed_append used hfeed
  cases rc with
  | more =>
    refine ⟨h.1, ?_⟩
    rw [happ, h.2]
    rfl
  | ready =>
    refine ⟨h.1, h.2.1, ?_⟩
    rw [happ, h.2.2]
    rfl
  | error e =>
    simp only [Consumed] at h ⊢
    rw [happ, h]
    rfl

/-- The same for the byte machine's step `r` at the end of a length field. -/
def SizeOutcome (r : FrameState × Option Frame) (d' : V2Decoder) : DecodeRc → Prop
  | .more => d'.WF ∧ r = (d'.frameState, none)
  | .ready => d'.WF ∧ d'.next = .flagsReady ∧ r = (.flags, some (toFrame d'.inProgress))
  | .error _ => r = (.refused, none)

theorem SizeOutcome.consumed {A : Nat → Bool} {d' : V2Decoder} {bs : List UInt8}
    {r : FrameState × Option Frame} {rc : DecodeRc} (h : SizeOutcome r d' rc)
    (hfeed : feed A d.frameState bs = (r.1, r.2.toList)) :
    Consumed A d bs d' rc := by
  cases rc with
  | more =>
    obtain ⟨hwf, rfl⟩ := h
    exact ⟨hwf, hfeed⟩
  | ready =>
    obtain ⟨hwf, hn, rfl⟩ := h
    exact ⟨hwf, hn, hfeed⟩
  | error e =>
    obtain rfl := h
    exact hfeed

section Frames

variable {limit : Nat} (hg : mem.Grants limit)
variable {pos : Ptr}

include hg

/-- Whether `size_ready` goes on depends on the size only. -/
theorem SizeReady.accepts_eq {d' : V2Decoder} {n : Nat} {rc : DecodeRc}
    (h : SizeReady mem d n pos d' rc) (hpos : d.InBuffer pos k)
    (hsize : d.alloc.maxSize + contentSize ≤ limit) :
    rc = .more ∧ accepts limit d.maxMsgSize n = true ∨
      (∃ e, rc = .error e) ∧ accepts limit d.maxMsgSize n = false := by
  cases h with
  | tooLarge hmax hn =>
    refine Or.inr ⟨⟨_, rfl⟩, ?_⟩
    simp [accepts, hmax, hn]
  | noMemory alloc hinit =>
    refine Or.inr ⟨⟨_, rfl⟩, ?_⟩
    have := (initSize_isSome hg (d.alloc.closeMsg d.inProgress) n).not.mp (by simp [hinit])
    simp only [accepts, Bool.and_eq_false_iff, decide_eq_false_iff_not]
    exact Or.inr this
  | own hlim alloc m p hinit =>
    have := (initSize_isSome hg (d.alloc.closeMsg d.inProgress) n).mp (by simp [hinit])
    exact Or.inl ⟨rfl, accepts_iff.mpr ⟨hlim, this⟩⟩
  | copied hlim hsmall => exact Or.inl ⟨rfl, accepts_iff.mpr ⟨hlim, Or.inl (Nat.le_of_lt hsmall)⟩⟩
  | inPlace hlim hzc hbig hroom =>
    have hlt := hg.1
    simp only [contentSize] at hsize
    rw [ptrDiff_of_inBuffer hpos hzc (by simp only [atomicCounterSize]; omega)] at hroom
    have hoff := (hpos hzc).2.1
    refine Or.inl ⟨rfl, accepts_iff.mpr ⟨hlim, Or.inr ?_⟩⟩
    simp only [contentSize]
    omega

/-- A length field that is complete: the byte machine does the same, the empty message
included, which is ready at once. -/
theorem settle_size {n : Nat} (hc : d.inProgress.check = true) (hz : d.toRead = 0)
    (hrun : d.runNext mem pos = d.sizeReady mem n pos) (hpos : d.InBuffer pos k)
    (hsize : d.alloc.maxSize + contentSize ≤ limit) :
    ∃ d' rc, settle mem pos 3 d = .ok (d', rc) ∧
      SizeOutcome (sizeKnown (accepts limit d.maxMsgSize)
        (d.msgFlags &&& Msg.moreFlag != 0) (d.msgFlags &&& Msg.commandFlag != 0) n) d' rc := by
  obtain ⟨d1, rc1, h1, hS⟩ := sizeReady_ok mem hc n pos
  rw [settle, if_pos hz, hrun, h1]
  rcases hS.accepts_eq hg hpos hsize with ⟨rfl, hacc⟩ | ⟨⟨e, rfl⟩, hacc⟩
  · obtain ⟨hnext, htoRead, hcheck, hdata, hflags, hmsg, -⟩ := hS.more_fields
    by_cases hn : n = 0
    · subst hn
      refine ⟨d1.nextStep tmpbufPtr 1 .flagsReady, .ready, ?_, ?_⟩
      · simp [settle, htoRead, runNext, hnext]
      · refine ⟨⟨hcheck, Nat.one_pos, rfl, rfl⟩, rfl, ?_⟩
        simp [sizeKnown, hacc, toFrame, nextStep, Msg.more, Msg.command, hflags, hdata]
    · refine ⟨d1, .more, ?_, ?_⟩
      · simp [settle, htoRead, hn]
      · refine ⟨⟨hcheck, by omega, by simp [FieldOk, hnext, hflags, hmsg]⟩, ?_⟩
        simp [sizeKnown, hacc, hn, frameState, hnext, hmsg, htoRead, hdata]
  · exact ⟨d1, .error e, rfl, by simp [SizeOutcome, sizeKnown, hacc]⟩

theorem settle_advance {bs : List UInt8} (hd : d.WF) (h : bs.length = d.toRead)
    (hpos : d.next ≠ .messageReady → d.InBuffer pos k)
    (hsize : d.alloc.maxSize + contentSize ≤ limit) :
    ∃ d' rc, settle mem pos 3 (d.advance bs) = .ok (d', rc) ∧
      Consumed (accepts limit d.maxMsgSize) d bs d' rc := by
  have hfield := hd.field
  have hz : (d.advance bs).toRead = 0 := by simp [h]
  have hne : bs ≠ [] := by
    rintro rfl
    exact absurd hd.toRead_pos (by simp at h; omega)
  cases hn : d.next with
  | flagsReady =>
    have h1 : d.toRead = 1 ∧ d.tmpbuf = [] := by simpa [FieldOk, hn] using hfield
    obtain ⟨b, rfl⟩ := length_eq_one_iff.mp (h.trans h1.1)
    have htmp : (d.advance [b]).tmpbuf = [b] := by
      rw [advance_tmpbuf _ (by simp [hn]), h1.2]
      rfl
    obtain ⟨hwf, hstep⟩ := flagsReady_spec (A := accepts limit d.maxMsgSize)
      (d := d.advance [b]) (by simp [hd.check]) htmp
    refine ⟨(d.advance [b]).flagsReady, .more, ?_, hwf, ?_⟩
    · rw [settle, if_pos hz]
      simp only [runNext, advance_next, hn, settle]
      rw [if_neg (Nat.ne_of_gt hwf.toRead_pos)]
    · rw [show d.frameState = .flags by simp only [frameState, hn], feed_singleton, hstep]
      rfl
  | oneByteSizeReady =>
    have h1 : d.toRead = 1 ∧ d.tmpbuf = [] := by simpa [FieldOk, hn] using hfield
    obtain ⟨b, rfl⟩ := length_eq_one_iff.mp (h.trans h1.1)
    have htmp : (d.advance [b]).tmpbuf = [b] := by
      rw [advance_tmpbuf _ (by simp [hn]), h1.2]
      rfl
    obtain ⟨d', rc, hs, hr⟩ := settle_size hg (d := d.advance [b]) (n := b.toNat) (k := k)
      (by simp [hd.check]) hz (by simp [runNext, hn, htmp])
      (by simpa [InBuffer] using hpos (by simp [hn])) (by simpa using hsize)
    refine ⟨d', rc, hs, hr.consumed ?_⟩
    simp only [frameState, hn, advance_msgFlags, advance_maxMsgSize]
    exact feed_singleton _ _
  | eightByteSizeReady =>
    have h1 : d.tmpbuf.length + d.toRead = 8 := by simpa [FieldOk, hn] using hfield
    have htmp := advance_tmpbuf (d := d) bs (by simp [hn])
    obtain ⟨d', rc, hs, hr⟩ := settle_size hg (d := d.advance bs)
      (n := getUint64 (d.tmpbuf ++ bs)) (k := k)
      (by simp [hd.check]) hz (by simp [runNext, hn, htmp])
      (by simpa [InBuffer] using hpos (by simp [hn])) (by simpa using hsize)
    refine ⟨d', rc, hs, hr.consumed ?_⟩
    simp only [frameState, hn, advance_msgFlags, advance_maxMsgSize]
    exact feed_eightByteSize_eq hne (h ▸ h1)
  | messageReady =>
    have h1 : d.inProgress.flags = d.msgFlags := by simpa [FieldOk, hn] using hfield
    refine ⟨(d.advance bs).nextStep tmpbufPtr 1 .flagsReady, .ready, ?_, ?_⟩
    · simp [settle, h, runNext, hn]
    refine ⟨⟨by simpa [nextStep] using hd.check, Nat.one_pos, rfl, rfl⟩, rfl, ?_⟩
    simp only [frameState, hn]
    rw [feed_body_eq hne h]
    simp [toFrame, nextStep, advance_data, hn, Msg.more, Msg.command, h1]

/-- A call of the loop consumes bytes as the byte machine does. -/
theorem decodeLoop_frames :
    ∀ (fuel : Nat) (d : V2Decoder) (pos : Ptr) (bytes : List UInt8), d.WF →
      bytes.length < fuel → d.InBuffer pos bytes.length →
      d.alloc.maxSize + contentSize ≤ limit →
      ∃ d' used rest rc, decodeLoop mem fuel d pos bytes = .ok (d', rest, rc) ∧
        bytes = used ++ rest ∧ (rc = .more → rest = []) ∧
        Consumed (accepts limit d.maxMsgSize) d used d' rc ∧
        FrameState.Unrefused (accepts limit d.maxMsgSize) d.frameState used := by
  intro fuel
  induction fuel with
  | zero => intro d pos bytes _ h; omega
  | succ fuel ih =>
    intro d pos bytes hd hfuel hpos hsize
    rw [decodeLoop]
    by_cases hnil : bytes = []
    · subst hnil
      exact ⟨d, [], [], .more, rfl, rfl, fun _ => rfl, ⟨hd, rfl⟩,
        unrefused_of_le hd (Nat.zero_le _)⟩
    rw [if_neg (by simpa using hnil)]
    dsimp only
    by_cases hlt : bytes.length < d.toRead
    · -- The field is not complete: all the bytes are stored.
      rw [Nat.min_eq_right (Nat.le_of_lt hlt), take_length, drop_length]
      obtain ⟨hwf, hfeed⟩ := advance_lt (A := accepts limit d.maxMsgSize) hd hlt
      have hs : settle mem (pos.add bytes.length) 3 (d.advance bytes) =
          .ok (d.advance bytes, .more) := by
        rw [settle, if_neg (Nat.ne_of_gt hwf.toRead_pos)]
      have hl : decodeLoop mem fuel (d.advance bytes) (pos.add bytes.length) [] =
          .ok (d.advance bytes, [], .more) := by
        cases fuel <;> rfl
      rw [hs]
      exact ⟨_, bytes, [], .more, hl, by simp, fun _ => rfl, ⟨hwf, hfeed⟩,
        unrefused_of_le hd (Nat.le_of_lt hlt)⟩
    -- The field is complete, and the action that follows is run.
    have hge : d.toRead ≤ bytes.length := Nat.not_lt.mp hlt
    rw [Nat.min_eq_left hge]
    have htake : (bytes.take d.toRead).length = d.toRead := by
      rw [length_take]
      omega
    have hsplit : bytes = bytes.take d.toRead ++ bytes.drop d.toRead :=
      (take_append_drop _ _).symm
    have hrest : (bytes.drop d.toRead).length = bytes.length - d.toRead := length_drop
    have hpos' : d.InBuffer (pos.add d.toRead) (bytes.drop d.toRead).length := by
      intro hzc
      obtain ⟨h1, h2, h3⟩ := hpos hzc
      simp only [Ptr.add_block, Ptr.add_off]
      exact ⟨h1, by omega, by omega⟩
    obtain ⟨d', rc, hs, hcons⟩ := settle_advance hg hd htake (fun _ => hpos') hsize
    have hun : FrameState.Unrefused (accepts limit d.maxMsgSize) d.frameState
        (bytes.take d.toRead) := unrefused_of_le hd (Nat.le_of_eq htake)
    rw [hs]
    cases rc with
    | more =>
      obtain ⟨hwf, hfeed⟩ := hcons
      have hcfg := (advance_config d _).trans (settle_config hs)
      obtain ⟨d'', used, rest, rc, hl, hbs, hall, hcons, hp⟩ := ih d' (pos.add d.toRead)
        (bytes.drop d.toRead) hwf (by have := hd.toRead_pos; omega)
        (by simpa only [InBuffer, hcfg.zeroCopy, hcfg.buf, hcfg.maxSize] using hpos')
        (by rw [hcfg.maxSize]; exact hsize)
      rw [hcfg.maxMsgSize] at hcons hp
      refine ⟨d'', bytes.take d.toRead ++ used, rest, rc, hl, ?_, hall,
        hcons.prepend hfeed, hun.append (by rw [hfeed]; exact hp)⟩
      rw [append_assoc, ← hbs, ← hsplit]
    | ready => exact ⟨d', _, _, .ready, rfl, hsplit, by simp, hcons, hun⟩
    | error e => exact ⟨d', _, _, .error e, rfl, hsplit, by simp, hcons, hun⟩

/-- **The decoder refines the byte machine.** A call of `decode` on bytes in the
buffer of the allocator, or on bytes that were read straight into the message,
consumes a part of them as the byte machine does, and all of them unless it returns a
message or an error. It stops at the byte at which the byte machine refuses a
frame. -/
theorem decode_frames {bytes : List UInt8} (hd : d.WF)
    (hne : bytes ≠ []) (hsize : d.alloc.maxSize + contentSize ≤ limit)
    (hdirect : pos = d.readPos →
      bytes.length ≤ d.toRead ∧ (d.zeroCopy = true → d.next = .messageReady))
    (hpos : pos ≠ d.readPos → d.InBuffer pos bytes.length) :
    ∃ d' used rest rc, d.decode mem pos bytes = .ok (d', rest, rc) ∧ bytes = used ++ rest ∧
      used ≠ [] ∧ (rc = .more → rest = []) ∧ (pos = d.readPos → rest = []) ∧
      Consumed (accepts limit d.maxMsgSize) d used d' rc ∧
      FrameState.Unrefused (accepts limit d.maxMsgSize) d.frameState used := by
  unfold decode
  by_cases heq : pos = d.readPos
  · obtain ⟨hle, hbody⟩ := hdirect heq
    rw [if_pos heq, if_neg (Nat.not_lt.mpr hle)]
    rcases Nat.lt_or_eq_of_le hle with hlt | hfull
    · obtain ⟨hwf, hfeed⟩ := advance_lt (A := accepts limit d.maxMsgSize) hd hlt
      rw [settle, if_neg (Nat.ne_of_gt hwf.toRead_pos)]
      exact ⟨_, bytes, [], .more, rfl, by simp, hne, fun _ => rfl, fun _ => rfl, ⟨hwf, hfeed⟩,
        unrefused_of_le hd hle⟩
    have hpos' : d.next ≠ .messageReady → d.InBuffer (pos.add bytes.length) 0 :=
      fun hn hzc => absurd (hbody hzc) hn
    obtain ⟨d', rc, hs, hcons⟩ := settle_advance hg hd hfull hpos' hsize
    rw [hs]
    exact ⟨d', bytes, [], rc, rfl, by simp, hne, fun _ => rfl, fun _ => rfl, hcons,
      unrefused_of_le hd hle⟩
  rw [if_neg heq]
  obtain ⟨d', used, rest, rc, hl, hbs, hall, hcons, hp⟩ :=
    decodeLoop_frames hg _ d pos bytes hd (Nat.lt_succ_self _) (hpos heq) hsize
  refine ⟨d', used, rest, rc, hl, hbs, ?_, hall, fun h => absurd h heq, hcons, hp⟩
  -- Nothing consumed would mean that nothing was there, or a frame out of nothing.
  rintro rfl
  cases rc with
  | more => exact hne (hbs.trans (hall rfl))
  | ready =>
    have h := congrArg Prod.snd hcons.2.2
    simp at h
  | error e =>
    have h := congrArg Prod.fst hcons
    simp only [Mealy.feed_nil, frameState] at h
    split at h <;> cases h

end Frames

end V2Decoder

end ServerLink
