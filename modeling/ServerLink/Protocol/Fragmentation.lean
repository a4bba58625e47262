import ServerLink.Lib.Run
import ServerLink.Protocol.Delivery

/-!
# ServerLink.Protocol.Fragmentation

What the decoder makes of a stream does not depend on how the stream arrives. The
caller of `get_buffer` and `decode` is given free rein (`step`): a read may fill any
non-empty part of the buffer handed out, and before and after every call of `decode`
any of the messages extracted so far may be released.

Whatever the caller does, after every call the messages extracted are those that the
byte machine finds in the bytes used so far, `decode` has failed exactly when the byte
machine has just refused a frame, and the messages still open lie out of the way of the
bytes that are stored next.
-/

namespace ServerLink

open FrameState V2Decoder List

/-- A stream on its way through a decoder. -/
structure Intake where
  rcv : Receiver
  /-- Where the bytes of the last read that have not been decoded yet are. -/
  pos : Ptr
  pending : List UInt8
  /-- What has not been read yet. -/
  stream : List UInt8

/-- What the caller of the decoder does next. -/
inductive IntakeEvent
  /-- `get_buffer`, and a read of up to `n` bytes. -/
  | read (n : Nat)
  /-- `decode` on what is left of the last read; a message that is ready is taken out. -/
  | decode
  /-- The `i`-th open message is released. -/
  | close (i : Nat)
  deriving Repr, DecidableEq

namespace Intake

variable {s : Intake}

def new (mem : Memory) (bufsize : Nat) (maxMsgSize : Int) (zeroCopy : Bool)
    (bytes : List UInt8) : Except Fault Intake :=
  match Receiver.new mem bufsize maxMsgSize zeroCopy with
  | .error e => .error e
  | .ok r => .ok { rcv := r, pos := tmpbufPtr, pending := [], stream := bytes }

def step (mem : Memory) (s : Intake) : IntakeEvent → Except Fault Intake
  | .read n =>
    -- A new buffer is asked for when the bytes of the last read are used up.
    if s.rcv.failed || !s.pending.isEmpty || s.stream.isEmpty then .ok s
    else
      match s.rcv.dec.getBuffer mem with
      | .error e => .error e
      | .ok (d, pos, size) =>
        let n := max 1 (min n size)
        .ok { rcv := { s.rcv with dec := d }, pos := pos, pending := s.stream.take n,
              stream := s.stream.drop n }
  | .decode =>
    if s.rcv.failed || s.pending.isEmpty then .ok s
    else
      match s.rcv.dec.decode mem s.pos s.pending with
      | .error e => .error e
      | .ok (d, rest, rc) =>
        .ok { s with rcv := s.rcv.decoded d rc, pos := s.pos.add (s.pending.length - rest.length),
                     pending := rest }
  | .close i => .ok { s with rcv := s.rcv.closeHeld i }

/-- The messages extracted are those of the bytes used so far, as the byte machine reads
them; `decode` has failed if and only if the byte machine has refused a frame, and it has
used no byte after the one at which that happened. -/
def Parsed (A : Nat → Bool) (bytes : List UInt8) (s : Intake) : Prop :=
  ∃ used, bytes = used ++ (s.pending ++ s.stream) ∧ s.rcv.frames = (feed A .flags used).2 ∧
    (s.rcv.failed = true ↔ (feed A .flags used).1 = .refused) ∧
    FrameState.Unrefused A .flags used

/-- A message on received memory does not reach up to `p`. -/
def Clears (m : Msg) (p : Ptr) : Prop :=
  ∀ st, m.storage = some st → st.data.block = p.block → st.data.off + m.size ≤ p.off

/-- Neither the bytes of the last read nor the place of the next ones touch a message that
is still open. -/
def Undisturbed (s : Intake) : Prop :=
  s.rcv.failed = false → ∀ m ∈ s.rcv.held,
    Clears m s.rcv.dec.readPos ∧ (s.pending ≠ [] → Clears m s.pos)

/-- The caller can go on until the stream is used up: each read brings something, and
each call of `decode` uses something. -/
def Progresses (mem : Memory) (s : Intake) : Prop :=
  s.rcv.failed = false →
    (s.pending = [] → s.stream ≠ [] → ∀ n, ∃ s', step mem s (.read n) = .ok s' ∧
      s'.pending ≠ [] ∧ s'.stream.length < s.stream.length) ∧
    (s.pending ≠ [] → ∃ s', step mem s .decode = .ok s' ∧
      s'.pending.length < s.pending.length ∧ s'.stream = s.stream)

/-! ### The invariant -/

variable {mem : Memory} {limit : Nat} {maxMsgSize : Int} {bytes : List UInt8}

/-- What holds between two calls: the invariant of the receiver, and how it has got
there. -/
structure Inv (mem : Memory) (limit : Nat) (maxMsgSize : Int) (bytes : List UInt8)
    (s : Intake) : Prop where
  rcv : s.rcv.Inv mem limit
  limited : s.rcv.dec.maxMsgSize = maxMsgSize
  source : s.rcv.failed = false → s.pending ≠ [] →
    Receiver.Source s.rcv.dec s.pos s.pending.length ∧ s.rcv.dec.Apart s.rcv.held s.pos
  parsed : ∃ used, bytes = used ++ (s.pending ++ s.stream) ∧
    s.rcv.frames = (feed (accepts limit maxMsgSize) .flags used).2 ∧
    (s.rcv.failed = true → (feed (accepts limit maxMsgSize) .flags used).1 = .refused) ∧
    (s.rcv.failed = false → s.rcv.dec.frameState =
      (feed (accepts limit maxMsgSize) .flags used).1) ∧
    FrameState.Unrefused (accepts limit maxMsgSize) .flags used

theorem Inv.read (hg : mem.Grants limit) (h : s.Inv mem limit maxMsgSize bytes)
    (hf : s.rcv.failed = false) (hp : s.pending = []) (hst : s.stream ≠ []) (n : Nat) :
    ∃ s', step mem s (.read n) = .ok s' ∧ s'.Inv mem limit maxMsgSize bytes ∧
      s'.pending ≠ [] ∧ s'.stream.length < s.stream.length := by
  obtain ⟨d, pos, size, hbuf, hsize, hinv, hap, hstate, hmax, hsrc⟩ :=
    Receiver.getBuffer_ok hg h.rcv hf
  obtain ⟨used, hused, hframes, hfail, hst', hun⟩ := h.parsed
  have hlen : 0 < s.stream.length := length_pos_iff.mpr hst
  have htake : (s.stream.take (max 1 (min n size))).length ≤ size := by
    rw [length_take]
    omega
  rw [step, if_neg (by simp [hf, hp, hst]), hbuf]
  refine ⟨_, rfl, ⟨hinv, hmax.trans h.limited, fun _ _ => ⟨hsrc _ htake, hap⟩, used, ?_,
    hframes, hfail, ?_, hun⟩, ?_, ?_⟩
  · rw [take_append_drop, hused, hp, nil_append]
  · intro hf'
    exact hstate.trans (hst' hf')
  · intro hnil
    have := congrArg length hnil
    rw [length_take, length_nil] at this
    omega
  · simp only [length_drop]
    omega

theorem Inv.decode (hg : mem.Grants limit) (h : s.Inv mem limit maxMsgSize bytes)
    (hf : s.rcv.failed = false) (hp : s.pending ≠ []) :
    ∃ s', step mem s .decode = .ok s' ∧ s'.Inv mem limit maxMsgSize bytes ∧
      s'.pending.length < s.pending.length ∧ s'.stream = s.stream := by
  obtain ⟨hsrc, hap⟩ := h.source hf hp
  obtain ⟨d, used', rest, rc, hdec, hsplit, hne, hall, hinv, hap', hsrc', hagrees, hun'⟩ :=
    Receiver.decode_ok hg h.rcv hf hap hp hsrc
  obtain ⟨used, hused, hframes, -, hstate, hun⟩ := h.parsed
  rw [h.limited, hstate hf] at hagrees hun'
  have hlen : s.pending.length = used'.length + rest.length := by rw [hsplit, length_append]
  have hpos : 0 < used'.length := length_pos_iff.mpr hne
  have hadd : s.pending.length - rest.length = used'.length := by omega
  rw [step, if_neg (by simp [hf, hp]), hdec]
  refine ⟨_, rfl, ⟨hinv, hagrees.maxMsgSize.trans h.limited, ?_, used ++ used', ?_, ?_, ?_, ?_,
    hun.append hun'⟩, by dsimp only; omega, rfl⟩
  · intro hf' hrest
    rw [hadd]
    cases rc with
    | more => exact absurd (hall rfl) hrest
    | error e => cases hf'
    | ready => exact ⟨hsrc' rfl hrest, hap'⟩
  · rw [hused, hsplit]
    simp
  · rw [hagrees.frames, hframes, feed_append used' rfl]
  · intro hf'
    rw [feed_append used' rfl]
    exact hagrees.failed hf'
  · intro hf'
    rw [feed_append used' rfl]
    exact hagrees.state hf'

/-- Releasing a message changes nothing that matters to the stream. -/
theorem Inv.close (h : s.Inv mem limit maxMsgSize bytes) (i : Nat) :
    Inv mem limit maxMsgSize bytes { s with rcv := s.rcv.closeHeld i } := by
  obtain ⟨hinv, hframes, hfailed, hstate, hmax⟩ := Receiver.closeHeld_spec h.rcv i
  obtain ⟨used, hused, hfr, hfail, hst, hun⟩ := h.parsed
  refine ⟨hinv, hmax.trans h.limited, ?_, used, hused, hframes.trans hfr, ?_, ?_, hun⟩
  · intro hf hp
    obtain ⟨hsrc, hap⟩ := h.source (hfailed.symm.trans hf) hp
    unfold Receiver.closeHeld
    cases hi : s.rcv.held[i]? with
    | none => exact ⟨hsrc, hap⟩
    | some m =>
      refine ⟨?_, closeMsg_apart hap eraseIdx_subset⟩
      simpa only [Receiver.Source, Allocator.closeMsg_buf, Allocator.closeMsg_maxSize] using hsrc
  · exact fun hf => hfail (hfailed.symm.trans hf)
  · exact fun hf => hstate.trans (hst (hfailed.symm.trans hf))

/-- Every event keeps the invariant, and no assertion fails. -/
theorem Inv.step (hg : mem.Grants limit) (h : s.Inv mem limit maxMsgSize bytes) (ev : IntakeEvent) :
    ∃ s', step mem s ev = .ok s' ∧ s'.Inv mem limit maxMsgSize bytes := by
  cases ev with
  | read n =>
    by_cases hidle : (s.rcv.failed || !s.pending.isEmpty || s.stream.isEmpty) = true
    · exact ⟨s, if_pos hidle, h⟩
    simp only [Bool.or_eq_true, Bool.not_eq_true', List.isEmpty_iff, not_or,
      Bool.not_eq_true, Bool.not_eq_false] at hidle
    obtain ⟨s', hs, hinv, -⟩ := h.read hg hidle.1.1 (by simpa using hidle.1.2) hidle.2 n
    exact ⟨s', hs, hinv⟩
  | decode =>
    by_cases hidle : (s.rcv.failed || s.pending.isEmpty) = true
    · exact ⟨s, if_pos hidle, h⟩
    · simp only [Bool.or_eq_true, List.isEmpty_iff, not_or, Bool.not_eq_true] at hidle
      obtain ⟨s', hs, hinv, -⟩ := h.decode hg hidle.1 hidle.2
      exact ⟨s', hs, hinv⟩
  | close i => exact ⟨_, rfl, h.close i⟩

/-! ### What the invariant says -/

theorem Inv.progresses (hg : mem.Grants limit)
    (h : s.Inv mem limit maxMsgSize bytes) : s.Progresses mem := by
  refine fun hf => ⟨fun hp hst n => ?_, fun hp => ?_⟩
  · obtain ⟨s', hs, -, hne, hlt⟩ := h.read hg hf hp hst n
    exact ⟨s', hs, hne, hlt⟩
  · obtain ⟨s', hs, -, hlt, heq⟩ := h.decode hg hf hp
    exact ⟨s', hs, hlt, heq⟩

theorem Inv.undisturbed (h : s.Inv mem limit maxMsgSize bytes) :
    s.Undisturbed := by
  intro hf m hm
  have hread : ∀ {pos : Ptr}, s.rcv.dec.Apart s.rcv.held pos → Clears m s.rcv.dec.readPos := by
    intro pos hap st hst hblock
    rw [hap.home m (by simp [hm]) st hst] at hblock
    cases hn : s.rcv.dec.next with
    | messageReady => have := hap.below hn m hm st hst hblock.symm; omega
    | _ =>
      -- A header field goes to the decoder's own buffer.
      have hr := h.rcv.memOk.readPos
      simp only [V2Decoder.ReadPosOk, hn, ← hblock] at hr
      cases hr
  obtain ⟨pos, hap0⟩ := h.rcv.apart
  refine ⟨hread hap0, fun hp => ?_⟩
  obtain ⟨hsrc, hap⟩ := h.source hf hp
  rcases hsrc with ⟨heq, -⟩ | ⟨-, hb, -⟩
  · rw [heq]
    exact hread hap
  · intro st hst hblock
    rw [hap.home m (by simp [hm]) st hst, hb] at hblock
    exact hap.behind hb m (by simp [hm]) st hst (Block.heap.inj hblock)

end Intake

/-- The sizes that the maximum message size admits; a negative one is no limit. -/
def withinLimit (maxMsgSize : Int) (n : Nat) : Bool := !decide (0 ≤ maxMsgSize ∧ maxMsgSize < n)

namespace Intake

variable {mem : Memory} {limit : Nat} {maxMsgSize : Int} {bytes : List UInt8}

/-- Where every frame admitted gets its memory, the decoder refuses the frames that the
maximum message size excludes, and no others. -/
theorem Inv.parsed_withinLimit {s : Intake} (h : s.Inv mem limit maxMsgSize bytes)
    (hmem : ∀ n ∈ sizes (withinLimit maxMsgSize) .flags bytes,
      withinLimit maxMsgSize n = true → n ≤ Msg.maxVsmSize ∨ Allocator.contentSize + n ≤ limit) :
    s.Parsed (withinLimit maxMsgSize) bytes := by
  obtain ⟨used, hused, hframes, hfail, hstate, hun⟩ := h.parsed
  have hsame : ∀ p q, bytes = p ++ q →
      feed (accepts limit maxMsgSize) .flags p = feed (withinLimit maxMsgSize) .flags p := by
    intro p q hpq
    refine feed_congr p fun n hn => ?_
    have hgrant := hmem n (hpq ▸ sizes_subset_append _ p q hn)
    cases hw : withinLimit maxMsgSize n with
    | true =>
      rw [accepts_iff]
      exact ⟨by simpa only [withinLimit, Bool.not_eq_true', decide_eq_false_iff_not] using hw,
        hgrant hw⟩
    | false =>
      rw [Bool.eq_false_iff, Ne, accepts_iff]
      rintro ⟨hlim, -⟩
      exact hlim (by simpa only [withinLimit, Bool.not_eq_false', decide_eq_true_eq] using hw)
  have hall := hsame used _ hused
  rw [hall] at hframes hfail hstate
  refine ⟨used, hused, hframes, ⟨hfail, fun hr => ?_⟩, fun p q hpq hq => ?_⟩
  · cases hf : s.rcv.failed with
    | true => rfl
    | false => exact absurd ((hstate hf).trans hr) (frameState_ne_refused _)
  · rw [← hsame p (q ++ (s.pending ++ s.stream)) (by rw [hused, hpq, append_assoc])]
    exact hun p q hpq hq

/-- **Decoding does not depend on fragmentation.** For every byte string, maximum message
size and receive buffer of at least nine bytes, with zero-copy or without, and whatever
the caller does: no call fails an assertion, the messages are those of the byte machine,
`decode` fails at the byte at which the byte machine refuses a frame, no open message is
touched, and the caller gets to the end of the string. Memory is there for the receive
buffer and for every message that the string announces and the limit admits. -/
theorem decode_independent_of_reads {bufsize : Nat} {zeroCopy : Bool} (hg : mem.Grants limit)
    (hsize : 9 ≤ bufsize) (hroom : Allocator.allocationSize bufsize ≤ limit)
    (hmem : ∀ n ∈ sizes (withinLimit maxMsgSize) .flags bytes,
      withinLimit maxMsgSize n = true → n ≤ Msg.maxVsmSize ∨ Allocator.contentSize + n ≤ limit) :
    ∃ s0, new mem bufsize maxMsgSize zeroCopy bytes = .ok s0 ∧
      ∀ events, ∃ s, CheckedRun.run (step mem) s0 events = .ok s ∧
        s.Parsed (withinLimit maxMsgSize) bytes ∧ s.Undisturbed ∧ s.Progresses mem := by
  obtain ⟨r, hr, hinv, hf, hframes, hstate, hmax, -⟩ :=
    Receiver.new_ok maxMsgSize hg (by omega) hroom (fun _ => hsize)
  have h0 : Inv mem limit maxMsgSize bytes ⟨r, tmpbufPtr, [], bytes⟩ :=
    ⟨hinv, hmax, fun _ hp => absurd rfl hp, [], rfl, hframes, by simp [hf], fun _ => hstate,
      fun p q hpq hq => absurd (append_eq_nil_iff.mp hpq.symm).2 hq⟩
  refine ⟨_, by rw [new, hr], fun events => ?_⟩
  obtain ⟨s, hs, hinv'⟩ := CheckedRun.run_ok_of_inv (fun s ev h => Inv.step hg h ev) events h0
  exact ⟨s, hs, hinv'.parsed_withinLimit hmem, hinv'.undisturbed, hinv'.progresses hg⟩

/-- Two frames and one that is too large, through a buffer of sixteen bytes. -/
theorem decode_independent_of_reads_three_frames :
    ∃ s0, new largeMemory 16 40 true [0, 2, 7, 8, 1, 1, 9, 0, 200] = .ok s0 ∧
      ∀ events, ∃ s, CheckedRun.run (step largeMemory) s0 events = .ok s ∧
        s.Parsed (withinLimit 40) [0, 2, 7, 8, 1, 1, 9, 0, 200] ∧ s.Undisturbed ∧
        s.Progresses largeMemory :=
  decode_independent_of_reads largeMemory_grants (by decide) (by decide) (by decide)

end Intake

end ServerLink
