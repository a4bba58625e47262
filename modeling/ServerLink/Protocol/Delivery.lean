import Mathlib.Data.List.Perm.Basic
import ServerLink.Protocol.DecoderFrames
import ServerLink.Protocol.DecoderMemory

/-!
# ServerLink.Protocol.Delivery

A stream of bytes delivered to a decoder: buffers are asked for with `get_buffer`,
each read fills a non-empty part of the buffer handed out, and `decode` is called until
the bytes of the read are used up. Messages that are ready are taken out; they are
closed later, in any order, or kept.

The result is `deliver_eq`: however the stream is cut into reads and whatever happens
to the messages, the frames are those of the byte machine, and every message built on
received memory lies inside its buffer.
-/

namespace ServerLink

open V2Decoder Allocator FrameState List

/-- One read: how many bytes arrive (at least one, at most what the buffer takes), and
which of the open messages are closed afterwards. -/
structure ReadEvent where
  size : Nat
  closes : List Nat

structure Receiver where
  dec : V2Decoder
  /-- The frames delivered so far. -/
  frames : List Frame
  /-- The delivered messages that are still open. -/
  held : List Msg
  /-- `decode` returned an error. -/
  failed : Bool

namespace Receiver

variable {r : Receiver}

def new (mem : Memory) (bufsize : Nat) (maxMsgSize : Int) (zeroCopy : Bool) :
    Except Fault Receiver := do
  let d ← V2Decoder.new mem bufsize maxMsgSize zeroCopy 0
  return { dec := d, frames := [], held := [], failed := false }

/-- Decode the bytes of one read. Every message takes at least one byte, so that the
number of bytes bounds the number of rounds. -/
def consume (mem : Memory) : Nat → Receiver → Ptr → List UInt8 → Except Fault Receiver
  | 0, r, _, _ => .ok r
  | fuel + 1, r, pos, bytes =>
    if bytes.isEmpty then .ok r
    else
      match r.dec.decode mem pos bytes with
      | .error e => .error e
      | .ok (d, _, .more) => .ok { r with dec := d }
      | .ok (d, _, .error _) => .ok { r with dec := d, failed := true }
      | .ok (d, rest, .ready) =>
        consume mem fuel
          { r with dec := d.takeMsg, frames := r.frames ++ [toFrame d.inProgress],
                   held := d.inProgress :: r.held }
          (pos.add (bytes.length - rest.length)) rest

/-- Close the `i`-th open message. -/
def closeHeld (r : Receiver) (i : Nat) : Receiver :=
  match r.held[i]? with
  | none => r
  | some m => { r with dec.alloc := r.dec.alloc.closeMsg m, held := r.held.eraseIdx i }

/-- One read from the stream. -/
def readOnce (mem : Memory) (r : Receiver) (ev : ReadEvent) (stream : List UInt8) :
    Except Fault (Receiver × List UInt8) :=
  match r.dec.getBuffer mem with
  | .error e => .error e
  | .ok (d, pos, size) =>
    let n := max 1 (min ev.size size)
    match consume mem (stream.take n).length { r with dec := d } pos (stream.take n) with
    | .error e => .error e
    | .ok r => .ok (ev.closes.foldl closeHeld r, stream.drop n)

/-- Read until the stream is used up or the decoder fails; `plan i` is the `i`-th
read. -/
def deliver (mem : Memory) (plan : Nat → ReadEvent) :
    Nat → Nat → Receiver → List UInt8 → Except Fault Receiver
  | 0, _, r, _ => .ok r
  | fuel + 1, i, r, stream =>
    if stream.isEmpty || r.failed then .ok r
    else
      match r.readOnce mem (plan i) stream with
      | .error e => .error e
      | .ok (r, stream) => deliver mem plan fuel (i + 1) r stream

/-! ### The invariant -/

variable {mem : Memory} {limit : Nat}

/-- The invariant of a delivery. With zero-copy the buffer is large enough for a
header field, so that header fields are never read straight to their place. -/
structure Inv (mem : Memory) (limit : Nat) (r : Receiver) : Prop where
  memOk : r.dec.MemOk mem r.held
  apart : ∃ pos, r.dec.Apart r.held pos
  wf : r.failed = false → r.dec.WF
  size_pos : 0 < r.dec.alloc.maxSize
  room : allocationSize r.dec.alloc.maxSize ≤ limit
  batch : r.dec.zeroCopy = true → 9 ≤ r.dec.alloc.maxSize

theorem Inv.room' (h : r.Inv mem limit) : r.dec.alloc.maxSize + contentSize ≤ limit := by
  have hroom := h.room
  have hpos := h.size_pos
  simp only [allocationSize, maxCountersOf, contentSize, Msg.maxVsmSize] at hroom ⊢
  omega

theorem Inv.address (hg : mem.Grants limit) (h : r.Inv mem limit) :
    r.dec.alloc.maxSize + atomicCounterSize < 2 ^ 64 := by
  have h1 := h.room'
  have h2 := hg.1
  simp only [contentSize, atomicCounterSize] at h1 ⊢
  omega

/-- Where the bytes of a read are: straight where they belong, or in the receive
buffer. -/
def Source (d : V2Decoder) (pos : Ptr) (n : Nat) : Prop :=
  (pos = d.readPos ∧ n ≤ d.toRead ∧ (d.zeroCopy = true → d.next = .messageReady)) ∨
    (pos ≠ d.readPos ∧ pos.block = .heap d.alloc.buf ∧ atomicCounterSize ≤ pos.off ∧
      pos.off + n ≤ atomicCounterSize + d.alloc.maxSize)

theorem Source.sourceOk {d : V2Decoder} {pos : Ptr} {n : Nat} (h : Source d pos n) :
    d.SourceOk pos n := by
  rcases h with ⟨-, hle, hzc⟩ | ⟨-, hb⟩
  · by_cases hz : d.zeroCopy = true
    · exact Or.inr (Or.inl ⟨hzc hz, hle⟩)
    · exact Or.inl (fun h => absurd h hz)
  · exact Or.inl (fun _ => hb)

/-- The place `get_buffer` hands out. With zero-copy a header field has to be shorter than the
buffer, so that it is not read straight to its place. -/
theorem getBuffer_source {d d' : V2Decoder} {held : List Msg} {pos : Ptr} {size : Nat}
    (hm : d.MemOk mem held)
    (hhead : d.zeroCopy = true → d.next ≠ .messageReady → d.toRead < d.alloc.maxSize)
    (h : d.getBuffer mem = .ok (d', pos, size)) :
    ∃ a, d.alloc.allocate mem = .ok a ∧ d' = { d with alloc := a } ∧
      (size = d.toRead ∨ size = d.alloc.maxSize) ∧ ∀ n ≤ size, Source d' pos n := by
  unfold getBuffer at h
  cases ha : d.alloc.allocate mem with
  | error e => rw [ha] at h; cases h
  | ok a =>
    obtain ⟨-, hmax, -, hne, -⟩ := allocate_memOk hm ha
    rw [ha] at h
    dsimp only at h
    split at h
    · rename_i hbig
      cases h
      refine ⟨a, rfl, rfl, Or.inl rfl, fun n hn => Or.inl ⟨rfl, hn, fun hzc => ?_⟩⟩
      by_contra hbody
      have := hhead hzc hbody
      simp only [Allocator.size, hmax] at hbig
      omega
    · cases h
      refine ⟨a, rfl, rfl, Or.inr hmax, fun n hn => Or.inr ⟨fun heq => ?_, rfl, Nat.le_refl _,
        Nat.add_le_add_left hn _⟩⟩
      exact hne (by rw [← show a.data = d.readPos from heq]; rfl)

theorem getBuffer_ok (hg : mem.Grants limit) (h : r.Inv mem limit) (hf : r.failed = false) :
    ∃ d pos size, r.dec.getBuffer mem = .ok (d, pos, size) ∧ 0 < size ∧
      Inv mem limit { r with dec := d } ∧ d.Apart r.held pos ∧
      d.frameState = r.dec.frameState ∧ d.maxMsgSize = r.dec.maxMsgSize ∧
      ∀ n ≤ size, Source d pos n := by
  have hwf := h.wf hf
  obtain ⟨⟨d, pos, size⟩, hb⟩ : ∃ q, r.dec.getBuffer mem = .ok q := by
    obtain ⟨a, ha⟩ : ∃ a, r.dec.alloc.allocate mem = .ok a := by
      unfold allocate
      dsimp only
      rw [hg.2, decide_eq_true h.room]
      split <;> exact ⟨_, rfl⟩
    unfold getBuffer
    rw [ha]
    dsimp only
    split <;> exact ⟨_, rfl⟩
  -- A header field is shorter than the buffer.
  have hhead : r.dec.zeroCopy = true → r.dec.next ≠ .messageReady →
      r.dec.toRead < r.dec.alloc.maxSize := by
    intro hzc hbody
    have hbatch := h.batch hzc
    have hfield := hwf.field
    unfold V2Decoder.FieldOk at hfield
    cases hn : r.dec.next with
    | messageReady => exact absurd hn hbody
    | _ =>
      simp only [hn] at hfield
      omega
  obtain ⟨a, ha, rfl, hsize, hsrc⟩ := getBuffer_source h.memOk hhead hb
  obtain ⟨hmem, hmax, -, -, hfree⟩ := allocate_memOk h.memOk ha
  obtain ⟨pos0, hap⟩ := h.apart
  have hap' := fun pos => allocate_apart hap pos hfree
  have hwf' : V2Decoder.WF { r.dec with alloc := a } := ⟨hwf.check, hwf.toRead_pos, hwf.field⟩
  refine ⟨_, pos, size, hb, ?_, ⟨hmem, ⟨pos0, hap' pos0⟩, fun _ => hwf',
    by rw [hmax]; exact h.size_pos, by rw [hmax]; exact h.room, by rw [hmax]; exact h.batch⟩,
    hap' pos, rfl, rfl, hsrc⟩
  rcases hsize with rfl | rfl
  · exact hwf.toRead_pos
  · exact h.size_pos

/-! ### One read -/

/-- The receiver has gone the way of the byte machine, which reached the state `s` and
emitted `fs`. -/
structure Agrees (r : Receiver) (s : FrameState) (fs : List Frame) (r' : Receiver) : Prop where
  frames : r'.frames = r.frames ++ fs
  failed : r'.failed = true → s = .refused
  state : r'.failed = false → r'.dec.frameState = s
  maxMsgSize : r'.dec.maxMsgSize = r.dec.maxMsgSize

/-- What a call of `decode` that returned `rc` makes of the receiver; a message that is
ready is taken out. -/
def decoded (r : Receiver) (d : V2Decoder) : DecodeRc → Receiver
  | .more => { r with dec := d }
  | .error _ => { r with dec := d, failed := true }
  | .ready =>
    { r with dec := d.takeMsg, frames := r.frames ++ [toFrame d.inProgress],
             held := d.inProgress :: r.held }

/-- **One call of `decode`** on what is left of a read goes the way of the byte machine,
and no further than to the byte at which that refuses a frame. -/
theorem decode_ok (hg : mem.Grants limit) {pos : Ptr} {bytes : List UInt8} (h : r.Inv mem limit)
    (hf : r.failed = false) (hap : r.dec.Apart r.held pos) (hnil : bytes ≠ [])
    (hs : Source r.dec pos bytes.length) :
    ∃ d used rest rc, r.dec.decode mem pos bytes = .ok (d, rest, rc) ∧ bytes = used ++ rest ∧
      used ≠ [] ∧ (rc = .more → rest = []) ∧ (r.decoded d rc).Inv mem limit ∧
      (r.decoded d rc).dec.Apart (r.decoded d rc).held (pos.add used.length) ∧
      (rc = .ready → rest ≠ [] → Source (r.decoded d rc).dec (pos.add used.length) rest.length) ∧
      r.Agrees (feed (accepts limit r.dec.maxMsgSize) r.dec.frameState used).1
        (feed (accepts limit r.dec.maxMsgSize) r.dec.frameState used).2
        (r.decoded d rc) ∧
      FrameState.Unrefused (accepts limit r.dec.maxMsgSize) r.dec.frameState used := by
  obtain ⟨d, used, rest, rc, hdec, hbs, hused, hall, hdirect, hcons, hun⟩ :=
    decode_frames hg (h.wf hf) hnil h.room'
      (fun heq => hs.elim (fun h => h.2) (fun h => absurd heq h.1))
      (fun hne => hs.elim (fun h => absurd h.1 hne) (fun h _ => h.2))
  obtain ⟨d', rest', rc', hdec', -, hmem, hcfg, hap'⟩ :=
    decode_memOk h.memOk hap hs.sourceOk
      (fun heq => hs.elim (fun h => h.2.1) (fun h => absurd heq h.1)) (h.address hg)
  obtain ⟨rfl, rfl, rfl⟩ : d' = d ∧ rest' = rest ∧ rc' = rc := by
    rw [hdec] at hdec'
    cases hdec'
    exact ⟨rfl, rfl, rfl⟩
  have hlen : used.length + rest'.length = bytes.length := by rw [hbs, length_append]
  rw [show bytes.length - rest'.length = used.length by omega] at hap'
  have hinv : ∀ {held : List Msg} {e : V2Decoder} {b : Bool} {fs : List Frame} {p : Ptr},
      e.MemOk mem held → e.Apart held p → (b = false → e.WF) → V2Decoder.SameConfig r.dec e →
      Inv mem limit ⟨e, fs, held, b⟩ := fun hm ha hw hc =>
    ⟨hm, ⟨_, ha⟩, hw, by rw [hc.maxSize]; exact h.size_pos, by rw [hc.maxSize]; exact h.room,
      by rw [hc.zeroCopy, hc.maxSize]; exact h.batch⟩
  refine ⟨d', used, rest', rc', hdec, hbs, hused, hall, ?_⟩
  cases rc' with
  | more =>
    obtain ⟨hwf, hfeed⟩ := hcons
    refine ⟨hinv hmem hap' (fun _ => hwf) hcfg, hap', by simp, ?_, hun⟩
    rw [hfeed]
    exact ⟨by simp [decoded], by simp [decoded, hf], fun _ => rfl, hcfg.maxMsgSize⟩
  | error e =>
    refine ⟨hinv hmem hap' (by simp) hcfg, hap', by simp, ?_, hun⟩
    rw [show feed _ _ _ = _ from hcons]
    exact ⟨by simp [decoded], fun _ => rfl, by simp [decoded], hcfg.maxMsgSize⟩
  | ready =>
    obtain ⟨hwf, hnext, hfeed⟩ := hcons
    have hwf' : d'.takeMsg.WF := by
      refine ⟨rfl, hwf.toRead_pos, ?_⟩
      have hfield := hwf.field
      simp only [V2Decoder.FieldOk, takeMsg, hnext] at hfield ⊢
      exact hfield
    have hstate : d'.takeMsg.frameState = .flags := by simp [frameState, takeMsg, hnext]
    have htmp : d'.readPos.block = .tmpbuf := by
      have hr := hmem.readPos
      simpa only [V2Decoder.ReadPosOk, hnext] using hr
    have htake := takeMsg_apart hap' (by simp [hnext])
    refine ⟨hinv (takeMsg_memOk hmem (by simp [hnext])) htake (fun _ => hwf')
      ⟨hcfg.zeroCopy, hcfg.maxMsgSize, hcfg.buf, hcfg.maxSize⟩, htake, fun _ hrest => ?_, ?_,
      hun⟩
    · -- What is left lies in the receive buffer: a message read straight to its place
      -- takes all the bytes.
      rcases hs with ⟨heq, -⟩ | ⟨-, hb, hlow, hhigh⟩
      · exact absurd (hdirect heq) hrest
      refine Or.inr ⟨?_, ?_, ?_, ?_⟩
      · intro heq
        have hblock := congrArg Ptr.block heq
        simp [decoded, takeMsg, htmp, hb] at hblock
      · simpa [decoded, takeMsg, hcfg.buf] using hb
      · simp only [Ptr.add_off]
        omega
      · simp only [Ptr.add_off, decoded, takeMsg, hcfg.maxSize]
        omega
    · rw [hfeed]
      exact ⟨rfl, by simp [decoded, hf], fun _ => hstate, hcfg.maxMsgSize⟩

theorem consume_eq (hg : mem.Grants limit) :
    ∀ (fuel : Nat) (r : Receiver) (pos : Ptr) (bytes : List UInt8), r.Inv mem limit →
      r.failed = false → bytes.length ≤ fuel → r.dec.Apart r.held pos →
      (bytes ≠ [] → Source r.dec pos bytes.length) →
      ∃ r', consume mem fuel r pos bytes = .ok r' ∧ r'.Inv mem limit ∧
        r.Agrees (feed (accepts limit r.dec.maxMsgSize) r.dec.frameState bytes).1
          (feed (accepts limit r.dec.maxMsgSize) r.dec.frameState bytes).2
          r' := by
  intro fuel
  induction fuel with
  | zero =>
    intro r pos bytes h hf hle _ _
    obtain rfl : bytes = [] := length_eq_zero_iff.mp (by omega)
    exact ⟨r, rfl, h, by simp, by simp [hf], fun _ => rfl, rfl⟩
  | succ fuel ih =>
    intro r pos bytes h hf hle hap hsrc
    rw [consume]
    by_cases hnil : bytes = []
    · subst hnil
      exact ⟨r, rfl, h, by simp, by simp [hf], fun _ => rfl, rfl⟩
    rw [if_neg (by simpa using hnil)]
    obtain ⟨d, used, rest, rc, hdec, hbs, hused, hall, hinv, hap', hsrc', ha, -⟩ :=
      decode_ok hg h hf hap hnil (hsrc hnil)
    rw [hdec]
    have hlen : used.length + rest.length = bytes.length := by rw [hbs, length_append]
    have hpos_used : 0 < used.length := length_pos_iff.mpr hused
    cases rc with
    | more =>
      obtain rfl : rest = [] := hall rfl
      obtain rfl : bytes = used := by simpa using hbs
      exact ⟨_, rfl, hinv, ha⟩
    | error e =>
      refine ⟨_, rfl, hinv, ?_⟩
      have hrefused := ha.failed rfl
      have hfeed := feed_append (A := accepts limit r.dec.maxMsgSize)
        (s := r.dec.frameState) rest (Prod.ext hrefused rfl)
      rw [hbs, hfeed, feed_refused, append_nil]
      rw [hrefused] at ha
      exact ha
    | ready =>
      dsimp only
      rw [show bytes.length - rest.length = used.length by omega]
      obtain ⟨r', hr', hI', ha'⟩ := ih (r.decoded d .ready) (pos.add used.length) rest hinv hf
        (by omega) hap' (hsrc' rfl)
      refine ⟨r', hr', hI', ?_⟩
      rw [ha.maxMsgSize, ha.state hf] at ha'
      rw [hbs, feed_append rest rfl]
      exact ⟨by rw [ha'.frames, ha.frames, append_assoc], ha'.failed, ha'.state,
        ha'.maxMsgSize.trans ha.maxMsgSize⟩

/-- Closing open messages changes nothing that matters to the stream. -/
theorem closeHeld_spec (h : r.Inv mem limit) (i : Nat) :
    (r.closeHeld i).Inv mem limit ∧ (r.closeHeld i).frames = r.frames ∧
      (r.closeHeld i).failed = r.failed ∧ (r.closeHeld i).dec.frameState = r.dec.frameState ∧
      (r.closeHeld i).dec.maxMsgSize = r.dec.maxMsgSize := by
  unfold closeHeld
  cases hi : r.held[i]? with
  | none => exact ⟨h, rfl, rfl, rfl, rfl⟩
  | some m =>
    obtain ⟨hlt, rfl⟩ := List.getElem?_eq_some_iff.mp hi
    have hp := (List.getElem_cons_eraseIdx_perm hlt).symm
    obtain ⟨pos, hap⟩ := h.apart
    refine ⟨⟨closeMsg_memOk h.memOk hp,
      ⟨pos, closeMsg_apart hap (List.eraseIdx_subset)⟩, fun hf => ?_, ?_, ?_, ?_⟩,
      rfl, rfl, rfl, rfl⟩
    · exact ⟨(h.wf hf).check, (h.wf hf).toRead_pos, (h.wf hf).field⟩
    · simpa using h.size_pos
    · simpa using h.room
    · simpa using h.batch

theorem closeAll_spec (is : List Nat) :
    ∀ {r : Receiver}, r.Inv mem limit →
      (is.foldl closeHeld r).Inv mem limit ∧ (is.foldl closeHeld r).frames = r.frames ∧
        (is.foldl closeHeld r).failed = r.failed ∧
        (is.foldl closeHeld r).dec.frameState = r.dec.frameState ∧
        (is.foldl closeHeld r).dec.maxMsgSize = r.dec.maxMsgSize := by
  induction is with
  | nil => intro r h; exact ⟨h, rfl, rfl, rfl, rfl⟩
  | cons i is ih =>
    intro r h
    obtain ⟨h1, h2, h3, h4, h5⟩ := closeHeld_spec h i
    obtain ⟨g1, g2, g3, g4, g5⟩ := ih h1
    exact ⟨g1, g2.trans h2, g3.trans h3, g4.trans h4, g5.trans h5⟩

/-! ### The whole stream -/

/-- **Delivery.** However the stream is cut into reads, and whichever messages are
closed or kept, the frames delivered are those of the byte machine, the delivery fails
exactly when the byte machine refuses a frame, and the invariant holds. -/
theorem deliver_eq (hg : mem.Grants limit) (plan : Nat → ReadEvent) :
    ∀ (fuel i : Nat) (r : Receiver) (stream : List UInt8), r.Inv mem limit →
      r.failed = false → stream.length ≤ fuel →
      ∃ r', deliver mem plan fuel i r stream = .ok r' ∧ r'.Inv mem limit ∧
        r.Agrees (feed (accepts limit r.dec.maxMsgSize) r.dec.frameState stream).1
          (feed (accepts limit r.dec.maxMsgSize) r.dec.frameState stream).2
          r' := by
  intro fuel
  induction fuel with
  | zero =>
    intro i r stream h hf hle
    obtain rfl : stream = [] := length_eq_zero_iff.mp (by omega)
    exact ⟨r, rfl, h, by simp, by simp [hf], fun _ => rfl, rfl⟩
  | succ fuel ih =>
    intro i r stream h hf hle
    rw [deliver]
    by_cases hnil : stream = []
    · subst hnil
      exact ⟨r, rfl, h, by simp, by simp [hf], fun _ => rfl, rfl⟩
    rw [if_neg (by simp [hnil, hf])]
    obtain ⟨d, pos, size, hbuf, hsize, hI0, hap, hstate, hM, hsrc⟩ := getBuffer_ok hg h hf
    rw [readOnce, hbuf]
    dsimp only
    generalize hn : max 1 (min (plan i).size size) = n
    have hsplit : stream = stream.take n ++ stream.drop n := (take_append_drop _ _).symm
    have hdrop : (stream.drop n).length = stream.length - n := length_drop
    obtain ⟨r1, hr1, hI1, ha1⟩ := consume_eq hg _ { r with dec := d } pos (stream.take n) hI0
      hf (Nat.le_refl _) hap (fun _ => hsrc _ (by rw [length_take]; omega))
    simp only [hM, hstate] at ha1
    obtain ⟨hI2, hfr, hfail, hst, hmax⟩ := closeAll_spec (plan i).closes hI1
    rw [hr1]
    dsimp only
    generalize (plan i).closes.foldl closeHeld r1 = r2 at hI2 hfr hfail hst hmax ⊢
    generalize hA : accepts limit r.dec.maxMsgSize = A at ha1 ⊢
    generalize hfeed : feed A r.dec.frameState (stream.take n) = q at ha1
    have happ := feed_append (stream.drop n) hfeed
    rw [← hsplit] at happ
    rw [happ]
    have hmax2 : r2.dec.maxMsgSize = r.dec.maxMsgSize := hmax.trans (ha1.maxMsgSize.trans hM)
    cases hf2 : r2.failed with
    | true =>
      have hend : deliver mem plan fuel (i + 1) r2 (stream.drop n) = .ok r2 := by
        cases fuel with
        | zero => rfl
        | succ fuel => simp [deliver, hf2]
      refine ⟨r2, hend, hI2, ?_⟩
      rw [ha1.failed (hfail.symm.trans hf2), feed_refused]
      exact ⟨by simp [hfr, ha1.frames], fun _ => rfl, by simp [hf2], hmax2⟩
    | false =>
      obtain ⟨r', hr', hI', ha'⟩ := ih (i + 1) r2 (stream.drop n) hI2 hf2 (by omega)
      simp only [hmax2, hst, ha1.state (hfail.symm.trans hf2), hA] at ha'
      refine ⟨r', hr', hI', ?_⟩
      exact ⟨by rw [ha'.frames, hfr, ha1.frames, append_assoc], ha'.failed, ha'.state,
        ha'.maxMsgSize.trans hmax2⟩

/-! ### Receivers that keep their messages -/

/-- No message has been closed, so that the open messages are the frames, the last one
first; their flags are those of the frames. -/
structure Kept (r : Receiver) : Prop where
  frames : r.held.reverse.map toFrame = r.frames
  flags : ∀ m ∈ r.held, ∃ more command, m.flags = Msg.flagsOf more command
  decoder : r.dec.FlagsOk

theorem Kept.consume :
    ∀ {fuel : Nat} {r r' : Receiver} {pos : Ptr} {bytes : List UInt8}, r.Kept →
      consume mem fuel r pos bytes = .ok r' → r'.Kept := by
  intro fuel
  induction fuel with
  | zero =>
    intro r r' pos bytes h hc
    cases hc
    exact h
  | succ fuel ih =>
    intro r r' pos bytes h hc
    rw [Receiver.consume] at hc
    split at hc
    · cases hc
      exact h
    cases hd : r.dec.decode mem pos bytes with
    | error e => rw [hd] at hc; cases hc
    | ok q =>
      obtain ⟨d, rest, rc⟩ := q
      have hflags := decode_flagsOk hd h.decoder
      rw [hd] at hc
      cases rc with
      | more =>
        cases hc
        exact ⟨h.frames, h.flags, hflags⟩
      | error e =>
        cases hc
        exact ⟨h.frames, h.flags, hflags⟩
      | ready =>
        refine ih ⟨?_, ?_, hflags.1, false, false, rfl⟩ hc
        · simp [h.frames]
        intro m hm
        rcases mem_cons.mp hm with rfl | hm
        · exact hflags.2
        · exact h.flags m hm

theorem Kept.deliver {sizes : Nat → Nat} :
    ∀ {fuel i : Nat} {r r' : Receiver} {stream : List UInt8}, r.Kept →
      deliver mem (fun i => ⟨sizes i, []⟩) fuel i r stream = .ok r' → r'.Kept := by
  intro fuel
  induction fuel with
  | zero =>
    intro i r r' stream h hd
    cases hd
    exact h
  | succ fuel ih =>
    intro i r r' stream h hd
    rw [Receiver.deliver] at hd
    split at hd
    · cases hd
      exact h
    rw [readOnce] at hd
    cases hb : r.dec.getBuffer mem with
    | error e => rw [hb] at hd; cases hd
    | ok q =>
      obtain ⟨d, pos, size⟩ := q
      obtain ⟨a, -, rfl⟩ := V2Decoder.getBuffer_alloc hb
      have h0 : Kept { r with dec := { r.dec with alloc := a } } := ⟨h.frames, h.flags, h.decoder⟩
      simp only [hb] at hd
      cases hc : Receiver.consume mem (stream.take (max 1 (min (sizes i) size))).length
          { r with dec := { r.dec with alloc := a } } pos
          (stream.take (max 1 (min (sizes i) size))) with
      | error e => rw [hc] at hd; cases hd
      | ok r1 =>
        rw [hc] at hd
        exact ih (h0.consume hc) hd

/-- The receiver at the beginning of a stream. -/
theorem new_ok {bufsize : Nat} (maxMsgSize : Int) {zeroCopy : Bool} (hg : mem.Grants limit)
    (hpos : 0 < bufsize) (hroom : Allocator.allocationSize bufsize ≤ limit)
    (hbatch : zeroCopy = true → 9 ≤ bufsize) :
    ∃ r, new mem bufsize maxMsgSize zeroCopy = .ok r ∧ r.Inv mem limit ∧ r.failed = false ∧
      r.frames = [] ∧ r.dec.frameState = .flags ∧ r.dec.maxMsgSize = maxMsgSize ∧ r.Kept := by
  have halloc : ∃ a, Allocator.new mem bufsize 0 = .ok a := by
    unfold Allocator.new
    rw [hg.2, if_pos (by simpa using hroom)]
    exact ⟨_, rfl⟩
  obtain ⟨a, ha⟩ := halloc
  obtain ⟨hc, hsize, -⟩ := Allocator.new_counted ha
  obtain ⟨d, hd⟩ : ∃ d, V2Decoder.new mem bufsize maxMsgSize zeroCopy 0 = .ok d := by
    simp only [V2Decoder.new, ha]
    exact ⟨_, rfl⟩
  obtain ⟨hwf, hstate, hM, hzc, hin, hprog, hread, hnext, hnew⟩ := V2Decoder.new_ok hd
  obtain rfl : a = d.alloc := by
    rw [ha] at hnew
    exact Except.ok.inj hnew
  refine ⟨⟨d, [], [], false⟩, by simp only [new, hd]; rfl, ⟨⟨hwf.check, ?_, ?_, by simp [hin]⟩,
    ⟨d.readPos, ?_⟩, fun _ => hwf, by rw [hsize]; exact hpos, by rw [hsize]; exact hroom,
    by rw [hsize, hzc]; exact hbatch⟩, rfl, rfl, hstate, hM, rfl, by simp, ?_⟩
  · exact hc.cons_of_hint_none (by rw [hprog]; rfl)
  · simp [V2Decoder.ReadPosOk, hnext, hread, V2Decoder.tmpbufPtr]
  · have hnone : ∀ m ∈ [d.inProgress], ∀ st, m.storage ≠ some st := by
      intro m hm st hst
      rw [mem_singleton.mp hm, hprog] at hst
      cases hst
    exact ⟨fun m hm st hst => absurd hst (hnone m hm st),
      fun _ m hm st hst => absurd hst (hnone m hm st), nofun⟩
  · exact V2Decoder.new_flagsOk hd

end Receiver

end ServerLink
