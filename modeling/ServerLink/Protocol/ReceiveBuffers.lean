import ServerLink.Lib.Run
import ServerLink.Protocol.Delivery

/-!
# ServerLink.Protocol.ReceiveBuffers

The receive buffers over whole runs. Bytes are read to where `get_buffer` wants them and decoded
message by message; the messages are closed in any order, between any two of these steps, and so
are those that are left when the decoder is destroyed.
-/

namespace ServerLink

open V2Decoder Allocator Checked CheckedRun

namespace V2Decoder

variable {mem : Memory} {d d' : V2Decoder} {pos : Ptr} {n : Nat} {held : List Msg}

/-- What holds while bytes are decoded. Every content record belongs to a message of at least
`max_vsm_size` bytes of the buffer, which lie below the address that has been reached or are still
to be read. -/
structure Reading (d : V2Decoder) (pos : Ptr) : Prop where
  reserved : Msg.maxVsmSize * d.alloc.contents ≤ d.alloc.maxSize
  received : Msg.maxVsmSize * d.alloc.contents ≤ pos.off + d.toRead - atomicCounterSize
  header : d.next ≠ .messageReady → d.toRead ≤ 8

theorem Reading.advance {bs : List UInt8} (h : d.Reading pos) (hle : bs.length ≤ d.toRead) :
    (d.advance bs).Reading (pos.add bs.length) := by
  refine ⟨by simpa using h.reserved, ?_, fun hn => ?_⟩
  · have := h.received
    simp only [advance_alloc, advance_toRead, Ptr.add_off]
    omega
  · have := h.header (by simpa using hn)
    simp only [advance_toRead]
    omega

theorem SizeReady.reading {k : Nat} {rc : DecodeRc} (hS : SizeReady mem d n pos d' rc)
    (h : d.Reading pos) (hz : d.toRead = 0) (hpos : d.InBuffer pos k)
    (hsize : d.alloc.maxSize + atomicCounterSize < 2 ^ 64) : d'.Reading pos := by
  have hmax := hS.config.maxSize
  have hrec := h.received
  -- Only a message on received memory takes a content record.
  have hkeep : d'.alloc.contents = d.alloc.contents →
      (d'.next ≠ .messageReady → d'.toRead ≤ 8) → d'.Reading pos := by
    refine fun heq hhead => ⟨by rw [heq, hmax]; exact h.reserved, ?_, hhead⟩
    rw [heq]
    omega
  cases hS with
  | tooLarge => exact h
  | noMemory alloc hinit =>
    exact hkeep ((initSize_config hinit).2.2.trans (closeMsg_contents _ _)) h.header
  | own hlim alloc m p hinit =>
    exact hkeep ((initSize_config hinit).2.2.trans (closeMsg_contents _ _)) fun hn => absurd rfl hn
  | copied => exact hkeep (closeMsg_contents _ _) fun hn => absurd rfl hn
  | inPlace hlim hzc hbig hroom =>
    rw [ptrDiff_of_inBuffer hpos hzc hsize] at hroom
    obtain ⟨-, hlow, hle⟩ := hpos hzc
    simp only [atomicCounterSize] at hroom hlow hle hrec
    refine ⟨?_, ?_, fun hn => absurd rfl hn⟩
    · simp only [nextStep, incRef, advanceContent, closeMsg_contents, closeMsg_maxSize,
        Nat.mul_succ]
      omega
    · simp only [nextStep, incRef, advanceContent, closeMsg_contents, Nat.mul_succ,
        atomicCounterSize]
      omega

theorem runNext_reading {rc : DecodeRc} (hr : d.runNext mem pos = .ok (d', rc))
    (h : d.Reading pos) (hz : d.toRead = 0) (hpos : d.next ≠ .messageReady → d.InBuffer pos n)
    (hsize : d.alloc.maxSize + atomicCounterSize < 2 ^ 64) : d'.Reading pos := by
  have hrec := h.received
  cases runNext_inv hr with
  | flags _ _ _ _ _ hle => exact ⟨h.reserved, by simp only [nextStep]; omega, fun _ => hle⟩
  | size hn _ _ _ hS => exact hS.reading h hz (hpos hn) hsize
  | message => exact ⟨h.reserved, by simp only [nextStep]; omega, fun _ => by simp [nextStep]⟩

/-- What a call of `decode` that returned `rc` leaves, with `rest` still to be decoded. -/
theorem decode_reading {bytes : List UInt8} (hm : d.MemOk mem held) (h : d.Reading pos)
    (hs : Receiver.Source d pos bytes.length)
    (hsize : d.alloc.maxSize + atomicCounterSize < 2 ^ 64) :
    ∃ d' rest rc, d.decode mem pos bytes = .ok (d', rest, rc) ∧ d'.MemOk mem held ∧
      d'.alloc.maxSize = d.alloc.maxSize ∧ d'.Reading (pos.add (bytes.length - rest.length)) ∧
      (rc = .ready → d'.next = .flagsReady ∧ (rest ≠ [] →
        Receiver.Source d'.takeMsg (pos.add (bytes.length - rest.length)) rest.length)) := by
  let P : V2Decoder → Ptr → Nat → Prop :=
    fun e pos n => e.MemOk mem held ∧ e.Reading pos ∧ e.SourceOk pos n ∧ SameConfig d e
  have hadv : ∀ e pos n bs, P e pos n → bs.length ≤ e.toRead → bs.length ≤ n →
      P (e.advance bs) (pos.add bs.length) (n - bs.length) := by
    rintro e pos n bs ⟨hm, hr, hs, hc⟩ hle hle'
    exact ⟨advance_memOk bs hm, hr.advance hle, hs.advance hle', hc.trans (advance_config e bs)⟩
  have hrun : ∀ e pos n, P e pos n → e.toRead = 0 →
      ∃ e' rc, e.runNext mem pos = .ok (e', rc) ∧ P e' pos n := by
    rintro e pos n ⟨hm, hr, hs, hc⟩ hz
    obtain ⟨e', rc, hrun⟩ := runNext_ok mem hm.check pos
    have hsize' : e.alloc.maxSize + atomicCounterSize < 2 ^ 64 := by rwa [hc.maxSize]
    exact ⟨e', rc, hrun, runNext_memOk hrun hm (hs.inBuffer hz) hsize',
      runNext_reading hrun hr hz (hs.inBuffer hz) hsize', hs.runNext hz hrun,
      hc.trans (runNext_config hrun)⟩
  obtain ⟨d', rest, rc, hdec, hle, ⟨hm', hr', -, hc⟩, hready, hall⟩ :=
    decode_rule hadv hrun ⟨hm, h, hs.sourceOk, .refl d⟩
      (fun heq => hs.elim (fun h => h.2.1) (fun h => absurd heq h.1))
  refine ⟨d', rest, rc, hdec, hm', hc.maxSize, hr', fun hrc => ⟨hready hrc, fun hrest => ?_⟩⟩
  -- What is left lies in the buffer, and the next header is read from there.
  have htmp : d'.readPos.block = .tmpbuf := by
    have := hm'.readPos
    simpa only [ReadPosOk, hready hrc] using this
  rcases hs with ⟨heq, -⟩ | ⟨-, hb, hlow, hhigh⟩
  · exact absurd (hall heq) hrest
  refine Or.inr ⟨fun heq => ?_, ?_, ?_, ?_⟩
  · have hblock := congrArg Ptr.block heq
    simp [takeMsg, htmp, hb] at hblock
  · simpa [takeMsg, hc.buf] using hb
  · simp only [Ptr.add_off]
    omega
  · simp only [Ptr.add_off, takeMsg, hc.maxSize]
    omega

end V2Decoder

/-- A decoder with the bytes that have been read and are not decoded yet. -/
structure RecvPath extends Receiver where
  /-- The decoder has not been destroyed. -/
  alive : Bool
  pos : Ptr
  bytes : List UInt8

/-- What the engine and the owners of the messages do. -/
inductive RecvAction
  /-- The bytes arrive, as many as `get_buffer` takes. -/
  | read (bytes : List UInt8)
  | decode
  | close (i : Nat)
  | destroy

namespace RecvPath

def new (mem : Memory) (bufsize : Nat) (maxMsgSize : Int) (zeroCopy : Bool) :
    Except Fault RecvPath := do
  let r ← Receiver.new mem bufsize maxMsgSize zeroCopy
  return { r with alive := true, pos := tmpbufPtr, bytes := [] }

/-- The messages that are open, that of the decoder included. -/
def opened (s : RecvPath) : List Msg := if s.alive then s.dec.inProgress :: s.held else s.held

/-- The destructors: the message in progress is closed, and `deallocate` gives up the reference to
the buffer. -/
def destroy (s : RecvPath) : Except Fault RecvPath := do
  s.dec.destroy
  return { s with
    alive := false
    dec.alloc := (s.dec.alloc.closeMsg s.dec.inProgress).callDecRef s.dec.alloc.buf }

/-- The engine reads when all bytes are decoded, and stops at the first error. -/
def step (mem : Memory) (s : RecvPath) : RecvAction → Except Fault RecvPath
  | .read bytes =>
    if s.alive && !s.failed && s.bytes.isEmpty then do
      let (d, pos, size) ← s.dec.getBuffer mem
      return { s with dec := d, pos := pos, bytes := bytes.take size }
    else .ok s
  | .decode =>
    if s.alive && !s.failed && !s.bytes.isEmpty then do
      let (d, rest, rc) ← s.dec.decode mem s.pos s.bytes
      -- A call that returns 0 has used all the bytes.
      return { s.toReceiver.decoded d rc with
        alive := true
        pos := s.pos.add (s.bytes.length - rest.length)
        bytes := if rc = .more then [] else rest }
    else .ok s
  | .close i => .ok { s with toReceiver := s.toReceiver.closeHeld i }
  | .destroy => if s.alive then s.destroy else .ok s

variable {mem : Memory} {bufsize : Nat} {s : RecvPath}

structure Inv (mem : Memory) (bufsize : Nat) (s : RecvPath) : Prop where
  maxSize : s.dec.alloc.maxSize = bufsize
  reserved : Msg.maxVsmSize * s.dec.alloc.contents ≤ bufsize
  memOk : s.alive = true → s.dec.MemOk mem s.held
  dead : s.alive = false → ∀ b, s.dec.alloc.refcnt b = holders s.held b
  reading : s.alive = true → s.failed = false → s.dec.Reading s.pos ∧
    (s.bytes ≠ [] → Receiver.Source s.dec s.pos s.bytes.length)

theorem Inv.refcnt_eq (h : s.Inv mem bufsize) (b : Nat) :
    s.dec.alloc.refcnt b =
      (if s.alive = true ∧ b = s.dec.alloc.buf then 1 else 0) + holders s.opened b := by
  cases ha : s.alive with
  | true => simpa [opened, ha] using (h.memOk ha).counted.refcnt_eq b
  | false => simpa [opened, ha] using h.dead ha b

theorem Inv.read (hbuf : 9 ≤ bufsize) (h : s.Inv mem bufsize) (bytes : List UInt8) :
    Ensures (s.step mem (.read bytes)) (Inv mem bufsize) := by
  refine .ite (fun hc => .seq fun ⟨d, pos, size⟩ hb => .pure ?_) fun _ => .ok h
  simp only [Bool.and_eq_true, Bool.not_eq_true'] at hc
  obtain ⟨⟨ha, hf⟩, -⟩ := hc
  have hm := h.memOk ha
  have hr := (h.reading ha hf).1
  obtain ⟨a, halloc, rfl, -, hsrc⟩ := Receiver.getBuffer_source hm (fun _ hn => by
    have := hr.header hn
    have := h.maxSize
    omega) hb
  obtain ⟨hm', hmax, hzero, -⟩ := allocate_memOk hm halloc
  refine ⟨hmax.trans h.maxSize, by simp [hzero], fun _ => hm', by simp [ha], fun _ _ =>
    ⟨⟨by simp [hzero], by simp [hzero], hr.header⟩, fun _ => hsrc _ ?_⟩⟩
  exact List.length_take_le _ _

theorem Inv.decode (hsize : bufsize + atomicCounterSize < 2 ^ 64) (h : s.Inv mem bufsize) :
    Ensures (s.step mem .decode) (Inv mem bufsize) := by
  refine .ite (fun hc => ?_) fun _ => .ok h
  simp only [Bool.and_eq_true, Bool.not_eq_true', List.isEmpty_eq_false_iff] at hc
  obtain ⟨⟨ha, hf⟩, hne⟩ := hc
  obtain ⟨hr, hsrc⟩ := h.reading ha hf
  obtain ⟨d, rest, rc, hdec, hm, hmax, hr', hready⟩ :=
    decode_reading (h.memOk ha) hr (hsrc hne) (by rwa [h.maxSize])
  rw [hdec]
  refine .pure ?_
  have hmax' := hmax.trans h.maxSize
  have hres := hmax' ▸ hr'.reserved
  cases rc with
  | more => exact ⟨hmax', hres, fun _ => hm, by simp, fun _ _ => ⟨hr', by simp⟩⟩
  | error e => exact ⟨hmax', hres, fun _ => hm, by simp, by simp [Receiver.decoded]⟩
  | ready =>
    obtain ⟨hnext, hsrc'⟩ := hready rfl
    exact ⟨hmax', hres, fun _ => takeMsg_memOk hm (by simp [hnext]), by simp,
      fun _ _ => ⟨⟨hr'.reserved, hr'.received, hr'.header⟩, hsrc'⟩⟩

theorem Inv.close (h : s.Inv mem bufsize) (i : Nat) :
    Inv mem bufsize { s with toReceiver := s.toReceiver.closeHeld i } := by
  unfold Receiver.closeHeld
  cases hi : s.held[i]? with
  | none => exact h
  | some m =>
    obtain ⟨hlt, rfl⟩ := List.getElem?_eq_some_iff.mp hi
    have hp := (List.getElem_cons_eraseIdx_perm hlt).symm
    refine ⟨by simpa using h.maxSize, by simpa using h.reserved,
      fun ha => closeMsg_memOk (h.memOk ha) hp, fun ha b => ?_, fun ha hf => ?_⟩
    · have hb := h.dead ha b
      rw [holders, hp.countP_eq, ← holders, holders_cons] at hb
      dsimp only
      rw [closeMsg_refcnt]
      omega
    · obtain ⟨hr, hsrc⟩ := h.reading ha hf
      exact ⟨⟨by simpa using hr.reserved, by simpa using hr.received, hr.header⟩,
        fun hne => by simpa [Receiver.Source] using hsrc hne⟩

theorem Inv.destroy (h : s.Inv mem bufsize) (ha : s.alive = true) :
    Ensures s.destroy (Inv mem bufsize) := by
  refine .seq fun _ _ => .pure ?_
  have hc := closeMsg_counted (h.memOk ha).counted
  refine ⟨by simpa [callDecRef] using h.maxSize, by simpa [callDecRef] using h.reserved, by simp,
    fun _ b => ?_, by simp⟩
  have hb := hc.refcnt_eq b
  by_cases heq : b = s.dec.alloc.buf
  · subst heq
    simp [callDecRef, hb]
  · simp [callDecRef, hb, heq]

theorem Inv.step (hbuf : 9 ≤ bufsize) (hsize : bufsize + atomicCounterSize < 2 ^ 64)
    (h : s.Inv mem bufsize) (act : RecvAction) : Ensures (s.step mem act) (Inv mem bufsize) := by
  cases act with
  | read bytes => exact h.read hbuf bytes
  | decode => exact h.decode hsize
  | close i => exact .ok (h.close i)
  | destroy => exact .ite (fun ha => h.destroy ha) fun _ => .ok h

/-- A new decoder, whose buffer lies inside the address space. -/
theorem new_inv {max : Int} {zc : Bool} (h : new mem bufsize max zc = .ok s) :
    s.Inv mem bufsize ∧ bufsize + atomicCounterSize < 2 ^ 64 := by
  obtain ⟨r, hr, h⟩ := bind_eq_ok h
  obtain ⟨d, hd, hr⟩ := bind_eq_ok hr
  cases hr
  cases h
  obtain ⟨hwf, -, -, -, hin, hprog, hread, hnext, hnew⟩ := V2Decoder.new_ok hd
  obtain ⟨hc, hsize, hzero, hmalloc⟩ := Allocator.new_counted hnew
  refine ⟨⟨hsize, by simp [hzero], fun _ => ⟨hwf.check, ?_, ?_, by simp [hin]⟩, by simp,
    fun _ _ => ⟨⟨by simp [hzero], by simp [hzero], fun _ => ?_⟩, by simp⟩⟩, ?_⟩
  · exact hc.cons_of_hint_none (by rw [hprog]; rfl)
  · simp [ReadPosOk, hnext, hread, tmpbufPtr]
  · have hfield := hwf.field
    simp only [FieldOk, hnext] at hfield
    exact Nat.le_trans (Nat.le_of_eq hfield.1) (by decide)
  · have hfits := mem.fits _ _ hmalloc
    simp only [allocationSize, maxCountersOf, contentSize, atomicCounterSize, Msg.maxVsmSize]
      at hfits ⊢
    omega

/-- **The receive buffers are accounted for.** In every state of a run the content records taken
from the buffer are at most those reserved for it, the counter of each buffer is one for the
decoder that owns it and one for each open message on it, the buffer that `allocate` hands out has
no open message on it, and no buffer is freed, its counter dropping to zero, that has one. -/
theorem receive_buffers_accounted {max : Int} {zc : Bool} {s0 : RecvPath}
    {acts : List RecvAction} (hbuf : 9 ≤ bufsize) (hnew : new mem bufsize max zc = .ok s0)
    (hrun : run (step mem) s0 acts = .ok s) :
    s.dec.alloc.contents ≤ maxCountersOf bufsize ∧
      (∀ b, s.dec.alloc.refcnt b =
        (if s.alive = true ∧ b = s.dec.alloc.buf then 1 else 0) + holders s.opened b) ∧
      (∀ a, s.alive = true → s.dec.alloc.allocate mem = .ok a →
        ∀ m ∈ s.opened, m.hint ≠ some a.buf) ∧
      ∀ act s' b, s.step mem act = .ok s' → s.dec.alloc.refcnt b ≠ 0 →
        s'.dec.alloc.refcnt b = 0 → ∀ m ∈ s'.opened, m.hint ≠ some b := by
  obtain ⟨h0, hsize⟩ := new_inv hnew
  have h : s.Inv mem bufsize := run_inv (fun _ act s' h => h.step hbuf hsize act s') h0 hrun
  refine ⟨?_, h.refcnt_eq, fun a ha halloc => ?_, fun act s' b hs _ hfree => ?_⟩
  · have := h.reserved
    simp only [maxCountersOf, Msg.maxVsmSize] at *
    omega
  · obtain ⟨-, -, -, -, hnone⟩ := allocate_memOk (h.memOk ha) halloc
    simpa [opened, ha] using hnone
  · have hzero := (h.step hbuf hsize act s' hs).refcnt_eq b
    exact holders_eq_zero.mp (by omega)

/-- A message of 40 bytes on a buffer of 64. -/
theorem receive_buffers_accounted_one :
    ∃ s0 s, new largeMemory 64 (-1) true = .ok s0 ∧
      run (step largeMemory) s0 [.read (0 :: 40 :: List.replicate 40 7), .decode] = .ok s ∧
      s.dec.alloc.contents = 1 ∧ s.dec.alloc.contents ≤ maxCountersOf 64 := by
  refine ⟨_, _, rfl, rfl, rfl, ?_⟩
  exact (receive_buffers_accounted (by decide)
    (show new largeMemory 64 (-1) true = .ok _ from rfl)
    (show run (step largeMemory) _ [.read (0 :: 40 :: List.replicate 40 7), .decode] = .ok _
      from rfl)).1

end RecvPath

end ServerLink
