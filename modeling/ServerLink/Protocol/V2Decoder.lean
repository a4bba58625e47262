import ServerLink.Lib.Checked
import ServerLink.Protocol.DecoderAllocators
import ServerLink.Protocol.Wire

/-!
# ServerLink.Protocol.V2Decoder

The ZMTP 2 decoder (`v2_decoder.cpp`) on top of the resumable state machine of
`decoder.hpp`. Pointers are blocks with offsets, so that the comparisons and the
pointer difference of the source are there; the contents are kept by value: `tmpbuf`
holds the bytes received for the current header field and `inProgress.data` the bytes
received for the message. That is what the memory holds as long as every message lies
inside the memory it was built on; `inPlace` records the messages built on received
memory, so that this can be stated.

* `SizeReady` — the outcomes of `size_ready`, which every proof about it goes through;
* `decode_rule` — the induction rule of `decode` for invariants.
-/

namespace ServerLink

open Allocator Msg Checked

/-- The state machine actions of `v2_decoder_t`. -/
inductive DecoderStep
  | flagsReady
  | oneByteSizeReady
  | eightByteSizeReady
  | messageReady
  deriving Repr, DecidableEq

/-- What `decode` returns: 0, 1 or -1 with `errno`. -/
inductive DecodeRc
  | more
  | ready
  | error (e : Errno)
  deriving Repr, DecidableEq

/-- A message that `size_ready` built on received memory: where, how long, and the
buffer the allocator owned at that moment. -/
structure InPlace where
  readPos : Ptr
  msgSize : Nat
  data : Ptr
  size : Nat
  deriving Repr, DecidableEq

/-- The range of the message lies inside the buffer. -/
def InPlace.Inside (mem : Memory) (r : InPlace) : Prop :=
  mem.address r.data ≤ mem.address r.readPos ∧
    mem.address r.readPos + r.msgSize ≤ mem.address r.data + r.size

instance (mem : Memory) (r : InPlace) : Decidable (r.Inside mem) :=
  inferInstanceAs (Decidable (_ ∧ _))

structure V2Decoder where
  next : DecoderStep
  readPos : Ptr
  toRead : Nat
  tmpbuf : List UInt8
  msgFlags : BitVec 8
  inProgress : Msg
  zeroCopy : Bool
  maxMsgSize : Int
  alloc : Allocator
  /-- The messages built on received memory so far. -/
  inPlace : List InPlace

namespace V2Decoder

variable {d' : V2Decoder} {n : Nat} {pos : Ptr} {rc : DecodeRc}

/-- `m_tmpbuf`. -/
def tmpbufPtr : Ptr := ⟨.tmpbuf, 0⟩

def nextStep (d : V2Decoder) (readPos : Ptr) (toRead : Nat) (next : DecoderStep) : V2Decoder :=
  { d with readPos := readPos, toRead := toRead, next := next, tmpbuf := [] }

/-- The constructor: at the beginning, read one byte and go to the `flags_ready`
state. -/
def new (mem : Memory) (bufsize : Nat) (maxMsgSize : Int) (zeroCopy : Bool)
    (nextBlock : Nat) : Except Fault V2Decoder := do
  let alloc ← Allocator.new mem bufsize nextBlock
  return { next := .flagsReady, readPos := tmpbufPtr, toRead := 1, tmpbuf := [],
           msgFlags := 0, inProgress := init, zeroCopy := zeroCopy,
           maxMsgSize := maxMsgSize, alloc := alloc, inPlace := [] }

/-- The destructor closes the message in progress. -/
def destroy (d : V2Decoder) : Except Fault Unit :=
  match d.inProgress.close with
  | none => .error .decoderDtorClose
  | some _ => .ok ()

def flagsReady (d : V2Decoder) : V2Decoder :=
  let b := d.tmpbuf.headD 0
  let flags := flagsOf (b &&& V2Protocol.moreFlag != 0) (b &&& V2Protocol.commandFlag != 0)
  let d := { d with msgFlags := flags }
  if b &&& V2Protocol.largeFlag != 0 then d.nextStep tmpbufPtr 8 .eightByteSizeReady
  else d.nextStep tmpbufPtr 1 .oneByteSizeReady

/-- `size_ready`. The size fits into `size_t`, which has 64 bits. -/
def sizeReady (mem : Memory) (d : V2Decoder) (msgSize : Nat) (readPos : Ptr) :
    Except Fault (V2Decoder × DecodeRc) :=
  if 0 ≤ d.maxMsgSize ∧ d.maxMsgSize < msgSize then .ok (d, .error .emsgsize)
  else if d.inProgress.close.isNone then .error .sizeReadyClose
  else
    let alloc := d.alloc.closeMsg d.inProgress
    if !d.zeroCopy || mem.ptrDiff (alloc.data.add alloc.size) readPos < msgSize then
      -- The message gets memory of its own.
      match alloc.initSize mem msgSize with
      | (alloc, none) => .ok ({ d with alloc := alloc, inProgress := init }, .error .enomem)
      | (alloc, some (m, p)) =>
        .ok ({ d with alloc := alloc, inProgress := m.setFlags d.msgFlags }.nextStep p msgSize
          .messageReady, .more)
    else if msgSize < maxVsmSize then
      -- Small messages are copied into the message object.
      .ok ({ d with alloc := alloc, inProgress := init.setFlags d.msgFlags }.nextStep
        ⟨.vsmData, 0⟩ msgSize .messageReady, .more)
    else
      let m : Msg := { type := .zclmsg, external := some ⟨readPos, alloc.buf⟩ }
      .ok ({ d with
        alloc := alloc.advanceContent.incRef
        inProgress := m.setFlags d.msgFlags
        inPlace := ⟨readPos, msgSize, alloc.data, alloc.size⟩ :: d.inPlace }.nextStep
          readPos msgSize .messageReady, .more)

/-- Run the action `m_next` points to; `pos` is the current address in the buffer. -/
def runNext (mem : Memory) (d : V2Decoder) (pos : Ptr) : Except Fault (V2Decoder × DecodeRc) :=
  match d.next with
  | .flagsReady => .ok (d.flagsReady, .more)
  | .oneByteSizeReady => d.sizeReady mem (d.tmpbuf.headD 0).toNat pos
  | .eightByteSizeReady => d.sizeReady mem (getUint64 d.tmpbuf) pos
  | .messageReady => .ok (d.nextStep tmpbufPtr 1 .flagsReady, .ready)

/-- Store received bytes where `m_read_pos` points and move it. -/
def advance (d : V2Decoder) (bytes : List UInt8) : V2Decoder :=
  let d := { d with readPos := d.readPos.add bytes.length, toRead := d.toRead - bytes.length }
  match d.next with
  | .messageReady => { d with inProgress.data := d.inProgress.data ++ bytes }
  | _ => { d with tmpbuf := d.tmpbuf ++ bytes }

/-- The inner loop of `decode`: `while (m_to_read == 0)`. An action that leaves
nothing to read is followed by `message_ready`, so three rounds are enough. -/
def settle (mem : Memory) (pos : Ptr) : Nat → V2Decoder → Except Fault (V2Decoder × DecodeRc)
  | 0, d => .ok (d, .more)
  | fuel + 1, d =>
    if d.toRead = 0 then
      match d.runNext mem pos with
      | .error e => .error e
      | .ok (d', .more) => settle mem pos fuel d'
      | .ok (d', rc) => .ok (d', rc)
    else .ok (d, .more)

/-- The loop of `decode`; the bytes that are not used are returned. -/
def decodeLoop (mem : Memory) :
    Nat → V2Decoder → Ptr → List UInt8 → Except Fault (V2Decoder × List UInt8 × DecodeRc)
  | 0, d, _, bytes => .ok (d, bytes, .more)
  | fuel + 1, d, pos, bytes =>
    if bytes.isEmpty then .ok (d, [], .more)
    else
      let toCopy := min d.toRead bytes.length
      match settle mem (pos.add toCopy) 3 (d.advance (bytes.take toCopy)) with
      | .error e => .error e
      | .ok (d', .more) => decodeLoop mem fuel d' (pos.add toCopy) (bytes.drop toCopy)
      | .ok (d', rc) => .ok (d', bytes.drop toCopy, rc)

/-- `decode` on the bytes found at `pos`. -/
def decode (mem : Memory) (d : V2Decoder) (pos : Ptr) (bytes : List UInt8) :
    Except Fault (V2Decoder × List UInt8 × DecodeRc) :=
  if pos = d.readPos then
    -- The bytes were read straight to where they belong.
    if d.toRead < bytes.length then .error .decodeTooMuch
    else
      match settle mem (pos.add bytes.length) 3 (d.advance bytes) with
      | .error e => .error e
      | .ok (d', rc) => .ok (d', [], rc)
  else decodeLoop mem (bytes.length + 1) d pos bytes

/-- `get_buffer`: where the next bytes are to be read to, and how many at most. -/
def getBuffer (mem : Memory) (d : V2Decoder) : Except Fault (V2Decoder × Ptr × Nat) :=
  match d.alloc.allocate mem with
  | .error e => .error e
  | .ok alloc =>
    let d := { d with alloc := alloc }
    if alloc.size ≤ d.toRead then .ok (d, d.readPos, d.toRead)
    else .ok (d, alloc.data, alloc.size)

/-- The message is taken out and the object initialised again. -/
def takeMsg (d : V2Decoder) : V2Decoder := { d with inProgress := init }

/-! ### What `size_ready` can do -/

/-- The outcomes of `size_ready` that do not fail an assertion. -/
inductive SizeReady (mem : Memory) (d : V2Decoder) (n : Nat) (pos : Ptr) :
    V2Decoder → DecodeRc → Prop
  | tooLarge (hmax : 0 ≤ d.maxMsgSize) (hn : d.maxMsgSize < n) :
      SizeReady mem d n pos d (.error .emsgsize)
  | noMemory (alloc : Allocator)
      (hinit : (d.alloc.closeMsg d.inProgress).initSize mem n = (alloc, none)) :
      SizeReady mem d n pos { d with alloc := alloc, inProgress := init } (.error .enomem)
  /-- The message has memory of its own. -/
  | own (hlim : ¬ (0 ≤ d.maxMsgSize ∧ d.maxMsgSize < n)) (alloc : Allocator) (m : Msg) (p : Ptr)
      (hinit : (d.alloc.closeMsg d.inProgress).initSize mem n = (alloc, some (m, p))) :
      SizeReady mem d n pos
        ({ d with alloc := alloc, inProgress := m.setFlags d.msgFlags }.nextStep p n
          .messageReady) .more
  /-- The message was found in the buffer and is small. -/
  | copied (hlim : ¬ (0 ≤ d.maxMsgSize ∧ d.maxMsgSize < n)) (hsmall : n < maxVsmSize) :
      SizeReady mem d n pos
        ({ d with
            alloc := d.alloc.closeMsg d.inProgress
            inProgress := init.setFlags d.msgFlags }.nextStep ⟨.vsmData, 0⟩ n
          .messageReady) .more
  /-- The message refers to the received bytes. -/
  | inPlace (hlim : ¬ (0 ≤ d.maxMsgSize ∧ d.maxMsgSize < n)) (hzc : d.zeroCopy = true)
      (hbig : maxVsmSize ≤ n)
      (hroom : n ≤ mem.ptrDiff (d.alloc.data.add d.alloc.size) pos) :
      SizeReady mem d n pos
        ({ d with
            alloc := (d.alloc.closeMsg d.inProgress).advanceContent.incRef
            inProgress :=
              setFlags { type := .zclmsg, external := some ⟨pos, d.alloc.buf⟩ } d.msgFlags
            inPlace := ⟨pos, n, d.alloc.data, d.alloc.size⟩ :: d.inPlace }.nextStep pos n
          .messageReady) .more

variable {mem : Memory}

theorem sizeReady_inv (d : V2Decoder) (n : Nat) (pos : Ptr) :
    Ensures (d.sizeReady mem n pos) fun r => SizeReady mem d n pos r.1 r.2 := by
  refine .ite (fun hmax => .ok (.tooLarge hmax.1 hmax.2)) fun hlim =>
    .ite (fun _ => .error _ _) fun _ => ?_
  simp only [closeMsg_data, closeMsg_size, closeMsg_buf]
  refine .ite (fun _ => ?_) fun hroom => ?_
  · split
    · exact .ok (.noMemory _ ‹_›)
    · exact .ok (.own hlim _ _ _ ‹_›)
  simp only [Bool.or_eq_true, Bool.not_eq_true', decide_eq_true_eq, not_or,
    Bool.not_eq_false, Nat.not_lt] at hroom
  exact .ite (fun hsmall => .ok (.copied hlim hsmall)) fun hbig =>
    .ok (.inPlace hlim hroom.1 (Nat.not_lt.mp hbig) hroom.2)

variable (mem) in
/-- With a valid message in progress `size_ready` fails no assertion. -/
theorem sizeReady_ok {d : V2Decoder} (hc : d.inProgress.check = true) (n : Nat) (pos : Ptr) :
    ∃ d' rc, d.sizeReady mem n pos = .ok (d', rc) ∧ SizeReady mem d n pos d' rc := by
  suffices h : ∃ r, d.sizeReady mem n pos = .ok r by
    obtain ⟨⟨d', rc⟩, h⟩ := h
    exact ⟨d', rc, h, sizeReady_inv d n pos _ h⟩
  unfold sizeReady
  have hclose : d.inProgress.close.isNone = false := by simp [close, hc]
  rw [hclose]
  dsimp only
  split
  · exact ⟨_, rfl⟩
  rw [if_neg (by simp)]
  split
  · split
    · exact ⟨_, rfl⟩
    · exact ⟨_, rfl⟩
  · split
    · exact ⟨_, rfl⟩
    · exact ⟨_, rfl⟩

/-- What all the messages that `size_ready` builds have in common. -/
theorem SizeReady.more_fields {d : V2Decoder} (h : SizeReady mem d n pos d' .more) :
    d'.next = .messageReady ∧ d'.toRead = n ∧ d'.inProgress.check = true ∧
      d'.inProgress.data = [] ∧ d'.inProgress.flags = d.msgFlags ∧ d'.msgFlags = d.msgFlags ∧
      d'.maxMsgSize = d.maxMsgSize := by
  cases h with
  | own hlim alloc m p hinit =>
    obtain ⟨hc, -, hd, hf⟩ := initSize_msg hinit
    refine ⟨rfl, rfl, hc, hd, ?_, rfl, rfl⟩
    simp [nextStep, setFlags, hf]
  | copied hlim hsmall =>
    refine ⟨rfl, rfl, rfl, rfl, ?_, rfl, rfl⟩
    simp [nextStep, setFlags, init]
  | inPlace hlim hzc hbig hroom =>
    refine ⟨rfl, rfl, rfl, rfl, ?_, rfl, rfl⟩
    simp [nextStep, setFlags]

/-! ### Storing bytes -/

section Advance

variable (d : V2Decoder) (bs : List UInt8)

theorem advance_fields :
    (d.advance bs).next = d.next ∧ (d.advance bs).toRead = d.toRead - bs.length ∧
      (d.advance bs).msgFlags = d.msgFlags ∧ (d.advance bs).alloc = d.alloc ∧
      (d.advance bs).zeroCopy = d.zeroCopy ∧ (d.advance bs).maxMsgSize = d.maxMsgSize ∧
      (d.advance bs).inPlace = d.inPlace ∧
      (d.advance bs).readPos = d.readPos.add bs.length := by
  unfold advance
  cases d.next <;> simp_all

@[simp] theorem advance_next : (d.advance bs).next = d.next := (d.advance_fields bs).1
@[simp] theorem advance_toRead : (d.advance bs).toRead = d.toRead - bs.length :=
  (d.advance_fields bs).2.1
@[simp] theorem advance_msgFlags : (d.advance bs).msgFlags = d.msgFlags :=
  (d.advance_fields bs).2.2.1
@[simp] theorem advance_alloc : (d.advance bs).alloc = d.alloc := (d.advance_fields bs).2.2.2.1
@[simp] theorem advance_zeroCopy : (d.advance bs).zeroCopy = d.zeroCopy :=
  (d.advance_fields bs).2.2.2.2.1
@[simp] theorem advance_maxMsgSize : (d.advance bs).maxMsgSize = d.maxMsgSize :=
  (d.advance_fields bs).2.2.2.2.2.1
@[simp] theorem advance_inPlace : (d.advance bs).inPlace = d.inPlace :=
  (d.advance_fields bs).2.2.2.2.2.2.1
@[simp] theorem advance_readPos : (d.advance bs).readPos = d.readPos.add bs.length :=
  (d.advance_fields bs).2.2.2.2.2.2.2

@[simp] theorem advance_check : (d.advance bs).inProgress.check = d.inProgress.check := by
  unfold advance
  cases d.next <;> rfl

@[simp] theorem advance_hint : (d.advance bs).inProgress.hint = d.inProgress.hint := by
  unfold advance
  cases d.next <;> rfl

@[simp] theorem advance_flags : (d.advance bs).inProgress.flags = d.inProgress.flags := by
  unfold advance
  cases d.next <;> rfl

theorem advance_nil : d.advance [] = d := by
  obtain ⟨next⟩ := d
  cases next <;> simp [advance, Ptr.add]

variable {d}

theorem advance_tmpbuf (h : d.next ≠ .messageReady) : (d.advance bs).tmpbuf = d.tmpbuf ++ bs := by
  unfold advance
  cases hn : d.next <;> simp_all

theorem advance_data (h : d.next = .messageReady) :
    (d.advance bs).inProgress.data = d.inProgress.data ++ bs := by
  simp [advance, h]

end Advance

/-! ### What the actions leave alone -/

/-- The options of the decoder and the buffer of its allocator are the same. -/
structure SameConfig (d d' : V2Decoder) : Prop where
  zeroCopy : d'.zeroCopy = d.zeroCopy
  maxMsgSize : d'.maxMsgSize = d.maxMsgSize
  buf : d'.alloc.buf = d.alloc.buf
  maxSize : d'.alloc.maxSize = d.alloc.maxSize

theorem SameConfig.refl (d : V2Decoder) : SameConfig d d := ⟨rfl, rfl, rfl, rfl⟩

theorem SameConfig.trans {d1 d2 d3 : V2Decoder} (h1 : SameConfig d1 d2)
    (h2 : SameConfig d2 d3) : SameConfig d1 d3 :=
  ⟨h2.zeroCopy.trans h1.zeroCopy, h2.maxMsgSize.trans h1.maxMsgSize, h2.buf.trans h1.buf,
    h2.maxSize.trans h1.maxSize⟩

theorem advance_config (d : V2Decoder) (bs : List UInt8) : SameConfig d (d.advance bs) :=
  ⟨by simp, by simp, by simp, by simp⟩

theorem SizeReady.config {d d' : V2Decoder} {n : Nat} {pos : Ptr} {rc : DecodeRc}
    (h : SizeReady mem d n pos d' rc) : SameConfig d d' := by
  cases h with
  | tooLarge => exact .refl d
  | noMemory alloc hinit =>
    have h := initSize_config hinit
    exact ⟨rfl, rfl, by simpa using h.1, by simpa using h.2.1⟩
  | own hlim alloc m p hinit =>
    have h := initSize_config hinit
    exact ⟨rfl, rfl, by simpa [nextStep] using h.1, by simpa [nextStep] using h.2.1⟩
  | copied => exact ⟨rfl, rfl, by simp [nextStep], by simp [nextStep]⟩
  | inPlace =>
    exact ⟨rfl, rfl, by simp [nextStep, incRef, advanceContent],
      by simp [nextStep, incRef, advanceContent]⟩

/-- What the actions do: the flags are followed by a size, the size by a message, and a message by
the flags of the next one. -/
inductive RunNext (mem : Memory) (d : V2Decoder) (pos : Ptr) : V2Decoder → DecodeRc → Prop
  | flags (hn : d.next = .flagsReady) (more command : Bool) (n : Nat) (next : DecoderStep)
      (hle : n ≤ 8) (hnext : next ≠ .messageReady) :
      RunNext mem d pos
        ({ d with msgFlags := flagsOf more command }.nextStep tmpbufPtr n next) .more
  | size (hn : d.next ≠ .messageReady) (n : Nat) (d' : V2Decoder) (rc : DecodeRc)
      (hS : SizeReady mem d n pos d' rc) : RunNext mem d pos d' rc
  | message (hn : d.next = .messageReady) :
      RunNext mem d pos (d.nextStep tmpbufPtr 1 .flagsReady) .ready

theorem runNext_inv {d : V2Decoder} (h : d.runNext mem pos = .ok (d', rc)) :
    RunNext mem d pos d' rc := by
  unfold runNext at h
  split at h
  · rename_i hn
    cases h
    unfold flagsReady
    dsimp only
    split
    · exact .flags hn _ _ 8 .eightByteSizeReady (by decide) (by decide)
    · exact .flags hn _ _ 1 .oneByteSizeReady (by decide) (by decide)
  · rename_i hn
    exact .size (by simp [hn]) _ _ _ (sizeReady_inv _ _ _ _ h)
  · rename_i hn
    exact .size (by simp [hn]) _ _ _ (sizeReady_inv _ _ _ _ h)
  · rename_i hn
    cases h
    exact .message hn

theorem runNext_config {d : V2Decoder}
    (h : d.runNext mem pos = .ok (d', rc)) : SameConfig d d' := by
  cases runNext_inv h with
  | flags => exact ⟨rfl, rfl, rfl, rfl⟩
  | size _ _ _ _ hS => exact hS.config
  | message => exact ⟨rfl, rfl, rfl, rfl⟩

/-! ### Invariants of calls that succeed -/

section Invariants

variable {P : V2Decoder → Prop}
  (hrun : ∀ d pos, P d → Ensures (d.runNext mem pos) (P ·.1))

include hrun

/-- What every action keeps, the inner loop keeps. -/
theorem settle_inv (fuel : Nat) {d : V2Decoder} (hd : P d) :
    Ensures (settle mem pos fuel d) (P ·.1) := by
  induction fuel generalizing d with
  | zero => exact .ok hd
  | succ fuel ih =>
    refine .ite (fun _ => ?_) fun _ => .ok hd
    split
    · exact .error _ _
    · exact ih (hrun d pos hd _ ‹_›)
    · exact .ok (hrun d pos hd _ ‹_›)

variable (hadv : ∀ d bs, P d → P (d.advance bs))

include hadv

theorem decodeLoop_inv (fuel : Nat) {d : V2Decoder} {pos : Ptr} {bytes : List UInt8} (hd : P d) :
    Ensures (decodeLoop mem fuel d pos bytes) (P ·.1) := by
  induction fuel generalizing d pos bytes with
  | zero => exact .ok hd
  | succ fuel ih =>
    refine .ite (fun _ => .ok hd) fun _ => ?_
    dsimp only
    split
    · exact .error _ _
    · exact ih (settle_inv hrun 3 (hadv d _ hd) _ ‹_›)
    · exact .ok (settle_inv hrun 3 (hadv d _ hd) _ ‹_›)

/-- What storing bytes and every action keep, `decode` keeps. -/
theorem decode_inv {d : V2Decoder} (bytes : List UInt8) (hd : P d) :
    Ensures (d.decode mem pos bytes) (P ·.1) := by
  refine .ite (fun _ => .ite (fun _ => .error _ _) fun _ => ?_) fun _ =>
    decodeLoop_inv hrun hadv _ hd
  split
  · exact .error _ _
  · exact .ok (settle_inv hrun 3 (hadv d bytes hd) _ ‹_›)

end Invariants

theorem settle_config {fuel : Nat} {d : V2Decoder}
    (h : settle mem pos fuel d = .ok (d', rc)) : SameConfig d d' :=
  settle_inv (P := SameConfig d) (fun _ _ hc _ hr => hc.trans (runNext_config hr)) _ (.refl d) _ h

/-- The flags of a received message are those of its frame. -/
def FlagsOk (d : V2Decoder) : Prop :=
  (∃ more command, d.msgFlags = flagsOf more command) ∧
    ∃ more command, d.inProgress.flags = flagsOf more command

theorem new_flagsOk {bufsize k : Nat} {max : Int} {zc : Bool} {d : V2Decoder}
    (h : new mem bufsize max zc k = .ok d) : d.FlagsOk := by
  unfold new at h
  cases ha : Allocator.new mem bufsize k with
  | error e => rw [ha] at h; cases h
  | ok a =>
    rw [ha] at h
    cases h
    exact ⟨⟨false, false, rfl⟩, false, false, rfl⟩

theorem SizeReady.flagsOk {d : V2Decoder} (h : SizeReady mem d n pos d' rc)
    (hd : d.FlagsOk) : d'.FlagsOk := by
  cases rc with
  | more =>
    obtain ⟨-, -, -, -, hflags, hmsg, -⟩ := h.more_fields
    rw [FlagsOk, hflags, hmsg]
    exact ⟨hd.1, hd.1⟩
  | ready => cases h
  | error e =>
    cases h with
    | tooLarge => exact hd
    | noMemory => exact ⟨hd.1, false, false, rfl⟩

theorem runNext_flagsOk {d : V2Decoder} (hd : d.FlagsOk)
    (h : d.runNext mem pos = .ok (d', rc)) : d'.FlagsOk := by
  cases runNext_inv h with
  | flags => exact ⟨⟨_, _, rfl⟩, hd.2⟩
  | size _ _ _ _ hS => exact hS.flagsOk hd
  | message => exact hd

theorem decode_flagsOk {d : V2Decoder} {bytes rest : List UInt8}
    (h : d.decode mem pos bytes = .ok (d', rest, rc)) (hd : d.FlagsOk) : d'.FlagsOk :=
  decode_inv (fun _ _ hP _ hr => runNext_flagsOk hP hr)
    (fun d bs hP => by simpa only [FlagsOk, advance_msgFlags, advance_flags] using hP) bytes hd _ h

/-! ### The induction rule of `decode` -/

theorem runNext_ready {d : V2Decoder} (h : d.runNext mem pos = .ok (d', .ready)) :
    d'.next = .flagsReady := by
  cases runNext_inv h with
  | size _ _ _ _ hS => cases hS
  | message => rfl

theorem settle_rule {P : V2Decoder → Prop}
    (hrun : ∀ d, P d → d.toRead = 0 → ∃ d' rc, d.runNext mem pos = .ok (d', rc) ∧ P d') :
    ∀ (fuel : Nat) (d : V2Decoder), P d → ∃ d' rc, settle mem pos fuel d = .ok (d', rc) ∧ P d' ∧
      (rc = .ready → d'.next = .flagsReady) := by
  intro fuel
  induction fuel with
  | zero => intro d hd; exact ⟨d, .more, rfl, hd, by simp⟩
  | succ fuel ih =>
    intro d hd
    rw [settle]
    by_cases hz : d.toRead = 0
    · obtain ⟨d', rc, hr, hd'⟩ := hrun d hd hz
      rw [if_pos hz, hr]
      cases rc with
      | more => exact ih d' hd'
      | ready => exact ⟨d', .ready, rfl, hd', fun _ => runNext_ready hr⟩
      | error e => exact ⟨d', .error e, rfl, hd', by simp⟩
    · rw [if_neg hz]
      exact ⟨d, .more, rfl, hd, by simp⟩

section Rule

variable {P : V2Decoder → Ptr → Nat → Prop}
  (hadv : ∀ d pos n bs, P d pos n → bs.length ≤ d.toRead → bs.length ≤ n →
    P (d.advance bs) (pos.add bs.length) (n - bs.length))
  (hrun : ∀ d pos n, P d pos n → d.toRead = 0 →
    ∃ d' rc, d.runNext mem pos = .ok (d', rc) ∧ P d' pos n)

include hadv hrun

theorem decodeLoop_rule :
    ∀ (fuel : Nat) (d : V2Decoder) (pos : Ptr) (bytes : List UInt8), P d pos bytes.length →
      ∃ d' rest rc, decodeLoop mem fuel d pos bytes = .ok (d', rest, rc) ∧
        rest.length ≤ bytes.length ∧ P d' (pos.add (bytes.length - rest.length)) rest.length ∧
        (rc = .ready → d'.next = .flagsReady) := by
  intro fuel
  induction fuel with
  | zero =>
    intro d pos bytes hd
    exact ⟨d, bytes, .more, rfl, Nat.le_refl _, by simpa [Ptr.add] using hd, by simp⟩
  | succ fuel ih =>
    intro d pos bytes hd
    rw [decodeLoop]
    by_cases hnil : bytes = []
    · subst hnil
      exact ⟨d, [], .more, rfl, Nat.le_refl _, by simpa [Ptr.add] using hd, by simp⟩
    rw [if_neg (by simpa using hnil)]
    dsimp only
    generalize hk : min d.toRead bytes.length = k
    have hlen : (bytes.take k).length = k := by
      rw [List.length_take]
      omega
    have hrest : (bytes.drop k).length = bytes.length - k := List.length_drop
    have h0 := hadv d pos _ (bytes.take k) hd (by omega) (by omega)
    rw [hlen, ← hrest] at h0
    obtain ⟨d', rc, hs, hd', hready⟩ := settle_rule (P := fun d => P d _ _)
      (fun d h hz => hrun d _ _ h hz) 3 _ h0
    rw [hs]
    have hpos : bytes.length - (bytes.drop k).length = k := by omega
    cases rc with
    | more =>
      obtain ⟨d'', rest, rc, hl, hle, hP, hready⟩ := ih d' _ _ hd'
      refine ⟨d'', rest, rc, hl, by omega, ?_, hready⟩
      rw [Ptr.add_add] at hP
      convert hP using 2
      omega
    | ready => exact ⟨d', _, .ready, rfl, by omega, by rwa [hpos], hready⟩
    | error e => exact ⟨d', _, .error e, rfl, by omega, by rwa [hpos], by simp⟩

/-- An invariant `P` of the decoder, the address it has reached and the number of
bytes left there, which storing bytes and running an action keep, is kept by `decode`,
and no assertion fails. After a message the next byte is one of flags, and bytes that were
read straight to their place are all used. -/
theorem decode_rule {d : V2Decoder} {bytes : List UInt8} (hd : P d pos bytes.length)
    (hdirect : pos = d.readPos → bytes.length ≤ d.toRead) :
    ∃ d' rest rc, d.decode mem pos bytes = .ok (d', rest, rc) ∧ rest.length ≤ bytes.length ∧
      P d' (pos.add (bytes.length - rest.length)) rest.length ∧
      (rc = .ready → d'.next = .flagsReady) ∧ (pos = d.readPos → rest = []) := by
  unfold decode
  by_cases heq : pos = d.readPos
  · have hle := hdirect heq
    rw [if_pos heq, if_neg (Nat.not_lt.mpr hle)]
    have h0 := hadv d pos _ bytes hd hle (Nat.le_refl _)
    rw [Nat.sub_self] at h0
    obtain ⟨d', rc, hs, hd', hready⟩ := settle_rule (P := fun d => P d (pos.add bytes.length) 0)
      (fun d h hz => hrun d _ _ h hz) 3 _ h0
    rw [hs]
    exact ⟨d', [], rc, rfl, Nat.zero_le _, hd', hready, fun _ => rfl⟩
  · rw [if_neg heq]
    obtain ⟨d', rest, rc, hl, hle, hP, hready⟩ := decodeLoop_rule hadv hrun _ d pos bytes hd
    exact ⟨d', rest, rc, hl, hle, hP, hready, fun h => absurd h heq⟩

end Rule

/-! ### Addresses -/

/-- The address lies in the buffer the allocator owns, with `n` bytes behind it. This
only matters where messages are built on received memory. -/
def InBuffer (d : V2Decoder) (pos : Ptr) (n : Nat) : Prop :=
  d.zeroCopy = true → pos.block = .heap d.alloc.buf ∧ atomicCounterSize ≤ pos.off ∧
    pos.off + n ≤ atomicCounterSize + d.alloc.maxSize

theorem ptrDiff_of_inBuffer {d : V2Decoder} (hpos : d.InBuffer pos n) (hzc : d.zeroCopy = true)
    (hsize : d.alloc.maxSize + atomicCounterSize < 2 ^ 64) :
    mem.ptrDiff (d.alloc.data.add d.alloc.size) pos =
      atomicCounterSize + d.alloc.maxSize - pos.off := by
  obtain ⟨hb, -, hle⟩ := hpos hzc
  have hend : (d.alloc.data.add d.alloc.size).off =
      atomicCounterSize + d.alloc.maxSize := rfl
  rw [Memory.ptrDiff_same_block hb.symm (by omega) (by omega), hend]

end V2Decoder

end ServerLink
