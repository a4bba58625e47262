import ServerLink.Msg.Msg
import ServerLink.Protocol.Wire

/-!
# ServerLink.Protocol.Encoder

The batching state machine of `encoder.hpp`. The encoders derived from it differ in
what their `message_ready` puts in front of a message; that is the parameter `header`.
The bytes still to be copied out are a list (`toWrite`), which stands for
`m_write_pos` and `m_to_write` together.

The result of the module is `encodeAll_eq`: whatever the batch size, the bytes of a
sequence of messages are the concatenation of their frames (`frameBytes`).
-/

namespace ServerLink

/-- The state machine actions of an encoder. -/
inductive EncoderStep
  | messageReady
  | sizeReady
  deriving Repr, DecidableEq

/-- `encoder_base_t`. -/
structure EncoderBase where
  /-- The bytes from `m_write_pos` on, `m_to_write` of them. -/
  toWrite : List UInt8
  next : EncoderStep
  newMsgFlag : Bool
  bufSize : Nat
  inProgress : Option Msg

namespace EncoderBase

def nextStep (e : EncoderBase) (bytes : List UInt8) (next : EncoderStep) (newMsgFlag : Bool) :
    EncoderBase :=
  { e with toWrite := bytes, next := next, newMsgFlag := newMsgFlag }

/-- The constructor writes no bytes and goes to the `message_ready` state. -/
def new (bufSize : Nat) : EncoderBase :=
  { toWrite := [], next := .messageReady, newMsgFlag := true, bufSize := bufSize,
    inProgress := none }

section Actions

variable (header : Msg → List UInt8)

def messageReady (e : EncoderBase) (m : Msg) : EncoderBase :=
  e.nextStep (header m) .sizeReady false

/-- Write the message body into the buffer. -/
def sizeReady (e : EncoderBase) (m : Msg) : EncoderBase :=
  e.nextStep m.data .messageReady true

/-- Run the action `m_next` points to. -/
def runNext (e : EncoderBase) (m : Msg) : EncoderBase :=
  match e.next with
  | .messageReady => e.messageReady header m
  | .sizeReady => e.sizeReady m

/-- If there are no more data to return, run the state machine. -/
def refill (e : EncoderBase) (m : Msg) : EncoderBase :=
  if e.toWrite.isEmpty then e.runNext header m else e

def isEmpty (e : EncoderBase) : Bool := e.inProgress.isNone

/-- `load_msg`. Running the state machine reads the message, which asserts that it
carries data. -/
def loadMsg (e : EncoderBase) (m : Msg) : Except Fault EncoderBase :=
  if e.inProgress.isSome then .error .loadMsgBusy
  else if !m.hasData then .error .msgNotData
  else .ok ({ e with inProgress := some m }.runNext header m)

/-- The loop of `encode`, with the bytes already in the batch. `own` says that the
caller supplied no buffer, which is what makes the zero-copy exit possible. -/
def encodeLoop (own : Bool) (cap : Nat) (m : Msg) :
    Nat → EncoderBase → List UInt8 → EncoderBase × List UInt8
  | 0, e, out => (e, out)
  | fuel + 1, e, out =>
    if out.length < cap then
      if e.toWrite.isEmpty && e.newMsgFlag then
        -- The message is closed and the encoder waits for the next one.
        ({ e with inProgress := none }, out)
      else
        let e' := e.refill header m
        if out.isEmpty && own && cap ≤ e'.toWrite.length then
          ({ e' with toWrite := [] }, e'.toWrite)
        else
          encodeLoop own cap m fuel { e' with toWrite := e'.toWrite.drop (cap - out.length) }
            (out ++ e'.toWrite.take (cap - out.length))
    else (e, out)

/-- `encode`: a batch of bytes, into the supplied buffer of the given size or into
the encoder's own. Four rounds are enough: the rest of the header, the body, closing
the message, and one more when the loop is left because the batch is full. -/
def encode (e : EncoderBase) (buf : Option Nat) : EncoderBase × List UInt8 :=
  match e.inProgress with
  | none => (e, [])
  | some m => encodeLoop header buf.isNone (buf.getD e.bufSize) m 4 e []

/-- Call `encode` on the encoder's own buffer until the message in progress is gone. -/
def drain : Nat → EncoderBase → EncoderBase × List UInt8
  | 0, e => (e, [])
  | fuel + 1, e =>
    if e.isEmpty then (e, [])
    else
      let (e', out) := e.encode header none
      let (e'', rest) := drain fuel e'
      (e'', out ++ rest)

/-- The frame of a message, as the two actions produce it. -/
def frameBytes (m : Msg) : List UInt8 := header m ++ m.data

/-- Encode a sequence of messages: each is loaded and written out completely. Every
call hands out at least one byte, but for the one that closes the message. -/
def encodeAll : EncoderBase → List Msg → Except Fault (EncoderBase × List UInt8)
  | e, [] => .ok (e, [])
  | e, m :: ms => do
    let e1 ← e.loadMsg header m
    let (e2, out) := drain header ((header m).length + m.size + 2) e1
    let (e3, rest) ← encodeAll e2 ms
    return (e3, out ++ rest)

end Actions

/-! ### The invariant of the encoder -/

variable (header : Msg → List UInt8)

/-- Between calls the encoder is either empty and waiting for a message, or it holds
one whose header or body it is writing. -/
def Inv (e : EncoderBase) : Prop :=
  match e.inProgress with
  | none => e.toWrite = [] ∧ e.next = .messageReady
  | some _ => e.newMsgFlag = (e.next == .messageReady)

/-- The bytes of the message in progress that have not been handed out yet. -/
def pending (e : EncoderBase) : List UInt8 :=
  match e.inProgress with
  | none => []
  | some m => e.toWrite ++ if e.next = .sizeReady then m.data else []

theorem new_inv (n : Nat) : (new n).Inv := ⟨rfl, rfl⟩

theorem loadMsg_ok {e : EncoderBase} {m : Msg} (hI : e.Inv) (he : e.inProgress = none)
    (hm : m.hasData = true) :
    ∃ e', e.loadMsg header m = .ok e' ∧ e'.Inv ∧ e'.inProgress = some m ∧ e'.bufSize = e.bufSize
      ∧ e'.pending = frameBytes header m := by
  have hnext : e.next = .messageReady := by
    simp only [Inv, he] at hI
    exact hI.2
  refine ⟨_, by simp [loadMsg, he, hm]; rfl, ?_, ?_, ?_, ?_⟩ <;>
    simp [runNext, hnext, messageReady, nextStep, Inv, pending, frameBytes]

theorem refill_spec {e : EncoderBase} {m : Msg} (hI : e.Inv) (hm : e.inProgress = some m)
    (hdone : e.toWrite = [] → e.newMsgFlag = false) :
    (e.refill header m).Inv ∧ (e.refill header m).inProgress = some m ∧
      (e.refill header m).bufSize = e.bufSize ∧ (e.refill header m).pending = e.pending := by
  by_cases hw : e.toWrite = []
  · have hnext : e.next = .sizeReady := by
      cases hn : e.next with
      | messageReady => simp [Inv, hm, hn, hdone hw] at hI
      | sizeReady => rfl
    simp [refill, hw, runNext, hnext, sizeReady, nextStep, Inv, hm, pending]
  · simp [refill, hw, hI, hm]

theorem encodeLoop_spec (own : Bool) (cap : Nat) {m : Msg} :
    ∀ (fuel : Nat) (e : EncoderBase) (out : List UInt8), e.Inv → e.inProgress = some m →
      (encodeLoop header own cap m fuel e out).1.Inv ∧
      (encodeLoop header own cap m fuel e out).1.bufSize = e.bufSize ∧
      ((encodeLoop header own cap m fuel e out).1.inProgress = none ∨
        (encodeLoop header own cap m fuel e out).1.inProgress = some m) ∧
      (encodeLoop header own cap m fuel e out).2 ++
          (encodeLoop header own cap m fuel e out).1.pending =
        out ++ e.pending := by
  intro fuel
  induction fuel with
  | zero => intro e out hI hm; exact ⟨hI, rfl, Or.inr hm, rfl⟩
  | succ fuel ih =>
    intro e out hI hm
    rw [encodeLoop]
    split
    · split
      · -- Nothing left of this message: its body is written, so nothing was pending.
        rename_i hlt hdone
        simp only [Bool.and_eq_true, List.isEmpty_iff] at hdone
        have hnext : e.next = .messageReady := by simpa [Inv, hm, hdone.2] using hI
        refine ⟨⟨hdone.1, hnext⟩, rfl, Or.inl rfl, ?_⟩
        simp [pending, hm, hdone.1, hnext]
      rename_i hlt hdone
      obtain ⟨hI', hm', hb', hp'⟩ := refill_spec header hI hm (by simpa using hdone)
      generalize e.refill header m = e' at hI' hm' hb' hp' ⊢
      dsimp only
      split
      · rename_i hz
        simp only [Bool.and_eq_true, List.isEmpty_iff] at hz
        refine ⟨?_, hb', Or.inr hm', ?_⟩
        · simpa [Inv, hm'] using hI'
        · rw [hz.1.1, ← hp']
          simp [pending, hm']
      have h := ih { e' with toWrite := e'.toWrite.drop (cap - out.length) }
        (out ++ e'.toWrite.take (cap - out.length))
        (by simpa [Inv, hm'] using hI') hm'
      refine ⟨h.1, h.2.1.trans hb', h.2.2.1, ?_⟩
      rw [h.2.2.2, ← hp']
      simp only [pending, hm', List.append_assoc]
      rw [← List.append_assoc (e'.toWrite.take _), List.take_append_drop]
    · exact ⟨hI, rfl, Or.inr hm, rfl⟩

/-- A call of `encode` hands out a prefix of the pending bytes. -/
theorem encode_spec {e : EncoderBase} (buf : Option Nat) (hI : e.Inv) :
    (e.encode header buf).1.Inv ∧ (e.encode header buf).1.bufSize = e.bufSize ∧
      (e.encode header buf).2 ++ (e.encode header buf).1.pending = e.pending := by
  cases hm : e.inProgress with
  | none => simp [encode, hm, hI]
  | some m =>
    have h := encodeLoop_spec header buf.isNone (buf.getD e.bufSize) 4 e [] hI hm
    simp only [encode, hm]
    exact ⟨h.1, h.2.1, by simpa using h.2.2.2⟩

/-! ### Progress -/

/-- A batch that holds something still holds something at the end of the loop. -/
theorem encodeLoop_out_ne_nil {own : Bool} {cap : Nat} {m : Msg} :
    ∀ (fuel : Nat) (e : EncoderBase) (out : List UInt8), out ≠ [] →
      (encodeLoop header own cap m fuel e out).2 ≠ [] := by
  intro fuel
  induction fuel with
  | zero => intro e out h; exact h
  | succ fuel ih =>
    intro e out h
    rw [encodeLoop]
    split
    · split
      · exact h
      dsimp only
      split
      · rename_i hz
        simp [h] at hz
      · exact ih _ _ (by simp [h])
    · exact h

/-- A call on a positive buffer hands out at least one byte or finishes the message. -/
theorem encode_progress (buf : Option Nat) {e : EncoderBase} (hI : e.Inv)
    (hb : 0 < buf.getD e.bufSize) :
    (e.encode header buf).1.inProgress = none ∨ (e.encode header buf).2 ≠ [] := by
  cases hm : e.inProgress with
  | none => simp [encode, hm]
  | some m =>
    simp only [encode, hm]
    rw [encodeLoop, if_pos (by simpa using hb)]
    by_cases hdone : (e.toWrite.isEmpty && e.newMsgFlag) = true
    · rw [if_pos hdone]
      exact Or.inl rfl
    rw [if_neg hdone]
    dsimp only
    by_cases hw : (e.refill header m).toWrite = []
    · -- An empty body: the next round closes the message.
      have hflag : (e.refill header m).newMsgFlag = true := by
        by_cases he : e.toWrite = []
        · rw [refill, if_pos (by simpa using he)]
          cases hn : e.next with
          | messageReady =>
            have hnew : e.newMsgFlag = true := by simpa [Inv, hm, hn] using hI
            simp [he, hnew] at hdone
          | sizeReady => simp [runNext, hn, sizeReady, nextStep]
        · rw [refill, if_neg (by simpa using he)] at hw
          exact absurd hw he
      rw [if_neg (by simp [hw]; omega), encodeLoop]
      simp [hw, hflag, hb]
    · split
      · exact Or.inr hw
      · refine Or.inr (encodeLoop_out_ne_nil header _ _ _ ?_)
        simp [hw]
        omega

theorem drain_eq {n : Nat} (hn : 0 < n) :
    ∀ (fuel : Nat) (e : EncoderBase), e.Inv → e.bufSize = n → e.pending.length < fuel →
      (drain header fuel e).2 = e.pending ∧ (drain header fuel e).1.Inv ∧
        (drain header fuel e).1.bufSize = n ∧ (drain header fuel e).1.inProgress = none := by
  intro fuel
  induction fuel with
  | zero => intro e _ _ h; omega
  | succ fuel ih =>
    intro e hI hb hlen
    rw [drain]
    by_cases he : e.isEmpty = true
    · have hm : e.inProgress = none := by simpa [isEmpty] using he
      rw [if_pos he]
      exact ⟨by simp [pending, hm], hI, hb, hm⟩
    rw [if_neg he]
    obtain ⟨hI', hb', hp'⟩ := encode_spec header none hI
    have hprog := encode_progress header none hI (by simp only [Option.getD_none]; omega)
    generalize e.encode header none = r at hI' hb' hp' hprog ⊢
    obtain ⟨e', out⟩ := r
    dsimp only at hI' hb' hp' hprog ⊢
    by_cases hnone : e'.inProgress = none
    · have hpend : e'.pending = [] := by simp [pending, hnone]
      have hdrain : drain header fuel e' = (e', []) := by
        cases fuel with
        | zero => rfl
        | succ fuel => rw [drain, if_pos (by simp [isEmpty, hnone])]
      rw [hdrain]
      exact ⟨by rw [← hp', hpend], hI', hb'.trans hb, hnone⟩
    have hout : out ≠ [] := hprog.resolve_left hnone
    have hlt : e'.pending.length < fuel := by
      have := congrArg List.length hp'
      have := List.length_pos_iff.mpr hout
      simp only [List.length_append] at *
      omega
    obtain ⟨h1, h2, h3, h4⟩ := ih e' hI' (hb'.trans hb) hlt
    exact ⟨by rw [h1, hp'], h2, h3, h4⟩

/-! ### The bytes of a sequence of messages -/

/-- **What the encoder produces.** For every positive batch size, encoding a sequence
of data messages succeeds and yields the concatenation of their frames. -/
theorem encodeAll_eq {n : Nat} (hn : 0 < n) :
    ∀ {ms : List Msg} {e : EncoderBase}, e.Inv → e.bufSize = n → e.inProgress = none →
      (∀ m ∈ ms, m.hasData = true) →
      ∃ e', encodeAll header e ms = .ok (e', ms.flatMap (frameBytes header)) ∧ e'.Inv ∧
        e'.bufSize = n ∧ e'.inProgress = none := by
  intro ms
  induction ms with
  | nil => intro e hI hb he _; exact ⟨e, rfl, hI, hb, he⟩
  | cons m ms ih =>
    intro e hI hb he hms
    obtain ⟨e1, h1, hI1, -, hb1, hp1⟩ := loadMsg_ok header hI he (hms m (by simp))
    have hlen : e1.pending.length < (header m).length + m.size + 2 := by
      rw [hp1, frameBytes, List.length_append, Msg.size]
      omega
    obtain ⟨hd, hI2, hb2, he2⟩ := drain_eq header hn _ e1 hI1 (hb1.trans hb) hlen
    obtain ⟨e3, h3, hI3, hb3, he3⟩ := ih hI2 hb2 he2 (fun x hx => hms x (by simp [hx]))
    refine ⟨e3, ?_, hI3, hb3, he3⟩
    rw [encodeAll, h1]
    simp only [bind, Except.bind, h3, pure, Except.pure, List.flatMap_cons]
    rw [hd, hp1]

end EncoderBase

end ServerLink
