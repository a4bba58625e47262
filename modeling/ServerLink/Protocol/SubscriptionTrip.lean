import Mathlib.Data.List.Forall2
import ServerLink.Protocol.Commands
import ServerLink.Protocol.Delivery
import ServerLink.Protocol.V31Encoder

/-!
# ServerLink.Protocol.SubscriptionTrip

Messages and subscriptions over ZMTP 3.1. The encoder puts the name of the command in
front of a topic, the decoder delivers it with the frame, `process_command_message`
recognises it, and `command_body` steps over it. The three agree: what arrives is what
was sent (`subscriptionTrip`).
-/

namespace ServerLink

open List Msg V31Encoder

variable {m : Msg} {topic : List UInt8}

/-- A message that the engine may be given to send: a user message, or a subscribe or
cancel message as `init_subscribe` and `init_cancel` make them. The command flag is set
by engines only. -/
def Sendable (m : Msg) : Prop :=
  m.hasData = true ∧ m.command = false ∧
    (m.flags &&& cmdTypeMask = 0 ∨ m.isSubscribe = true ∨ m.isCancel = true)

/-- The message `x` that the decoder delivers is turned into what was sent as `m`. -/
def Arrives (m x : Msg) : Prop :=
  ∃ m', decodeCommand x = .ok m' ∧
    if m.isSubscribe then
      m'.isSubscribe = true ∧ m'.commandBody = m.data ∧ m'.commandBodySize = m.size
    else if m.isCancel then
      m'.isCancel = true ∧ m'.commandBody = m.data ∧ m'.commandBodySize = m.size
    else m'.more = m.more ∧ m'.data = m.data ∧ m'.command = false ∧
      m'.isSubscribe = false ∧ m'.isCancel = false

/-! ### Recognising a command -/

theorem processCommandMessage_subscribe (h : m.data = subCmdName ++ topic) :
    processCommandMessage m = .ok (m.setFlags subscribeFlag) := by
  have hsize : ¬ m.size < UInt8.toNat 9 + 1 := by
    rw [size, h, length_append]
    simp [subCmdName]
  unfold processCommandMessage
  rw [h]
  simp only [subCmdName, cons_append]
  rw [if_neg hsize, if_pos ⟨rfl, rfl⟩]

theorem processCommandMessage_cancel (h : m.data = cancelCmdName ++ topic) :
    processCommandMessage m = .ok (m.setFlags cancelFlag) := by
  have hsize : ¬ m.size < UInt8.toNat 6 + 1 := by
    rw [size, h, length_append]
    simp [cancelCmdName]
  unfold processCommandMessage
  rw [h]
  simp only [cancelCmdName, cons_append]
  rw [if_neg hsize, if_neg (fun hsub => absurd hsub.1 (by decide)), if_pos ⟨rfl, rfl⟩]

/-- The body of a command that was marked as a subscription. -/
theorem commandBody_subscribe {more : Bool}
    (hflags : m.flags = flagsOf more true ||| subscribeFlag)
    (h : m.data = subCmdName ++ topic) (hlt : m.size < 2 ^ 64) :
    m.isSubscribe = true ∧ m.commandBody = topic ∧ m.commandBodySize = topic.length := by
  have hping : m.isPing = false := by simp only [isPing, hflags]; cases more <;> rfl
  have hpong : m.isPong = false := by simp only [isPong, hflags]; cases more <;> rfl
  have hcmd : m.command = true := by simp only [command, hflags]; cases more <;> rfl
  have hsub : m.isSubscribe = true := by simp only [isSubscribe, hflags]; cases more <;> rfl
  have hsize : m.size = topic.length + 10 := by
    rw [size, h, length_append, Nat.add_comm]
    rfl
  refine ⟨hsub, ?_, ?_⟩
  · simp [commandBody, hping, hpong, hcmd, hsub, h, subCmdName]
  · simp only [commandBodySize, hping, hpong, hcmd, hsub, Bool.or_self, Bool.not_true,
      Bool.true_or, Bool.and_true, Bool.false_eq_true, if_false, if_true, sizeLess]
    omega

/-- The body of a command that was marked as a cancellation. -/
theorem commandBody_cancel {more : Bool}
    (hflags : m.flags = flagsOf more true ||| cancelFlag)
    (h : m.data = cancelCmdName ++ topic) (hlt : m.size < 2 ^ 64) :
    m.isCancel = true ∧ m.commandBody = topic ∧ m.commandBodySize = topic.length := by
  have hping : m.isPing = false := by simp only [isPing, hflags]; cases more <;> rfl
  have hpong : m.isPong = false := by simp only [isPong, hflags]; cases more <;> rfl
  have hcmd : m.command = true := by simp only [command, hflags]; cases more <;> rfl
  have hsub : m.isSubscribe = false := by simp only [isSubscribe, hflags]; cases more <;> rfl
  have hcancel : m.isCancel = true := by simp only [isCancel, hflags]; cases more <;> rfl
  have hsize : m.size = topic.length + 7 := by
    rw [size, h, length_append, Nat.add_comm]
    rfl
  refine ⟨hcancel, ?_, ?_⟩
  · simp [commandBody, hping, hpong, hcmd, hsub, hcancel, h, cancelCmdName]
  · simp only [commandBodySize, hping, hpong, hcmd, hsub, hcancel, Bool.or_self, Bool.not_true,
      Bool.false_or, Bool.and_true, Bool.false_eq_true, if_false, if_true, sizeLess]
    omega

/-! ### One message -/

/-- A message delivered for the frame of `m` is turned into what was sent. -/
theorem arrives_of_frame {x : Msg} (hm : Sendable m) (hsize : m.size + 50 ≤ 2 ^ 63)
    (hflags : ∃ more command, x.flags = Msg.flagsOf more command)
    (hx : V2Decoder.toFrame x = wireFrame m) : Arrives m x := by
  obtain ⟨more, command, hxf⟩ := hflags
  simp only [V2Decoder.toFrame, wireFrame, Frame.mk.injEq] at hx
  obtain ⟨hmore, hcommand, hdata⟩ := hx
  have hcommand' : command = x.command := by
    rw [Msg.command, hxf]
    exact (Msg.flagsOf_command more command).symm
  have hname := commandName_length_le m
  have hlt : x.size < 2 ^ 64 := by
    have := congrArg length hdata
    rw [length_append] at this
    simp only [Msg.size] at hsize ⊢
    omega
  by_cases hsub : m.isSubscribe = true
  · have hx' : x.data = subCmdName ++ m.data := by rw [hdata, commandName, if_pos hsub]
    have hcmd : x.command = true := by simp [hcommand, hsub]
    have hf : (x.setFlags Msg.subscribeFlag).flags =
        Msg.flagsOf more true ||| Msg.subscribeFlag := by
      simp [Msg.setFlags, hxf, hcommand', hcmd]
    have hbody := commandBody_subscribe hf hx' hlt
    refine ⟨x.setFlags Msg.subscribeFlag, ?_, ?_⟩
    · rw [decodeCommand, if_pos hcmd, processCommandMessage_subscribe hx']
    · rw [if_pos hsub]
      exact hbody
  by_cases hcancel : m.isCancel = true
  · have hx' : x.data = cancelCmdName ++ m.data := by
      rw [hdata, commandName, if_neg hsub, if_pos hcancel]
    have hcmd : x.command = true := by simp [hcommand, hcancel]
    have hf : (x.setFlags Msg.cancelFlag).flags = Msg.flagsOf more true ||| Msg.cancelFlag := by
      simp [Msg.setFlags, hxf, hcommand', hcmd]
    have hbody := commandBody_cancel hf hx' hlt
    refine ⟨x.setFlags Msg.cancelFlag, ?_, ?_⟩
    · rw [decodeCommand, if_pos hcmd, processCommandMessage_cancel hx']
    · rw [if_neg hsub, if_pos hcancel]
      exact hbody
  · have hcmd : x.command = false := by simp [hcommand, hm.2.1, hsub, hcancel]
    refine ⟨x, by rw [decodeCommand, if_neg (by simp [hcmd])], ?_⟩
    rw [if_neg hsub, if_neg hcancel]
    refine ⟨hmore, ?_, hcmd, ?_, ?_⟩
    · rw [hdata, commandName, if_neg hsub, if_neg hcancel, nil_append]
    · simp only [Msg.isSubscribe, hxf, hcommand', hcmd]
      cases more <;> rfl
    · simp only [Msg.isCancel, hxf, hcommand', hcmd]
      cases more <;> rfl

/-! ### The whole sequence -/

/-- Two lists with the same images under `f` and `g` are related element by element. -/
theorem forall₂_of_map_eq {α β γ : Type} {f : α → γ} {g : β → γ} {R : α → β → Prop} :
    ∀ {l : List α} {l' : List β}, l.map f = l'.map g →
      (∀ a ∈ l, ∀ b ∈ l', f a = g b → R a b) → List.Forall₂ R l l' := by
  intro l
  induction l with
  | nil =>
    intro l' h _
    obtain rfl : l' = [] := by simpa using h.symm
    exact .nil
  | cons a l ih =>
    intro l' h hR
    cases l' with
    | nil => simp at h
    | cons b l' =>
      rw [map_cons, map_cons, cons.injEq] at h
      exact .cons (hR a (by simp) b (by simp) h.1)
        (ih h.2 fun x hx y hy => hR x (by simp [hx]) y (by simp [hy]))

/-- **ZMTP 3.1 subscription round trip.** For every batch size of the two sides, every way
the bytes are cut into reads and every sequence of user, subscribe and cancel messages:
the messages delivered, passed through `process_command_message`, are those that were
sent. A message, its name and its content record fit into one object. -/
theorem subscriptionTrip {mem : Memory} {limit outBatch inBatch : Nat} {zeroCopy : Bool}
    {sizes : Nat → Nat} {ms : List Msg} (hg : mem.Grants limit) (hlimit : 2 ^ 63 ≤ limit)
    (hout : 0 < outBatch) (hin : 0 < inBatch) (hint : inBatch < 2 ^ 31)
    (hbatch : zeroCopy = true → 9 ≤ inBatch)
    (hms : ∀ m ∈ ms, Sendable m ∧ m.size + 50 ≤ 2 ^ 63) :
    ∃ e bytes r0 r, V31Encoder.encodeAll (V31Encoder.new outBatch) ms = .ok (e, bytes) ∧
      Receiver.new mem inBatch (-1) zeroCopy = .ok r0 ∧
      r0.deliver mem (fun i => ⟨sizes i, []⟩) bytes.length 0 bytes = .ok r ∧
      r.failed = false ∧ r.dec.frameState = .flags ∧ List.Forall₂ Arrives ms r.held.reverse := by
  obtain ⟨e, he⟩ := V31Encoder.encodeAll_eq hout fun m hm => (hms m hm).1.1
  have hroom : Allocator.allocationSize inBatch ≤ limit := by
    simp only [Allocator.allocationSize, Allocator.maxCountersOf, Allocator.atomicCounterSize,
      Allocator.contentSize, Msg.maxVsmSize]
    omega
  obtain ⟨r0, hr0, hI, hf, hfr, hst, hM, hkept⟩ := Receiver.new_ok (-1) hg hin hroom hbatch
  obtain ⟨r, hr, -, ha⟩ := Receiver.deliver_eq hg (fun i => ⟨sizes i, []⟩) _ 0 r0
    (ms.flatMap V31Encoder.frameBytes) hI hf (Nat.le_refl _)
  -- The byte machine reads every frame back.
  have hfeed : FrameState.feed (V2Decoder.accepts limit (-1)) .flags
      (ms.flatMap V31Encoder.frameBytes) = (.flags, ms.map V31Encoder.wireFrame) := by
    refine Mealy.feed_flatMap fun m hm => V31Encoder.feed_frameBytes ?_ ?_
    · have := (hms m hm).2
      omega
    refine V2Decoder.accepts_iff.mpr ⟨by omega, Or.inr ?_⟩
    have hsize := (hms m hm).2
    have hname := V31Encoder.commandName_length_le m
    rw [V31Encoder.wireSize, Nat.mod_eq_of_lt (by omega), Allocator.contentSize]
    omega
  rw [hM, hst, hfeed] at ha
  have hkept' := hkept.deliver hr
  have hok : r.failed = false := by
    cases hfail : r.failed with
    | false => rfl
    | true => exact absurd (ha.failed hfail) (by simp)
  refine ⟨e, _, r0, r, he, hr0, hr, hok, ha.state hok, ?_⟩
  refine forall₂_of_map_eq (f := V31Encoder.wireFrame) (g := V2Decoder.toFrame) ?_ ?_
  · rw [hkept'.frames, ha.frames, hfr, nil_append]
  · intro m hm x hx hxm
    exact arrives_of_frame (hms m hm).1 (hms m hm).2
      (hkept'.flags x (mem_reverse.mp hx)) hxm.symm

/-- A subscription, a message in two parts and a cancellation, read byte by byte. -/
theorem subscriptionTrip_two_parts :
    ∃ e bytes r0 r, V31Encoder.encodeAll (V31Encoder.new 16)
        [Msg.initSubscribe [97, 98], (Msg.initBuffer [1, 2, 3]).setFlags Msg.moreFlag,
          Msg.initBuffer [], Msg.initCancel []] = .ok (e, bytes) ∧
      Receiver.new largeMemory 16 (-1) true = .ok r0 ∧
      r0.deliver largeMemory (fun _ => ⟨1, []⟩) bytes.length 0 bytes = .ok r ∧
      r.failed = false ∧ r.dec.frameState = .flags ∧
      List.Forall₂ Arrives
        [Msg.initSubscribe [97, 98], (Msg.initBuffer [1, 2, 3]).setFlags Msg.moreFlag,
          Msg.initBuffer [], Msg.initCancel []] r.held.reverse :=
  subscriptionTrip largeMemory_grants (Nat.le_refl _) (by omega) (by omega) (by omega)
    (fun _ => by omega) (by unfold Sendable; decide)

end ServerLink
