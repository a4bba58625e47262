import ServerLink.Pipe.Contiguity

/-!
# ServerLink.Core.XSubRecv

The receiving side of `xsub_t` and `sub_t` (`xsub.cpp`): a fair queue, the message that
`xhas_in` may have fetched ahead, and the filter. `match` is a parameter: the
subscriptions may change between any two calls.
-/

namespace ServerLink

namespace FairQueue

/-- `fq_t::recv`. -/
def recv (b : FairQueue) : Except Fault (Option RecvFrame × FairQueue) :=
  match b.recvpipe with
  | .error e => .error e
  | .ok (none, b') => .ok (none, b')
  | .ok (some (pipe, msg), b') => .ok (some ⟨pipe, msg, !(b.pipes pipe).midway⟩, b')

/-- The loop that pops the remaining parts of a message. Every round takes a part. -/
def skipRest : Nat → FairQueue → Except Fault FairQueue
  | 0, b => .ok b
  | fuel + 1, b =>
    match b.recv with
    | .error e => .error e
    | .ok (none, _) => .error .xsubSkip
    | .ok (some frame, b') => if frame.msg.more then skipRest fuel b' else .ok b'

/-- The loop of `xrecv` and `xhas_in`: the next part that is not filtered out. Every round
but the last takes a part. -/
def fetch (accepts : Msg → Bool) : Nat → FairQueue → Except Fault (Option RecvFrame × FairQueue)
  | 0, b => .ok (none, b)
  | fuel + 1, b =>
    match b.recv with
    | .error e => .error e
    | .ok (none, b') => .ok (none, b')
    | .ok (some frame, b') =>
      if accepts frame.msg then .ok (some frame, b')
      else
        match if frame.msg.more then skipRest b'.held b' else .ok b' with
        | .error e => .error e
        | .ok b'' => fetch accepts fuel b''

end FairQueue

/-- The receiving side of `xsub_t`. `message` is `_message` if `_has_message` is set. -/
structure XSubRecv where
  queue : FairQueue
  message : Option RecvFrame
  moreRecv : Bool
  /-- `options.filter`: set for SUB, not for XSUB. -/
  filter : Bool

namespace XSubRecv

def new (filter : Bool) : XSubRecv := ⟨.empty, none, false, filter⟩

def xrecv (s : XSubRecv) (accepts : Msg → Bool) : Except Fault (Option RecvFrame × XSubRecv) :=
  match s.message with
  | some frame => .ok (some frame, { s with message := none, moreRecv := frame.msg.more })
  | none =>
    match s.queue.fetch (fun m => s.moreRecv || !s.filter || accepts m) (s.queue.held + 1) with
    | .error e => .error e
    | .ok (none, queue) => .ok (none, { s with queue })
    | .ok (some frame, queue) => .ok (some frame, { s with queue, moreRecv := frame.msg.more })

def xhasIn (s : XSubRecv) (accepts : Msg → Bool) : Except Fault (Bool × XSubRecv) :=
  if s.moreRecv || s.message.isSome then .ok (true, s)
  else
    match s.queue.fetch (fun m => !s.filter || accepts m) (s.queue.held + 1) with
    | .error e => .error e
    | .ok (none, queue) => .ok (false, { s with queue })
    | .ok (some frame, queue) => .ok (true, { s with queue, message := some frame })

end XSubRecv

/-! ### The calls -/

namespace XSubRecv

variable {s : XSubRecv}

theorem xrecv_of_message {frame : RecvFrame} (h : s.message = some frame) (accepts : Msg → Bool) :
    s.xrecv accepts = .ok (some frame, { s with message := none, moreRecv := frame.msg.more }) := by
  simp only [xrecv, h]

theorem xrecv_of_none (h : s.message = none) (accepts : Msg → Bool) :
    s.xrecv accepts =
      match s.queue.fetch (fun m => s.moreRecv || !s.filter || accepts m) (s.queue.held + 1) with
      | .error e => .error e
      | .ok (none, queue) => .ok (none, { s with queue })
      | .ok (some frame, queue) =>
        .ok (some frame, { s with queue, moreRecv := frame.msg.more }) := by
  rw [xrecv]
  split
  · rename_i heq
    rw [h] at heq
    cases heq
  · rfl

end XSubRecv

/-! ### The loops -/

namespace FairQueue

variable {b : FairQueue}

/-- What `recv` does to a reader that knows where it is. -/
theorem Tidy.recv (h : b.Tidy) :
    (∃ frame b', b.recv = .ok (some frame, b') ∧ b'.Tidy ∧ b.Advances b' ∧ b'.held < b.held ∧
      frame.first = !b.fq.more ∧ b'.fq.more = frame.msg.more ∧
      (b.pipes frame.pipe).reading = true) ∨
    (∃ b', b.recv = .ok (none, b') ∧ b'.Tidy ∧ b.Advances b' ∧ b.fq.more = false ∧
      b'.fq.more = false) := by
  rcases h.steady.recvpipe with ⟨p, m, b', heq, ht, hs⟩ | ⟨b', heq, hf, hs, hmore⟩
  · obtain ⟨-, hr, -⟩ := Inlet.read_eq_some ht.read
    refine .inl ⟨⟨p, m, !(b.pipes p).midway⟩, b', by rw [FairQueue.recv, heq],
      ⟨hs, h.clean.took ht⟩, ht.advances, ht.held_lt h.steady.ok, ?_, ht.more, hr⟩
    rw [h.clean.midway_eq h.steady ht]
  · exact .inr ⟨b', by rw [FairQueue.recv, heq], ⟨hs, h.clean.found hf hmore⟩, hf.advances, hmore,
      hf.more.trans hmore⟩

theorem Tidy.skipRest : ∀ (fuel : Nat) {b : FairQueue}, b.Tidy → b.fq.more = true → b.held ≤ fuel →
    ∃ b', FairQueue.skipRest fuel b = .ok b' ∧ b'.Tidy ∧ b.Advances b' ∧ b'.fq.more = false ∧
      b'.held ≤ b.held
  | fuel, b, h, hmore, hfuel => by
      rcases h.recv with ⟨frame, b', heq, h', ha, hlt, -, hm, -⟩ | ⟨-, -, -, -, hno, -⟩
      · cases fuel with
        | zero => omega
        | succ fuel =>
          rw [FairQueue.skipRest, heq]
          dsimp only
          cases hfm : frame.msg.more with
          | false =>
            rw [hfm] at hm
            exact ⟨b', rfl, h', ha, hm, Nat.le_of_lt hlt⟩
          | true =>
            rw [hfm] at hm
            obtain ⟨b'', heq', h'', ha', hm', hle⟩ := Tidy.skipRest fuel h' hm (by omega)
            exact ⟨b'', heq', h'', ha.trans ha', hm', by omega⟩
      · rw [hmore] at hno
        cases hno

/-- The loop finds a part or nothing; parts in the middle of a message are accepted. -/
theorem Tidy.fetch {accepts : Msg → Bool} : ∀ (fuel : Nat) {b : FairQueue}, b.Tidy →
    b.held < fuel → (b.fq.more = true → ∀ m, accepts m = true) →
    (∃ frame b', b.fetch accepts fuel = .ok (some frame, b') ∧ b'.Tidy ∧ b.Advances b' ∧
      frame.first = !b.fq.more ∧ b'.fq.more = frame.msg.more ∧
      (b.pipes frame.pipe).reading = true) ∨
    (∃ b', b.fetch accepts fuel = .ok (none, b') ∧ b'.Tidy ∧ b.Advances b' ∧
      b.fq.more = false ∧ b'.fq.more = false)
  | 0, b, h, hfuel, haccept => by omega
  | fuel + 1, b, h, hfuel, haccept => by
      rcases h.recv with
        ⟨frame, b', heq, h', ha, hlt, hfirst, hm, hread⟩ | ⟨b', heq, h', ha, hno, hno'⟩
      · rw [FairQueue.fetch, heq]
        dsimp only
        cases hacc : accepts frame.msg with
        | true => exact .inl ⟨frame, b', rfl, h', ha, hfirst, hm, hread⟩
        | false =>
          -- Only the first part of a message is filtered.
          have hno : b.fq.more = false := by
            cases hb : b.fq.more with
            | false => rfl
            | true => simp [haccept hb frame.msg] at hacc
          have hrest : ∃ b'', (if frame.msg.more then FairQueue.skipRest b'.held b' else .ok b') =
              .ok b'' ∧ b''.Tidy ∧ b.Advances b'' ∧ b''.fq.more = false ∧ b''.held < b.held := by
            cases hfm : frame.msg.more with
            | false => exact ⟨b', rfl, h', ha, hm.trans hfm, hlt⟩
            | true =>
              obtain ⟨b'', heq', h'', ha', hm', hle⟩ :=
                h'.skipRest b'.held (hm.trans hfm) (Nat.le_refl _)
              exact ⟨b'', heq', h'', ha.trans ha', hm', by omega⟩
          obtain ⟨b'', heq', h'', ha', hm', hlt'⟩ := hrest
          simp only [heq', Bool.false_eq_true, if_false]
          have hnext : b''.fq.more = true → ∀ m, accepts m = true := by
            rw [hm']
            intro hcontra
            cases hcontra
          rcases Tidy.fetch fuel h'' (by omega) hnext with
            ⟨fr, b1, hb1, h1, ha1, hf1, hm1, hr1⟩ | ⟨b1, hb1, h1, ha1, -, hm1⟩
          · refine .inl ⟨fr, b1, hb1, h1, ha'.trans ha1, ?_, hm1, ha'.reading _ hr1⟩
            rw [hf1, hm', hno]
          · exact .inr ⟨b1, hb1, h1, ha'.trans ha1, hno, hm1⟩
      · exact .inr ⟨b', by rw [FairQueue.fetch, heq], h', ha, hno, hno'⟩

end FairQueue

end ServerLink
