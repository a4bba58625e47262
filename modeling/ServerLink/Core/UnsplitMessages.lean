import ServerLink.Core.Reconnection

/-!
# ServerLink.Core.UnsplitMessages

A connection that is lost does not split a message. The invariant `Inv` says what is in the
two queues in terms of what was written and read; `clean_pipes` restores it after an engine
has failed, and removes exactly the rest of the message that was half pulled.
-/

namespace ServerLink

open Groups FlushQueue Msg List Round

/-- The engine of a round pushed this message, behind whole messages. -/
def Round.Pushes (r : Round) (x : List Msg) : Prop :=
  IsGroup more x ∧ ∃ before after, r.pushed = before ++ x ++ after ∧ Whole more before

namespace PipedSession

variable {s s' : PipedSession} {d u : Queue}
variable {pair : PipePair}

/-- A round that is over: whole messages were taken and pushed, and what was discarded is
the rest of a message that was half pulled. -/
structure Ended (r : Round) : Prop where
  taken : Whole more r.taken
  pushed : Whole more r.pushed
  discarded : (r.discarded = [] ∧ Whole more r.pulled) ∨
    (¬ Whole more r.pulled ∧ IsGroup more r.discarded)

/-- What holds of the session, the queue `d` that it reads and the queue `u` that it
writes. -/
structure Inv (s : PipedSession) (d u : Queue) : Prop where
  holds : s.pair.Holds d u
  down : d.Grouped more s.incompleteIn
  up : u.Grouped more (midway more false s.received)
  /-- The rest of a half-pulled message is there, so the pipe does not go to sleep. -/
  awake : s.incompleteIn = true → s.pair.first.pipe.inActive = true
  midway : midway more false s.current.taken = s.incompleteIn
  written : s.written = s.rounds.flatMap taken ++ s.current.taken ++ d.items
  pushed : s.rounds.flatMap pushed ++ s.current.pushed = s.received ++ u.items
  /-- An unfinished message is one of this engine. -/
  unfinished : u.incomplete <:+ s.current.pushed
  ended : ∀ r ∈ s.rounds, Ended r

theorem inv_new (hwm0 hwm1 : Int) : (new hwm0 hwm1).Inv {} {} where
  holds := PipePair.holds_new hwm0 hwm1
  down := grouped_empty
  up := grouped_empty
  awake h := by cases h
  midway := rfl
  written := rfl
  pushed := rfl
  unfinished := suffix_refl _
  ended r hr := by cases hr

/-! ### Queues -/

theorem grouped_sameItems {b : Bool} {d' : Queue} (hd : d.Grouped more b)
    (h : PipePair.SameItems d d') : d'.Grouped more b := by
  obtain ⟨_, rfl⟩ := h
  exact ⟨hd.flushed, hd.pending, hd.incomplete⟩

/-- Everything that was taken and what can still be read. -/
theorem Inv.whole_taken (h : s.Inv d u) : Whole more (s.rounds.flatMap taken) :=
  whole_flatMap fun r hr => (h.ended r hr).taken

theorem Inv.midway_taken (h : s.Inv d u) :
    Groups.midway more false (s.rounds.flatMap taken ++ s.current.taken) =
      s.incompleteIn := by
  rw [h.whole_taken.midway_append]
  exact h.midway

/-- What the engine has pushed: whole messages, and the one that is unfinished. -/
theorem Inv.exists_done (h : s.Inv d u) :
    ∃ done, Whole more done ∧ s.current.pushed = done ++ u.incomplete ∧
      s.rounds.flatMap Round.pushed ++ done = s.received ++ u.complete := by
  obtain ⟨done, hdone⟩ := h.unfinished
  have heq : s.rounds.flatMap Round.pushed ++ done = s.received ++ u.complete := by
    have hall := h.pushed
    rw [← hdone, items, ← append_assoc, ← append_assoc] at hall
    exact append_cancel_right hall
  have hrounds : Whole more (s.rounds.flatMap Round.pushed) :=
    whole_flatMap fun r hr => (h.ended r hr).pushed
  have hwhole := (h.up.whole rfl).2
  rw [← heq] at hwhole
  exact ⟨done, hrounds.of_append hwhole, hdone.symm, heq⟩

/-! ### The session -/

/-- **A pull**: the next part, or nothing. A message that is half pulled goes on. -/
theorem Inv.pullMsg (h : s.Inv d u) :
    (∃ m rest pair, s.pullMsg = .ok (some m, { s with pair, incompleteIn := m.more }) ∧
        d.flushed = m :: rest ∧ m.check = true ∧ pair.Holds { d with flushed := rest } u ∧
        pair.first.pipe.inActive = true) ∨
      (∃ pair d', s.pullMsg = .ok (none, { s with pair }) ∧ s.incompleteIn = false ∧
        ({ s with pair } : PipedSession).Inv d' u) := by
  obtain ⟨r, pair, d', hask, hh, hread, -⟩ := h.holds.read
  rcases hread with ⟨m, rest, rfl, hd, rfl, hact⟩ | ⟨rfl, hempty, hsame, hact⟩
  · have hvalid : m.check = true :=
      (h.holds.inv.queues _ _ h.holds.cellIn).valid m (by simp [items, hd])
    exact Or.inl ⟨m, rest, pair, by simp only [PipedSession.pullMsg, hask], hd, hvalid, hh, hact⟩
  have hout : s.incompleteIn = false := by
    cases hin : s.incompleteIn with
    | false => rfl
    | true =>
      have hdown := h.down
      rw [hin] at hdown
      obtain ⟨x, rest, hx⟩ := hdown.exists_next
      rw [hempty (h.awake hin)] at hx
      cases hx
  refine Or.inr ⟨pair, d', by simp only [PipedSession.pullMsg, hask], hout, ?_⟩
  exact
    { holds := hh
      down := grouped_sameItems h.down hsame
      up := h.up
      awake := fun hin => absurd (hout.symm.trans hin) Bool.false_ne_true
      midway := h.midway
      written := by rw [hsame.items_eq]; exact h.written
      pushed := h.pushed
      unfinished := h.unfinished
      ended := h.ended }

/-- A part has left the pipe, and has been entered into the round. -/
theorem Inv.took (h : s.Inv d u) {m : Msg} {rest : List Msg} (round : Round)
    (hd : d.flushed = m :: rest) (hh : pair.Holds { d with flushed := rest } u)
    (hact : pair.first.pipe.inActive = true) (htaken : round.taken = s.current.taken ++ [m])
    (hpushed : round.pushed = s.current.pushed) :
    ({ s with pair, incompleteIn := m.more, current := round } : PipedSession).Inv
      { d with flushed := rest } u where
  holds := hh
  down := h.down.pop hd
  up := h.up
  awake _ := hact
  midway := by
    rw [htaken]
    exact midway_concat false _ m
  written := by
    rw [htaken, h.written]
    simp [items, hd]
  pushed := by
    rw [hpushed]
    exact h.pushed
  unfinished := by
    rw [hpushed]
    exact h.unfinished
  ended := h.ended

theorem Inv.setUp (h : s.Inv d u) {u' : Queue} {pushed : List Msg} (hh : pair.Holds d u')
    (hact : pair.first.pipe.inActive = s.pair.first.pipe.inActive)
    (hup : u'.Grouped more (Groups.midway more false s.received))
    (hpushed : s.rounds.flatMap Round.pushed ++ pushed = s.received ++ u'.items)
    (hunfinished : u'.incomplete <:+ pushed) :
    ({ s with pair, current.pushed := pushed } : PipedSession).Inv d u' where
  holds := hh
  down := h.down
  up := hup
  awake hin := hact.trans (h.awake hin)
  midway := h.midway
  written := h.written
  pushed := hpushed
  unfinished := hunfinished
  ended := h.ended

/-- A push: the part is written, refused, or not for the socket. -/
theorem Inv.pushMsg (h : s.Inv d u) (m : PlainMsg) :
    ∃ r s' u', s.pushMsg m.msg = .ok (r, s') ∧ s'.Inv d u' ∧
      s'.current.discarded = s.current.discarded := by
  by_cases hig : ignored m.msg = true
  · exact ⟨true, s, u, by rw [PipedSession.pushMsg, if_pos hig], h, rfl⟩
  obtain ⟨written, pair, hask, hh, hact, -⟩ := h.holds.write m.toOwnerMsg m.notCredential
  cases written with
  | false =>
    have hpush : s.pushMsg m.msg = .ok (false, { s with pair }) := by
      rw [PipedSession.pushMsg, if_neg hig]
      simp only [hask]
    exact ⟨_, _, u, hpush, h.setUp hh hact h.up h.pushed h.unfinished, rfl⟩
  | true =>
    have hpush : s.pushMsg m.msg =
        .ok (true, { s with pair, current.pushed := s.current.pushed ++ [m.msg] }) := by
      rw [PipedSession.pushMsg, if_neg hig]
      simp only [hask]
    refine ⟨_, _, _, hpush, h.setUp hh hact (h.up.write m.msg) ?_ ?_, rfl⟩
    · rw [if_pos rfl, items_write, ← append_assoc, h.pushed, append_assoc]
    obtain ⟨done, hdone⟩ := h.unfinished
    rw [if_pos rfl, ← hdone]
    cases hm : m.msg.more with
    | true => exact ⟨done, by simp [write]⟩
    | false => exact nil_suffix

theorem Inv.flush (h : s.Inv d u) : ∃ s', s.flush = .ok s' ∧ s'.Inv d u.flush.2 ∧
    s'.current = s.current ∧ s'.rounds = s.rounds := by
  obtain ⟨pair, hcall, hh, hf, -⟩ := h.holds.flush
  refine ⟨{ s with pair }, by simp only [PipedSession.flush, hcall, Except.map], ?_, rfl, rfl⟩
  refine h.setUp hh (by rw [hf]) h.up.flush ?_ ?_
  · rw [items_flush]
    exact h.pushed
  · rw [flush_incomplete]
    exact h.unfinished

theorem Inv.rollback (h : s.Inv d u) :
    ∃ s', s.rollback = .ok s' ∧ s'.Inv d u.unwriteAll.2 ∧ Whole more s'.current.pushed ∧
      s'.current = { s.current with pushed := s'.current.pushed } ∧ s'.rounds = s.rounds := by
  obtain ⟨done, hwhole, hdone, hall⟩ := h.exists_done
  obtain ⟨pair, hcall, hh, hf, -⟩ := h.holds.rollback
  have hfin : finished more s.current.pushed = done := by
    rw [hdone]
    exact finished_append hwhole h.up.incomplete
  refine ⟨{ s with pair, current.pushed := finished more s.current.pushed },
    by simp only [PipedSession.rollback, hcall, Except.map], ?_, ?_, rfl, rfl⟩
  · rw [hfin]
    refine h.setUp hh (by rw [hf]) h.up.unwriteAll ?_ nil_suffix
    rw [hall]
    simp [items, unwriteAll, complete]
  · exact hfin ▸ hwhole

theorem Inv.checkRead (h : s.Inv d u) :
    ∃ s' d', s.checkRead = .ok s' ∧ s'.Inv d' u ∧ s'.current = s.current ∧
      s'.rounds = s.rounds ∧ s'.incompleteIn = s.incompleteIn := by
  obtain ⟨pair, d', hcall, hh, hsame, hact, -⟩ := h.holds.checkRead
  refine ⟨{ s with pair }, d', by simp only [PipedSession.checkRead, hcall, Except.map], ?_, rfl,
    rfl, rfl⟩
  exact
    { holds := hh
      down := grouped_sameItems h.down hsame
      up := h.up
      awake := fun hin => hact (h.awake hin) fun hempty => by
        have hdown := h.down
        rw [show s.incompleteIn = true from hin] at hdown
        obtain ⟨x, rest, hx⟩ := hdown.exists_next
        rw [hempty] at hx
        cases hx
      midway := h.midway
      written := by rw [hsame.items_eq]; exact h.written
      pushed := h.pushed
      unfinished := h.unfinished
      ended := h.ended }

/-- **The loop of `clean_pipes`** removes the rest of the message that was half pulled. It is
there, since only whole messages are published. -/
theorem Inv.drain :
    ∀ {fuel : Nat} {s : PipedSession} {d : Queue}, s.Inv d u → d.flushed.length ≤ fuel →
      ∃ s' d' rest, PipedSession.drain fuel s = .ok s' ∧ s'.Inv d' u ∧ s'.incompleteIn = false ∧
        s'.current = { s.current with discarded := s.current.discarded ++ rest } ∧
        s'.rounds = s.rounds ∧ (s.incompleteIn = false → rest = []) ∧
        (s.incompleteIn = true → IsGroup more rest) := by
  intro fuel
  induction fuel with
  | zero =>
    intro s d h hlen
    cases hin : s.incompleteIn with
    | false =>
      exact ⟨s, d, [], by rw [PipedSession.drain, hin]; rfl, h, hin, by simp, rfl, fun _ => rfl,
        nofun⟩
    | true =>
      have hdown := h.down
      rw [hin] at hdown
      obtain ⟨x, rest, hx⟩ := hdown.exists_next
      rw [hx] at hlen
      cases hlen
  | succ fuel ih =>
    intro s d h hlen
    cases hin : s.incompleteIn with
    | false =>
      exact ⟨s, d, [], by rw [PipedSession.drain, hin]; rfl, h, hin, by simp, rfl, fun _ => rfl,
        nofun⟩
    | true =>
      rcases h.pullMsg with ⟨m, rest, pair, hpull, hd, hvalid, hh, hact⟩ | ⟨_, _, _, hout, -⟩
      case inr => exact absurd (hout.symm.trans hin) Bool.false_ne_true
      have htook := h.took { s.current with discarded := s.current.discarded ++ [m] } hd hh hact
        (by simp [taken]) rfl
      rw [hd, length_cons] at hlen
      obtain ⟨s', d', more, hdrain, hinv, hout, hcur, hrounds, hnil, hgroup⟩ :=
        ih htook (by simpa using hlen)
      refine ⟨s', d', m :: more, ?_, hinv, hout, by rw [hcur]; simp, hrounds, by simp, fun _ => ?_⟩
      · rw [PipedSession.drain, hin, if_pos rfl]
        simp only [hpull, close, hvalid, if_true]
        exact hdrain
      -- The message ends with this part, or goes on.
      cases hm : m.more with
      | false =>
        obtain rfl := hnil hm
        exact isGroup_singleton hm
      | true => exact (hgroup hm).cons hm

theorem readable_eq (h : s.Inv d u) : s.readable = d.flushed.length := by
  simp only [readable, h.holds.cellIn]

/-- **`clean_pipes`** leaves both directions between two messages. -/
theorem Inv.cleanPipes (h : s.Inv d u) (hnone : s.current.discarded = []) :
    ∃ s' d' u', s.cleanPipes = .ok s' ∧ s'.Inv d' u' ∧ s'.incompleteIn = false ∧
      s'.rounds = s.rounds ∧ Ended s'.current ∧ u'.incomplete = [] := by
  obtain ⟨s1, hroll, h1, hwhole, hcur1, hr1⟩ := h.rollback
  obtain ⟨s2, hflush, h2, hcur2, hr2⟩ := h1.flush
  obtain ⟨s3, d', rest, hdrain, h3, hout, hcur3, hr3, hnil, hgroup⟩ :=
    h2.drain (Nat.le_of_eq (readable_eq h2).symm)
  refine ⟨s3, d', _, ?_, h3, hout, by rw [hr3, hr2, hr1], ?_, ?_⟩
  · simp only [PipedSession.cleanPipes, bind, Except.bind, hroll, hflush, hdrain]
  · have hdis2 : s2.current.discarded = [] := by rw [hcur2, hcur1]; exact hnone
    have hpulled : s3.current.pulled = s2.current.pulled := by rw [hcur3]
    have hdis : s3.current.discarded = rest := by rw [hcur3, hdis2]; rfl
    have hmid : Groups.midway more false s2.current.pulled = s2.incompleteIn := by
      have := h2.midway
      rwa [taken, hdis2, append_nil] at this
    refine ⟨h3.midway.trans hout, by rw [hcur3, hcur2]; exact hwhole, ?_⟩
    rw [hdis, hpulled]
    cases hin : s2.incompleteIn with
    | false => exact Or.inl ⟨hnil hin, hmid.trans hin⟩
    | true =>
      refine Or.inr ⟨fun hw => ?_, hgroup hin⟩
      have hboth := hw.symm.trans (hmid.trans hin)
      cases hboth
  · rw [flush_incomplete]
    rfl

theorem Inv.endRound (h : s.Inv d u) (hout : s.incompleteIn = false) (hended : Ended s.current)
    (hinc : u.incomplete = []) :
    ({ s with rounds := s.rounds ++ [s.current], current := {} } : PipedSession).Inv d u where
  holds := h.holds
  down := h.down
  up := h.up
  awake := h.awake
  midway := hout.symm
  written := by
    rw [h.written]
    simp [taken]
  pushed := by
    rw [← h.pushed]
    simp
  unfinished := by simp [hinc]
  ended r hr := by
    rcases mem_append.mp hr with hr | hr
    · exact h.ended r hr
    · rw [mem_singleton.mp hr]
      exact hended

theorem Inv.setEngine (h : s.Inv d u) (engine : Bool) :
    ({ s with engine } : PipedSession).Inv d u :=
  ⟨h.holds, h.down, h.up, h.awake, h.midway, h.written, h.pushed, h.unfinished, h.ended⟩

/-- The disconnect notification. -/
def notification : PlainMsg := ⟨⟨.init, rfl, rfl⟩, rfl⟩

theorem Inv.notifyError (h : s.Inv d u) (notify : Bool) :
    ∃ s' u', s.notifyError notify = .ok s' ∧ s'.Inv d u' ∧
      s'.current.discarded = s.current.discarded := by
  cases notify with
  | false => exact ⟨s, u, rfl, h, rfl⟩
  | true =>
    obtain ⟨s1, hroll, h1, -, hcur, -⟩ := h.rollback
    obtain ⟨r, s2, u', hpush, h2, hdis⟩ := h1.pushMsg notification
    refine ⟨s2, u', ?_, h2, by rw [hdis, hcur]⟩
    have hpush' : s1.pushMsg .init = .ok (r, s2) := hpush
    simp only [PipedSession.notifyError, if_true, bind, Except.bind, hroll, hpush', pure,
      Except.pure]

/-- **The loss of a connection.** -/
theorem Inv.error (h : s.Inv d u) (hnone : s.current.discarded = []) (notify : Bool) :
    ∃ s' d' u', s.error notify = .ok s' ∧ s'.Inv d' u' ∧ s'.current.discarded = [] := by
  obtain ⟨s1, u1, hnotify, h1, hdis1⟩ := h.notifyError notify
  obtain ⟨s2, d2, u2, hclean, h2, hout, hr2, hended, hinc⟩ :=
    (h1.setEngine false).cleanPipes (hdis1.trans hnone)
  obtain ⟨s3, d3, hcheck, h3, hcur, hr3, hin⟩ := h2.checkRead
  refine ⟨_, d3, u2, ?_, h3.endRound (hin.trans hout) (by rw [hcur]; exact hended) hinc, rfl⟩
  simp only [PipedSession.error, PipedSession.engineError, bind, Except.bind, hnotify, hclean,
    hcheck, pure, Except.pure]

/-! ### The socket -/

theorem Inv.setDown (h : s.Inv d u) {d' : Queue} {written : List Msg} (hh : pair.Holds u d')
    (hsec : pair.second.pipe = s.pair.first.pipe) (hdown : d'.Grouped more s.incompleteIn)
    (hwritten : written = s.rounds.flatMap taken ++ s.current.taken ++ d'.items) :
    ({ s with pair := pair.swap, written } : PipedSession).Inv d' u where
  holds := hh.swap
  down := hdown
  up := h.up
  awake hin := by
    change pair.second.pipe.inActive = true
    rw [hsec]
    exact h.awake hin
  midway := h.midway
  written := hwritten
  pushed := h.pushed
  unfinished := h.unfinished
  ended := h.ended

theorem Inv.socketWrite (h : s.Inv d u) (m : PlainMsg) :
    ∃ s' d', s.socketWrite m.msg = .ok s' ∧ s'.Inv d' u ∧ s'.current = s.current := by
  obtain ⟨written, pair, hask, hh, -, hsec⟩ := h.holds.swap.write m.toOwnerMsg m.notCredential
  cases written with
  | false =>
    have heq : s.socketWrite m.msg = .ok { s with pair := pair.swap } := by
      simp only [PipedSession.socketWrite, hask]
    exact ⟨_, d, heq, h.setDown hh hsec h.down h.written, rfl⟩
  | true =>
    have heq : s.socketWrite m.msg =
        .ok { s with pair := pair.swap, written := s.written ++ [m.msg] } := by
      simp only [PipedSession.socketWrite, hask]
    refine ⟨_, _, heq, h.setDown hh hsec (h.down.write m.msg) ?_, rfl⟩
    rw [if_pos rfl, items_write, h.written, append_assoc]

theorem Inv.socketFlush (h : s.Inv d u) :
    ∃ s' d', s.onSocket (·.call PipeCall.flush) = .ok s' ∧ s'.Inv d' u ∧
      s'.current = s.current := by
  obtain ⟨pair, hcall, hh, -, hsec⟩ := h.holds.swap.flush
  refine ⟨{ s with pair := pair.swap }, d.flush.2,
    by simp only [PipedSession.onSocket, hcall, Except.map], ?_, rfl⟩
  exact h.setDown hh hsec h.down.flush (by rw [items_flush]; exact h.written)

theorem Inv.socketRollback (h : s.Inv d u) :
    ∃ s' d', s.step .socketRollback = .ok s' ∧ s'.Inv d' u ∧ s'.current = s.current := by
  obtain ⟨pair, hcall, hh, -, hsec⟩ := h.holds.swap.rollback
  have hfin : finished more s.written =
      s.rounds.flatMap taken ++ s.current.taken ++ d.complete := by
    rw [h.written, items, ← append_assoc]
    exact finished_append (h.down.whole h.midway_taken).2 h.down.incomplete
  refine ⟨{ s with pair := pair.swap, written := finished more s.written }, _,
    by simp only [PipedSession.step, PipedSession.onSocket, hcall, Except.map],
    h.setDown hh hsec h.down.unwriteAll ?_, rfl⟩
  rw [hfin]
  simp [items, unwriteAll, complete]

theorem Inv.socketRead (h : s.Inv d u) :
    ∃ s' u', s.socketRead = .ok s' ∧ s'.Inv d u' ∧ s'.current = s.current := by
  obtain ⟨r, pair, u', hask, hh, hread, hsec⟩ := h.holds.swap.read
  have hawake : s.incompleteIn = true → pair.second.pipe.inActive = true := fun hin => by
    rw [hsec]
    exact h.awake hin
  rcases hread with ⟨m, rest, rfl, hu, rfl, -⟩ | ⟨rfl, -, hsame, -⟩
  · refine ⟨{ s with pair := pair.swap, received := s.received ++ [m] },
      { u with flushed := rest }, by simp only [PipedSession.socketRead, hask], ?_, rfl⟩
    exact
      { holds := hh.swap
        down := h.down
        up := by
          rw [midway_concat]
          exact h.up.pop hu
        awake := hawake
        midway := h.midway
        written := h.written
        pushed := by
          rw [h.pushed]
          simp [items, hu]
        unfinished := h.unfinished
        ended := h.ended }
  · refine ⟨{ s with pair := pair.swap }, u', by simp only [PipedSession.socketRead, hask], ?_, rfl⟩
    have hinc : u'.incomplete = u.incomplete := by
      obtain ⟨_, rfl⟩ := hsame
      rfl
    exact
      { holds := hh.swap
        down := h.down
        up := grouped_sameItems h.up hsame
        awake := hawake
        midway := h.midway
        written := h.written
        pushed := by rw [hsame.items_eq]; exact h.pushed
        unfinished := by rw [hinc]; exact h.unfinished
        ended := h.ended }

/-- Nothing is written or read, but the reader may wake up or fall asleep. -/
theorem Inv.sameItems (h : s.Inv d u) {d' u' : Queue} (hh : pair.Holds d' u')
    (hd : PipePair.SameItems d d') (hu : PipePair.SameItems u u')
    (hact : s.incompleteIn = true → pair.first.pipe.inActive = true) :
    ({ s with pair } : PipedSession).Inv d' u' where
  holds := hh
  down := grouped_sameItems h.down hd
  up := grouped_sameItems h.up hu
  awake := hact
  midway := h.midway
  written := by rw [hd.items_eq]; exact h.written
  pushed := by rw [hu.items_eq]; exact h.pushed
  unfinished := by
    obtain ⟨_, rfl⟩ := hu
    exact h.unfinished
  ended := h.ended

theorem Inv.processCommand (h : s.Inv d u) :
    ∃ s' d', s.processCommand = .ok s' ∧ s'.Inv d' u ∧ s'.current = s.current := by
  obtain ⟨pair, hstep, hh, hact, -⟩ := h.holds.deliver
  have h1 : ({ s with pair } : PipedSession).Inv d u :=
    h.sameItems hh ⟨d.asleep, rfl⟩ ⟨u.asleep, rfl⟩ fun hin => hact (h.awake hin)
  simp only [PipedSession.processCommand, hstep]
  split
  · obtain ⟨s', d', hcheck, h', hcur, -⟩ := h1.checkRead
    exact ⟨s', d', hcheck, h', hcur⟩
  · exact ⟨_, d, rfl, h1, rfl⟩

/-! ### Steps -/

/-- **Every step keeps the invariant**, and no assertion fails. -/
theorem Inv.step (h : s.Inv d u) (hnone : s.current.discarded = []) (e : SessionEvent) :
    ∃ s' d' u', s.step e = .ok s' ∧ s'.Inv d' u' ∧ s'.current.discarded = [] := by
  cases e with
  | socketWrite m =>
    obtain ⟨s', d', heq, h', hcur⟩ := h.socketWrite m
    exact ⟨s', d', u, heq, h', by rw [hcur]; exact hnone⟩
  | socketFlush =>
    obtain ⟨s', d', heq, h', hcur⟩ := h.socketFlush
    exact ⟨s', d', u, heq, h', by rw [hcur]; exact hnone⟩
  | socketRollback =>
    obtain ⟨s', d', heq, h', hcur⟩ := h.socketRollback
    exact ⟨s', d', u, heq, h', by rw [hcur]; exact hnone⟩
  | socketRead =>
    obtain ⟨s', u', heq, h', hcur⟩ := h.socketRead
    exact ⟨s', d, u', heq, h', by rw [hcur]; exact hnone⟩
  | socketCheckRead =>
    obtain ⟨pair, u', hcall, hh, hsame, -, hsec⟩ := h.holds.swap.checkRead
    refine ⟨{ s with pair := pair.swap }, d, u',
      by simp only [PipedSession.step, PipedSession.onSocket, hcall, Except.map],
      h.sameItems hh.swap ⟨d.asleep, rfl⟩ hsame fun hin => ?_, hnone⟩
    change pair.second.pipe.inActive = true
    rw [hsec]
    exact h.awake hin
  | socketCheckWrite =>
    obtain ⟨pair, hcall, hh, -, hsec⟩ := h.holds.swap.checkWrite
    exact ⟨{ s with pair := pair.swap }, d, u,
      by simp only [PipedSession.step, PipedSession.onSocket, hcall, Except.map],
      h.setDown hh hsec h.down h.written, hnone⟩
  | socketDeliver =>
    obtain ⟨pair, hstep, hh, -, hsec⟩ := h.holds.swap.deliver
    exact ⟨{ s with pair := pair.swap }, d, u,
      by simp only [PipedSession.step, PipedSession.onSocket, hstep, Except.map],
      h.setDown hh hsec h.down h.written, hnone⟩
  | attach => exact ⟨_, d, u, rfl, h.setEngine true, hnone⟩
  | pull =>
    cases hengine : s.engine with
    | false => exact ⟨s, d, u, by simp [PipedSession.step, hengine], h, hnone⟩
    | true =>
      rcases h.pullMsg with ⟨m, rest, pair, hpull, hd, -, hh, hact⟩ | ⟨pair, d', hpull, -, h'⟩
      · refine ⟨{ s with
          pair, incompleteIn := m.more, current.pulled := s.current.pulled ++ [m] },
          { d with flushed := rest }, u, ?_, ?_, hnone⟩
        · simp only [PipedSession.step, hengine, if_true, hpull]
        · exact h.took _ hd hh hact (by simp [taken, hnone]) rfl
      · exact ⟨{ s with pair }, d', u,
          by simp only [PipedSession.step, hengine, if_true, hpull], h', hnone⟩
  | push m =>
    cases hengine : s.engine with
    | false => exact ⟨s, d, u, by simp [PipedSession.step, hengine], h, hnone⟩
    | true =>
      obtain ⟨r, s', u', hpush, h', hdis⟩ := h.pushMsg m
      exact ⟨s', d, u', by simp only [PipedSession.step, hengine, if_true, hpush, Except.map],
        h', hdis.trans hnone⟩
  | flush =>
    cases hengine : s.engine with
    | false => exact ⟨s, d, u, by simp [PipedSession.step, hengine], h, hnone⟩
    | true =>
      obtain ⟨s', hflush, h', hcur, -⟩ := h.flush
      exact ⟨s', d, _, by simp only [PipedSession.step, hengine, if_true, hflush], h',
        by rw [hcur]; exact hnone⟩
  | lose notify =>
    cases hengine : s.engine with
    | false => exact ⟨s, d, u, by simp [PipedSession.step, hengine], h, hnone⟩
    | true =>
      obtain ⟨s', d', u', herror, h', hdis⟩ := h.error hnone notify
      exact ⟨s', d', u', by simp only [PipedSession.step, hengine, if_true, herror], h', hdis⟩
  | deliver =>
    obtain ⟨s', d', heq, h', hcur⟩ := h.processCommand
    exact ⟨s', d', u, heq, h', by rw [hcur]; exact hnone⟩

/-! ### Runs -/

/-- What the socket can read. -/
def unread (s : PipedSession) : List Msg :=
  match s.pair.heap.cell s.pair.second.pipe.inPipe with
  | none => []
  | some queue => queue.flushed

/-- No message is split. -/
structure Unsplit (s : PipedSession) : Prop where
  /-- What an engine pulls starts behind whole messages of the socket. -/
  starts : ∀ r ∈ s.rounds ++ [s.current], ∃ before after,
    s.written = before ++ r.pulled ++ after ∧ Whole more before
  /-- Between two engines the rest of the message that was half pulled is discarded, and
  nothing else. -/
  discards : (∃ rest, s.written = s.rounds.flatMap taken ++ s.current.pulled ++ rest) ∧
    ∀ r ∈ s.rounds, Whole more r.taken ∧ ((r.discarded = [] ∧ Whole more r.pulled) ∨
        (¬ Whole more r.pulled ∧ IsGroup more r.discarded))
  /-- What the socket has read and can read now are messages that were each pushed by one
  engine. -/
  reads : ∃ messages : List (Round × List Msg), s.received ++ s.unread = messages.flatMap Prod.snd ∧
      ∀ x ∈ messages, x.1 ∈ s.rounds ++ [s.current] ∧ x.1.Pushes x.2

/-- The messages of a round, each with the round. -/
theorem messages_of_round {r : Round} {done : List Msg} (hw : Whole more done)
    (hpre : done <+: r.pushed) :
    ∃ messages : List (Round × List Msg), done = messages.flatMap Prod.snd ∧
      ∀ x ∈ messages, x.1 = r ∧ x.1.Pushes x.2 := by
  obtain ⟨gs, rfl, hgs⟩ := exists_groups hw
  have hflat : (gs.map fun g => (r, g)).flatMap Prod.snd = gs.flatten := by
    rw [flatMap_map]
    exact flatMap_id
  refine ⟨gs.map fun g => (r, g), hflat.symm, fun x hx => ?_⟩
  obtain ⟨g, hg, rfl⟩ := mem_map.mp hx
  obtain ⟨after, hafter⟩ := hpre
  obtain ⟨l1, l2, rfl⟩ := append_of_mem hg
  refine ⟨rfl, hgs g hg, l1.flatMap id, l2.flatten ++ after, ?_, ?_⟩
  · rw [← hafter]
    simp
  · exact whole_flatMap fun g' hg' => (hgs g' (mem_append_left _ hg')).whole

theorem messages_of_rounds {rounds : List Round} (h : ∀ r ∈ rounds, Whole more r.pushed) :
    ∃ messages : List (Round × List Msg), rounds.flatMap pushed = messages.flatMap Prod.snd ∧
        ∀ x ∈ messages, x.1 ∈ rounds ∧ x.1.Pushes x.2 := by
  induction rounds with
  | nil => exact ⟨[], rfl, by simp⟩
  | cons r rounds ih =>
    obtain ⟨ms, hms, hof⟩ := messages_of_round (h r (by simp)) (prefix_refl _)
    obtain ⟨ms', hms', hof'⟩ := ih fun r' hr' => h r' (mem_cons_of_mem _ hr')
    refine ⟨ms ++ ms', by rw [flatMap_cons, flatMap_append, ← hms, hms'], fun x hx => ?_⟩
    rcases mem_append.mp hx with hx | hx
    · obtain ⟨heq, hpush⟩ := hof x hx
      exact ⟨by simp [heq], hpush⟩
    · obtain ⟨hmem, hpush⟩ := hof' x hx
      exact ⟨mem_cons_of_mem _ hmem, hpush⟩

theorem unread_eq (h : s.Inv d u) : s.unread = u.flushed := by
  simp only [unread, h.holds.cellOut]

theorem Inv.reads (h : s.Inv d u) :
    ∃ messages : List (Round × List Msg), s.received ++ s.unread = messages.flatMap Prod.snd ∧
        ∀ x ∈ messages, x.1 ∈ s.rounds ++ [s.current] ∧ x.1.Pushes x.2 := by
  obtain ⟨done, hdone, hcur, hall⟩ := h.exists_done
  obtain ⟨ms, hms, hof⟩ := messages_of_rounds fun r hr => (h.ended r hr).pushed
  obtain ⟨ms', hms', hof'⟩ := messages_of_round (r := s.current) hdone ⟨_, hcur.symm⟩
  -- All complete messages; what is published is an initial part of them.
  have hflat : ((ms ++ ms').map Prod.snd).flatten = s.received ++ u.flushed ++ u.pending := by
    rw [← flatMap_def, flatMap_append, ← hms, ← hms', hall, complete, append_assoc]
  have hmem : ∀ x ∈ ms ++ ms', x.1 ∈ s.rounds ++ [s.current] ∧ x.1.Pushes x.2 := by
    intro x hx
    rcases mem_append.mp hx with hx | hx
    · obtain ⟨hr, hpush⟩ := hof x hx
      exact ⟨mem_append_left _ hr, hpush⟩
    · obtain ⟨heq, hpush⟩ := hof' x hx
      exact ⟨by simp [heq], hpush⟩
  have hgroups : ∀ g ∈ (ms ++ ms').map Prod.snd, IsGroup more g := fun g hg => by
    obtain ⟨x, hx, rfl⟩ := mem_map.mp hg
    exact (hmem x hx).2.1
  obtain ⟨k, hk⟩ := take_of_whole hgroups hflat (h.up.whole rfl).1
  refine ⟨(ms ++ ms').take k, ?_, fun x hx => hmem x (mem_of_mem_take hx)⟩
  rw [unread_eq h, hk, flatMap_def, map_take]

theorem Inv.unsplit (h : s.Inv d u) (hnone : s.current.discarded = []) : Unsplit s where
  starts r hr := by
    rcases mem_append.mp hr with hr | hr
    · obtain ⟨l1, l2, heq⟩ := append_of_mem hr
      refine ⟨l1.flatMap taken,
        r.discarded ++ (l2.flatMap taken ++ s.current.taken ++ d.items), ?_, ?_⟩
      · rw [h.written, heq]
        simp [taken]
      · exact whole_flatMap fun r' hr' => (h.ended r' (by rw [heq]; simp [hr'])).taken
    · rw [mem_singleton.mp hr]
      exact ⟨s.rounds.flatMap taken, s.current.discarded ++ d.items,
        by rw [h.written]; simp [taken], h.whole_taken⟩
  discards := by
    refine ⟨⟨d.items, ?_⟩, fun r hr => ⟨(h.ended r hr).taken, (h.ended r hr).discarded⟩⟩
    rw [h.written, taken, hnone, append_nil]
  reads := h.reads

/-- **The loss of a connection never splits a message.** In every run of the socket, of the
engines and of the session between them, no assertion fails; each engine pulls from the first
part of a message on, and the socket reads messages that were each pushed by one engine. -/
theorem unsplit_of_run (hwm0 hwm1 : Int) (events : List SessionEvent) :
    ∃ s, CheckedRun.run step (new hwm0 hwm1) events = .ok s ∧ Unsplit s := by
  obtain ⟨s, hrun, d, u, h, hnone⟩ := CheckedRun.run_ok_of_inv
    (I := fun s : PipedSession => ∃ d u, s.Inv d u ∧ s.current.discarded = [])
    (fun s e ⟨d, u, h, hnone⟩ => by
      obtain ⟨s', d', u', hs, h', hnone'⟩ := h.step hnone e
      exact ⟨s', hs, d', u', h', hnone'⟩) events ⟨{}, {}, inv_new hwm0 hwm1, rfl⟩
  exact ⟨s, hrun, h.unsplit hnone⟩

end PipedSession

end ServerLink
