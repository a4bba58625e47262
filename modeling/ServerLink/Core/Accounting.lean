import ServerLink.Core.Bookkeeping

/-!
# ServerLink.Core.Accounting

The books stay in order over whole runs, provided that no inproc connection meets its peer:
`connect` to an address that is bound sends `bind` to the peer without `inc_seqnum`. The counters
must also not run over: `sent_seqnum` has 32 bits, `processed_seqnum` 64.

In such runs a terminating object passes the check of `check_term_acks` exactly if nothing is
left that it has to wait for. The count of awaited acknowledgements is right in all runs.
-/

namespace ServerLink

open Checked CheckedRun Ctx

namespace Ctx

variable {e : Bool} {s t : Ctx} {o : ObjId} {x : Obj} {k : Nat}

/-! ### Steps -/

/-- The handler of a counted command, before `process_seqnum`. -/
theorem Ledger.processCommand_counted {x' : Obj} {cmd : OwnCommand} (hk : k + 1 < 2 ^ 32)
    (h : s.Ledger e (k + 1) (holding o [cmd])) (hx : s.objects.cell o = some x')
    (hbody : x'.body = x.body) (hcmd : cmd.counted = true) :
    Ensures (s.processCommand o x cmd) (Ledger e k (holding o [.plug])) := by
  have hle : k ≤ k + 1 := Nat.le_succ k
  have hlt : o < s.objects.next := h.forest.created o _ (forest_cell _ hx)
  -- apart from `own` the commands do not concern the tree
  have hswap : cmd.linkless = true → s.Ledger e (k + 1) (holding o [.plug]) := by
    intro hlinkless
    refine h.swap hx (fun q hq => by rw [holding_of_ne hq, holding_of_ne hq]) ?_ ?_
    · rw [holding_self, holding_self, OwnCommand.links_of_linkless hlinkless]
      rfl
    · rw [holding_self, holding_self, List.countP_singleton, List.countP_singleton, hcmd]
      rfl
  cases cmd with
  | plug =>
    unfold processCommand
    dsimp only
    split
    · refine .ite (fun _ => ?_) fun _ => .ok (h.mono hle)
      exact h.startConnecting hk (holding_of_ne (Nat.ne_of_gt hlt) _) hlt _
    · exact .ok (h.mono hle)
    · exact .ok (h.mono hle)
    · exact .error _ _
  | own c => exact (h.mono hle).processOwn
  | attach =>
    unfold processCommand
    dsimp only
    split
    · rename_i b hb
      refine .ite (fun _ => .error _ _) fun _ => ?_
      exact ((hswap rfl).mono hle).setBody_session hx (hbody.trans hb) rfl
    · exact .error _ _
  | bind pipe => exact ((hswap rfl).mono hle).attachPipe o pipe
  | termReq c => cases hcmd
  | term linger => cases hcmd
  | termAck c => cases hcmd
  | termEndpoint e => cases hcmd

theorem Ledger.check_after {m : Except Fault Ctx} (hm : Ensures m (Ledger e k idle)) :
    Ensures (m >>= fun s => s.checkTermAcks o) (Ledger e k idle) :=
  hm.bind fun _ h => h.checkTermAcks

theorem Ledger.processCommand_uncounted {x' : Obj} {cmd : OwnCommand}
    (h : s.Ledger e k (holding o [cmd])) (hx : s.objects.cell o = some x')
    (hbody : x'.body = x.body) (hcmd : cmd.counted = false) :
    Ensures (s.processCommand o x cmd) (Ledger e k idle) := by
  have hdrop : cmd.linkless = true → s.Ledger e k idle := by
    intro hlinkless
    refine h.swap hx (fun q hq => (holding_of_ne hq _).symm) ?_ ?_
    · rw [holding_self, OwnCommand.links_of_linkless hlinkless]
      rfl
    · rw [holding_self, List.countP_singleton, hcmd]
      rfl
  cases cmd with
  | plug => cases hcmd
  | own c => cases hcmd
  | attach => cases hcmd
  | bind pipe => cases hcmd
  | termReq c => exact (hdrop rfl).processTermReq o c
  | term linger =>
    have hother : x.body.pipes = [] → Ensures (s.ownProcessTerm o linger) (Ledger e k idle) := by
      intro hpipes
      rw [ownProcessTerm_eq]
      exact Ledger.check_after (h.ownTermStart hx (hbody ▸ hpipes) linger)
    unfold processCommand
    dsimp only
    split
    · rename_i b hb
      refine .ite (fun _ => .error _ _) fun hpending => .ite (fun _ => ?_) fun _ => ?_
      · rw [ownProcessTerm_eq]
        exact Ledger.check_after (h.ownTermStart hx (by rw [hbody, hb]; rfl) 0)
      · exact h.delay hx (hbody.trans hb) (by simpa using hpending)
    · rw [socketProcessTerm_eq]
      exact Ledger.check_after (h.socketTermStart hx (.inl ⟨linger, rfl⟩) linger)
    · rename_i hsession hsocket
      refine hother ?_
      cases hb : x.body with
      | socket b => exact absurd hb (hsocket b)
      | listener _ => rfl
      | session _ => rfl
      | connecter _ _ => rfl
  | termAck c =>
    show Ensures (s.processTermAck o c) _
    rw [processTermAck_eq]
    exact Ledger.check_after h.dropChild
  | termEndpoint e =>
    unfold processCommand
    dsimp only
    split
    · exact .ok (hdrop rfl)
    · exact .error _ _

theorem Ledger.deliver (h : s.Ledger e (k + 1) idle) (hk : k + 1 < 2 ^ 32) (o : ObjId) (i : Nat) :
    Ensures (s.deliver o i) (Ledger e k idle) := by
  refine ensures_get fun x hx => ?_
  split
  · exact .pure (h.mono (Nat.le_succ k))
  rename_i cmd hcmd
  have htake := h.take hx hcmd
  have hx' : (s.set o { x with inbox := x.inbox.eraseIdx i }).objects.cell o =
      some { x with inbox := x.inbox.eraseIdx i } := Arena.cell_set _ _ _
  by_cases hcounted : cmd.counted = true
  · refine Ensures.bind (htake.processCommand_counted hk hx' rfl hcounted) fun s1 h1 => ?_
    rw [if_pos hcounted]
    exact Ledger.check_after h1.countProcessed
  have hcounted : cmd.counted = false := by simpa using hcounted
  have htake := htake.mono (Nat.le_succ k)
  refine Ensures.bind (htake.processCommand_uncounted hx' rfl hcounted) fun s1 h1 => ?_
  rw [if_neg (by simp [hcounted])]
  exact .pure h1

theorem Ledger.pipeTerminated_socket (h : s.Ledger e k idle) (hx : s.objects.cell o = some x)
    {b : SocketBase} (hb : x.body = .socket b) {pipe : PipeId} (hpipe : pipe ∈ b.pipes) :
    Ensures (s.socketPipeTerminated o x b pipe) (Ledger e k idle) := by
  unfold socketPipeTerminated
  by_cases hterm : x.own.terminating = true
  · simp only [if_pos hterm, unregisterTermAck_eq]
    rw [← bind_assoc]
    exact Ledger.check_after (h.dropPipe hx hb hpipe hterm)
  · simp only [if_neg hterm]
    rw [bind_pure]
    exact h.erasePipe hx hb pipe (by simpa using hterm)

theorem dropPipe_pending {b b' : SessionBase} {pipe : PipeId} (h : dropPipe b pipe = .ok b') :
    b'.pending = b.pending := by
  unfold dropPipe at h
  split at h
  · cases h
    rfl
  split at h
  · cases h
    rfl
  · cases h

theorem Ledger.pipeTerminated_session (h : s.Ledger e k idle) (hx : s.objects.cell o = some x)
    {b : SessionBase} (hb : x.body = .session b) (pipe : PipeId) :
    Ensures (s.sessionPipeTerminated o b pipe) (Ledger e k idle) := by
  intro t ht
  obtain ⟨b', hb', ht⟩ := bind_eq_ok ht
  have hpending := dropPipe_pending hb'
  split at ht
  · rename_i hlast
    obtain ⟨s1, h1, ht⟩ := bind_eq_ok ht
    have hs1 := h.resume hx hb (hpending.symm.trans hlast.1) s1 h1
    obtain ⟨y, -, rfl⟩ := modify_eq_ok h1
    rw [ownProcessTerm_eq] at ht
    exact Ledger.check_after (hs1.ownTermStart (Arena.cell_set _ _ _) rfl 0) t ht
  · exact h.setBody_session hx hb hpending t ht

/-- Every `sent_seqnum` can be incremented twice, which no step exceeds. -/
def HasRoom (s : Ctx) : Prop :=
  ∀ o < s.objects.next,
    (s.objects.cell o).all (fun x => decide (x.own.sentSeqnum + 2 < 2 ^ 32)) = true

instance (s : Ctx) : Decidable s.HasRoom := inferInstanceAs (Decidable (∀ _ < _, _))

/-- The action does not join two inproc sockets. -/
def Apart (s : Ctx) : CtxAction → Prop
  | .connectInproc _ address => s.findEndpoint address = none
  | _ => True

instance (s : Ctx) (a : CtxAction) : Decidable (s.Apart a) := by
  unfold Apart
  split <;> infer_instance

/-- The counters can follow the action. -/
def Accountable (s : Ctx) (a : CtxAction) : Prop := s.HasRoom ∧ s.Apart a

instance (s : Ctx) (a : CtxAction) : Decidable (s.Accountable a) :=
  inferInstanceAs (Decidable (_ ∧ _))

theorem Ledger.of_room (h : s.Ledger e 0 idle) (hroom : e = true → s.HasRoom) :
    s.Ledger e 2 idle where
  forest := h.forest
  balanced := by
    intro o x hx
    have hb := h.balanced o x hx
    refine ⟨hb.seqnum, fun he => ?_, hb.termAcks, hb.closed, hb.root⟩
    have hx' := hroom he o (h.forest.created o _ (forest_cell _ hx))
    rw [hx, Option.all_some] at hx'
    exact of_decide_eq_true hx'

theorem ensures_user_open {P : Ctx → Prop} (hs : P s) {f : Obj → SocketBase → Except Fault Ctx}
    (hf : ∀ x b, s.objects.cell o = some x → x.body = .socket b → Ensures (f x b) P) :
    Ensures (s.user o f) P := by
  intro t ht
  rcases user_eq_ok ht with ⟨-, rfl⟩ | ⟨x, b, hx, hb, -, heq⟩
  · exact hs
  · exact hf x b hx hb t heq

theorem Ledger.step (h : s.Ledger e 0 idle) {a : CtxAction} (ha : e = true → s.Accountable a) :
    Ensures (s.step a) (Ledger e 0 idle) := by
  have h2 := h.of_room fun he => (ha he).1
  have h1 : s.Ledger e 1 idle := h2.mono (by decide)
  have hk : 0 + 1 < 2 ^ 32 := by decide
  cases a with
  | createSocket type =>
    rw [Ctx.step, createSocket]
    split
    · exact .ok h
    · exact .ok (h.newObject (by decide) rfl {} rfl)
  | setsockopt o option value =>
    refine ensures_user_open h fun x b hx hb => ?_
    split
    · exact .ok h
    refine h.setBody fun y hy => ?_
    cases hx.symm.trans hy
    rw [hb]
    exact ⟨rfl, rfl, id⟩
  | bindTcp o address => exact ensures_user_open h fun x b hx _ => h1.bindTcp hk hx b address
  | bindInproc o address => exact ensures_user_open h fun x b _ _ => h1.bindInproc address o
  | connectTcp o address => exact ensures_user_open h fun x b hx _ => h1.connectTcp hk hx b address
  | connectInproc o address =>
    exact ensures_user_open h fun x b _ _ => h1.connectInproc (fun he => (ha he).2) o
  | termEndpoint o endpoint =>
    rw [Ctx.step]
    refine ensures_event h fun x _ => ?_
    split
    · exact h.termEndpoint o _ endpoint
    · exact .ok h
  | close o =>
    refine ensures_user_open h fun x b hx hb => ?_
    have hroot : x.own.owner = none := (h.balanced o x hx).root (by rw [hb]; rfl)
    rw [socketProcessTerm_eq]
    rw [← holding_nil o] at h
    exact Ledger.check_after (h.socketTermStart hx (.inr ⟨rfl, hroot⟩) _)
  | deliver o i =>
    rw [Ctx.step]
    exact ensures_event h fun x _ => h1.deliver hk o i
  | accept o =>
    rw [Ctx.step]
    refine ensures_event h fun x hx => ?_
    split
    · exact h2.accept (by decide) hx x _
    · exact .ok h
  | connected o =>
    rw [Ctx.step]
    refine ensures_event h fun x hx => ?_
    split
    · rename_i session done hb
      exact .ite (fun _ => .ok h) fun _ => h1.connected hx hb
    · exact .ok h
  | engineReady o =>
    rw [Ctx.step]
    refine ensures_event h fun x hx => ?_
    split
    · rename_i b hb
      exact .ite (fun _ => h1.engineReady hx hb) fun _ => .ok h
    · exact .ok h
  | engineError o reason =>
    rw [Ctx.step]
    refine ensures_event h fun x hx => ?_
    split
    · rename_i b hb
      exact .ite (fun _ => h1.engineError hk hx hb reason) fun _ => .ok h
    · exact .ok h
  | pipeTerminated o pipe =>
    rw [Ctx.step]
    refine ensures_event h fun x hx => ?_
    split
    · rename_i b hb
      exact .ite (fun hpipe => h.pipeTerminated_socket hx hb hpipe) fun _ => .ok h
    · rename_i b hb
      exact h.pipeTerminated_session hx hb pipe
    · exact .ok h

/-- The books are in order in every context that is reached. -/
theorem run_ledger {blocky : Bool} {as : List CtxAction}
    (ha : e = true → CheckedRun.Along step Accountable { blocky } as)
    (hr : run step { blocky } as = .ok s) : s.Ledger e 0 idle := by
  have hnew : ({ blocky } : Ctx).Ledger e 0 idle :=
    ⟨Ownership.inv_empty, fun _ _ h => by cases h⟩
  cases e with
  | true => exact run_inv_along (fun _ _ t h ha hs => h.step (fun _ => ha) t hs) hnew (ha rfl) hr
  | false => exact run_inv (fun _ _ t h hs => h.step (fun he => (by cases he)) t hs) hnew hr

/-! ### The check -/

/-- The action makes `o` call `check_term_acks`, in the context `t`. -/
inductive Checks (s : Ctx) (o : ObjId) : CtxAction → Ctx → Prop
  | close {x : Obj} {b : SocketBase} {t : Ctx} (hx : s.objects.cell o = some x)
      (hb : x.body = .socket b) (hopen : x.own.terminating = false)
      (h : s.socketTermStart o x.own.options.linger = .ok t) : s.Checks o (.close o) t
  | seqnum {x : Obj} {i : Nat} {cmd : OwnCommand} {s1 t : Ctx} (hx : s.objects.cell o = some x)
      (hcmd : x.inbox[i]? = some cmd) (hcounted : cmd.counted = true)
      (h1 : (s.set o { x with inbox := x.inbox.eraseIdx i }).processCommand o x cmd = .ok s1)
      (h : s1.countProcessed o = .ok t) : s.Checks o (.deliver o i) t
  | term {x : Obj} {i : Nat} {linger : Int} {t : Ctx} (hx : s.objects.cell o = some x)
      (hcmd : x.inbox[i]? = some (.term linger)) (hsocket : ∀ b, x.body ≠ .socket b)
      (hsession : ∀ b, x.body ≠ .session b)
      (h : (s.set o { x with inbox := x.inbox.eraseIdx i }).ownTermStart o linger = .ok t) :
      s.Checks o (.deliver o i) t
  | termSocket {x : Obj} {i : Nat} {linger : Int} {b : SocketBase} {t : Ctx}
      (hx : s.objects.cell o = some x) (hcmd : x.inbox[i]? = some (.term linger))
      (hb : x.body = .socket b)
      (h : (s.set o { x with inbox := x.inbox.eraseIdx i }).socketTermStart o linger = .ok t) :
      s.Checks o (.deliver o i) t
  | termSession {x : Obj} {i : Nat} {linger : Int} {b : SessionBase} {t : Ctx}
      (hx : s.objects.cell o = some x) (hcmd : x.inbox[i]? = some (.term linger))
      (hb : x.body = .session b) (hpending : b.pending = false)
      (hpipes : b.pipe = none ∧ b.terminatingPipes = [])
      (h : (s.set o { x with inbox := x.inbox.eraseIdx i }).ownTermStart o 0 = .ok t) :
      s.Checks o (.deliver o i) t
  | termAck {x : Obj} {i : Nat} {c : ObjId} {t : Ctx} (hx : s.objects.cell o = some x)
      (hcmd : x.inbox[i]? = some (.termAck c))
      (h : (s.set o { x with inbox := x.inbox.eraseIdx i }).dropChild o c = .ok t) :
      s.Checks o (.deliver o i) t
  | pipe {x : Obj} {b : SocketBase} {pipe : PipeId} {t : Ctx} (hx : s.objects.cell o = some x)
      (hb : x.body = .socket b) (hpipe : pipe ∈ b.pipes) (hterm : x.own.terminating = true)
      (h : (s.setBody o (.socket { b with pipes := b.pipes.erase pipe }) >>= fun s =>
        s.dropTermAck o) = .ok t) : s.Checks o (.pipeTerminated o pipe) t
  | lastPipe {x : Obj} {b b' : SessionBase} {pipe : PipeId} {s1 t : Ctx}
      (hx : s.objects.cell o = some x) (hb : x.body = .session b)
      (hb' : dropPipe b pipe = .ok b')
      (hlast : b'.pending ∧ b'.pipe = none ∧ b'.terminatingPipes = [])
      (h1 : s.setBody o (.session { b' with pending := false }) = .ok s1)
      (h : s1.ownTermStart o 0 = .ok t) : s.Checks o (.pipeTerminated o pipe) t

theorem step_deliver {i : Nat} {cmd : OwnCommand} (hx : s.objects.cell o = some x)
    (hcmd : x.inbox[i]? = some cmd) : s.step (.deliver o i) =
      (s.set o { x with inbox := x.inbox.eraseIdx i }).processCommand o x cmd >>= fun s =>
        if cmd.counted then s.processSeqnum o else pure s := by
  have hget : s.get o = .ok x := by simp only [get, hx]
  simp only [step, event, hx, deliver, hget, bind, Except.bind, hcmd]

theorem processCommand_termSocket {b : SocketBase} (hb : x.body = .socket b) (linger : Int) :
    s.processCommand o x (.term linger) = s.socketProcessTerm o linger := by
  simp only [processCommand, hb]

theorem processCommand_termSession {b : SessionBase} (hb : x.body = .session b) (linger : Int) :
    s.processCommand o x (.term linger) = s.sessionProcessTerm o b := by
  simp only [processCommand, hb]

/-- The step is over with the check. -/
theorem Checks.step {a : CtxAction} (h : s.Checks o a t) : s.step a = t.checkTermAcks o := by
  cases h with
  | close hx hb hopen h =>
    simp only [Ctx.step, user, hx, hb, hopen, socketProcessTerm_eq, h]
    rfl
  | seqnum hx hcmd hcounted h1 h =>
    rw [step_deliver hx hcmd, h1, hcounted]
    show (countProcessed _ o >>= fun s => s.checkTermAcks o) = _
    rw [h]
    rfl
  | @term x i linger t hx hcmd hsocket hsession h =>
    have hterm : (s.set o { x with inbox := x.inbox.eraseIdx i }).processCommand o x
        (.term linger) = t.checkTermAcks o := by
      unfold processCommand
      dsimp only
      split
      · rename_i b hb
        exact absurd hb (hsession b)
      · rename_i b hb
        exact absurd hb (hsocket b)
      · rw [ownProcessTerm_eq, h]
        rfl
    rw [step_deliver hx hcmd, hterm]
    exact bind_pure _
  | @termSocket x i linger b t hx hcmd hb h =>
    have hterm : (s.set o { x with inbox := x.inbox.eraseIdx i }).processCommand o x
        (.term linger) = t.checkTermAcks o := by
      rw [processCommand_termSocket hb, socketProcessTerm_eq, h]
      rfl
    rw [step_deliver hx hcmd, hterm]
    exact bind_pure _
  | @termSession x i linger b t hx hcmd hb hpending hpipes h =>
    have hterm : (s.set o { x with inbox := x.inbox.eraseIdx i }).processCommand o x
        (.term linger) = t.checkTermAcks o := by
      rw [processCommand_termSession hb, sessionProcessTerm, if_neg (by simp [hpending]),
        if_pos hpipes, ownProcessTerm_eq, h]
      rfl
    rw [step_deliver hx hcmd, hterm]
    exact bind_pure _
  | @termAck x i c t hx hcmd h =>
    have hack : (s.set o { x with inbox := x.inbox.eraseIdx i }).processCommand o x
        (.termAck c) = t.checkTermAcks o := by
      simp only [processCommand, processTermAck_eq, h]
      rfl
    rw [step_deliver hx hcmd, hack]
    exact bind_pure _
  | pipe hx hb hpipe hterm h =>
    simp only [Ctx.step, event, hx, hb, if_pos hpipe, socketPipeTerminated, if_pos hterm,
      unregisterTermAck_eq]
    rw [← bind_assoc, h]
    rfl
  | lastPipe hx hb hb' hlast h1 h =>
    simp only [Ctx.step, event, hx, hb, sessionPipeTerminated, hb']
    show (if _ then _ else _) = _
    rw [if_pos hlast, h1]
    show Ctx.ownProcessTerm _ o 0 = _
    rw [ownProcessTerm_eq, h]
    rfl

theorem Checks.ledger (hl : s.Ledger true 0 idle) {a : CtxAction} (ha : s.Accountable a)
    (h : s.Checks o a t) : t.Ledger true 0 idle := by
  have h1 : s.Ledger true 1 idle := (hl.of_room fun _ => ha.1).mono (by decide)
  cases h with
  | close hx hb hopen h =>
    have hroot := (hl.balanced o _ hx).root (by rw [hb]; rfl)
    rw [← holding_nil o] at hl
    exact hl.socketTermStart hx (.inr ⟨rfl, hroot⟩) _ t h
  | seqnum hx hcmd hcounted hs1 h =>
    have htake := h1.take hx hcmd
    have := htake.processCommand_counted (by decide) (Arena.cell_set _ _ _) rfl hcounted _ hs1
    exact this.countProcessed t h
  | @term x i linger t hx hcmd hsocket hsession h =>
    refine (hl.take hx hcmd).ownTermStart (Arena.cell_set _ _ _) ?_ linger t h
    cases hb : x.body with
    | socket b => exact absurd hb (hsocket b)
    | listener _ => rfl
    | session b => exact absurd hb (hsession b)
    | connecter _ _ => rfl
  | termSocket hx hcmd hb h =>
    exact (hl.take hx hcmd).socketTermStart (Arena.cell_set _ _ _) (.inl ⟨_, rfl⟩) _ t h
  | termSession hx hcmd hb hpending hpipes h =>
    refine (hl.take hx hcmd).ownTermStart (Arena.cell_set _ _ _) ?_ 0 t h
    exact congrArg Body.pipes hb
  | termAck hx hcmd h => exact (hl.take hx hcmd).dropChild t h
  | pipe hx hb hpipe hterm h => exact hl.dropPipe hx hb hpipe hterm t h
  | lastPipe hx hb hb' hlast hs1 h =>
    have hresume := hl.resume hx hb ((dropPipe_pending hb').symm.trans hlast.1) _ hs1
    obtain ⟨y, -, rfl⟩ := modify_eq_ok hs1
    exact hresume.ownTermStart (Arena.cell_set _ _ _) rfl 0 t h

/-- In every context that is reached without joining inproc sockets, the difference of the
counters of an object is the number of counted commands in its inbox; and wherever it makes the
check while terminating, it passes exactly if nothing is left. -/
theorem accounts_of_accountable {blocky : Bool} {as : List CtxAction}
    (ha : CheckedRun.Along step Accountable { blocky } as)
    (hr : run step { blocky } as = .ok s) :
    (∀ o x, s.objects.cell o = some x → (x.own.sentSeqnum : Int) - x.own.processedSeqnum =
      x.inbox.countP OwnCommand.counted) ∧
    ∀ a o t x, s.Accountable a → s.Checks o a t → t.objects.cell o = some x →
      x.own.terminating = true → (Passes x.own ↔ t.Settled o x) := by
  have hl : s.Ledger true 0 idle := run_ledger (fun _ => ha) hr
  constructor
  · intro o x hx
    have := (hl.balanced o x hx).seqnum rfl
    rw [idle, List.nil_append] at this
    omega
  · intro a o t x haa hc hx hterm
    exact (hc.ledger hl haa).passes_iff rfl hx hterm

/-- A socket connects and closes before it has learnt of its session. -/
theorem accounts_of_accountable_close :
    ∃ s, run step {} [.createSocket .router, .connectTcp 0 "a", .close 0] = .ok s ∧
      ∃ x, s.objects.cell 0 = some x ∧ (x.own.sentSeqnum : Int) - x.own.processedSeqnum =
        x.inbox.countP OwnCommand.counted := by
  have hreach : reaches step {} [.createSocket .router, .connectTcp 0 "a", .close 0]
      (fun s => (s.objects.cell 0).isSome) = true := by decide +kernel
  obtain ⟨s, hr, hs⟩ := of_reaches hreach
  obtain ⟨x, hx⟩ := Option.isSome_iff_exists.mp hs
  exact ⟨s, hr, x, hx, (accounts_of_accountable (by decide +kernel) hr).1 0 x hx⟩

/-- A socket processes the `bind` of an inproc connection, which its peer has not counted: it has
processed more commands than were sent, and never passes the check. -/
theorem bind_not_counted :
    ∃ s, run step {} [.createSocket .router, .createSocket .router, .bindInproc 0 "a",
        .connectInproc 1 "a", .deliver 0 0] = .ok s ∧
      ∃ x, s.objects.cell 0 = some x ∧ x.own.sentSeqnum = 0 ∧ x.own.processedSeqnum = 1 ∧
        x.inbox.countP OwnCommand.counted = 0 := by
  have hreach : reaches step {}
      [.createSocket .router, .createSocket .router, .bindInproc 0 "a", .connectInproc 1 "a",
        .deliver 0 0]
      (fun s => (s.objects.cell 0).any fun x => decide (x.own.sentSeqnum = 0 ∧
        x.own.processedSeqnum = 1 ∧ x.inbox.countP OwnCommand.counted = 0)) = true := by
    decide +kernel
  obtain ⟨s, hr, hs⟩ := of_reaches hreach
  obtain ⟨x, hx, hcounts⟩ := (Option.any_eq_true _ _).mp hs
  exact ⟨s, hr, x, hx, of_decide_eq_true hcounts⟩

/-! ### Awaited acknowledgements -/

/-- How often the object was told to terminate: the command is in its inbox, or it has become one
of the flags, which are never taken back. -/
def told (x : Obj) : Nat :=
  x.inbox.countP OwnCommand.isTerm + x.body.pending.toNat + x.own.terminating.toNat

/-- How many acknowledgements of `c` are still to come to `o`: `c` is a child of `o` that was told
to terminate, or it is gone and its acknowledgement is in the inbox of `o`. -/
def toCome (s : Ctx) (o : ObjId) (x : Obj) (c : ObjId) : Nat :=
  match s.objects.cell c with
  | none => x.inbox.count (.termAck c)
  | some y => if y.own.owner = some o then told y else 0

theorem Ledger.unacked_count (h : s.Ledger e k idle) (hx : s.objects.cell o = some x) (c : ObjId) :
    x.own.unacked.count c = s.toCome o x c := by
  have hl := h.forest.linked o _ c (forest_cell _ hx)
  unfold toCome
  cases hy : s.objects.cell c with
  | none =>
    rw [show (s.forest idle).cell c = none by simp [Ctx.forest, hy]] at hl
    exact hl.2.2
  | some y =>
    rw [forest_cell _ hy] at hl
    by_cases ho : y.own.owner = some o
    · rw [Ownership.linked_child ho] at hl
      exact hl.2.1.trans (if_pos ho).symm
    · rw [Ownership.linked_other ho] at hl
      exact hl.2.2.1.trans (if_neg ho).symm

/-- In every context that is reached, no object was told to terminate twice; the count of awaited
acknowledgements is not negative, and positive when one is handled; and while an object is
terminating it is the number of its pipes and of the children that were told and have not
acknowledged. -/
theorem term_acks_of_run {blocky : Bool} {as : List CtxAction}
    (hr : run step { blocky } as = .ok s) (hx : s.objects.cell o = some x) :
    told x ≤ 1 ∧ 0 ≤ x.own.termAcks ∧ (∀ c, .termAck c ∈ x.inbox → 0 < x.own.termAcks) ∧
      (x.own.terminating = true → x.own.termAcks = x.body.pipes.length + x.own.unacked.length) ∧
      ∀ c, x.own.unacked.count c = s.toCome o x c := by
  have hl : s.Ledger false 0 idle := run_ledger (fun he => (by cases he)) hr
  have hacks := (hl.balanced o x hx).termAcks
  have hforest := forest_cell idle hx
  refine ⟨(hl.forest.told o _ hforest).1, ?_, fun c hc => ?_, fun hterm => ?_, hl.unacked_count hx⟩
  · split at hacks <;> omega
  · -- the one who acknowledges is awaited
    have hpos : 0 < (x.node (idle o)).acked c := List.count_pos_iff.mpr hc
    have hawaited : x.own.unacked.count c = (x.node (idle o)).acked c :=
      (hl.forest.unacked_of_acked hforest hpos).2
    have := List.length_pos_of_mem (List.count_pos_iff.mp (hawaited ▸ hpos))
    split at hacks <;> omega
  · rw [if_pos hterm] at hacks
    omega

/-- A socket closes that has a pipe and a child. -/
theorem term_acks_of_run_close :
    ∃ s x, run step {}
        [.createSocket .router, .connectTcp 0 "a", .deliver 0 0, .close 0] = .ok s ∧
      s.objects.cell 0 = some x ∧ x.own.termAcks = 2 ∧
      x.own.termAcks = x.body.pipes.length + x.own.unacked.length := by
  have hreach : reaches step {}
      [.createSocket .router, .connectTcp 0 "a", .deliver 0 0, .close 0]
      (fun s => (s.objects.cell 0).any fun x =>
        decide (x.own.terminating = true ∧ x.own.termAcks = 2)) = true := by
    decide +kernel
  obtain ⟨s, hr, hs⟩ := of_reaches hreach
  obtain ⟨x, hx, hx'⟩ := (Option.any_eq_true _ _).mp hs
  obtain ⟨hterm, hacks⟩ := of_decide_eq_true hx'
  exact ⟨s, x, hr, hx, hacks, (term_acks_of_run hr hx).2.2.2.1 hterm⟩

end Ctx

end ServerLink
