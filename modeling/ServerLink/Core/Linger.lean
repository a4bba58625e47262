import ServerLink.Core.Evolution

/-!
# ServerLink.Core.Linger

The value of `linger` that reaches the children of a socket. `setsockopt` writes the options of
the `socket_base_t`. A `term` command, on the other hand, is sent by methods of `own_t`, which
read the options of the `own_t`: `terminate` when the socket is closed, `process_term_req` when
an endpoint is disconnected. The two are different members, so the children are always told the
default value of an `own_t`.
-/

namespace ServerLink

open Checked CheckedRun List

/-- The value a `term` command carries. -/
def OwnCommand.linger? : OwnCommand → Option Int
  | .term linger => some linger
  | _ => none

namespace CtxAction

/-- The value of `LINGER` after a call of the user: a refused value does not count. -/
def setLinger (o : ObjId) (value : Int) : CtxAction → Int
  | .setsockopt o' .linger value' => if o' = o ∧ -1 ≤ value' then value' else value
  | _ => value

/-- The value of `LINGER` that was set last on a socket. -/
def lastLinger (o : ObjId) (value : Int) (as : List CtxAction) : Int :=
  as.foldl (setLinger o) value

end CtxAction

namespace Ctx

variable {s s' t : Ctx} {o c d : ObjId} {x : Obj} {linger : Int} {l : List ObjId}

/-- The commands that wait for an object. -/
def inbox (s : Ctx) (c : ObjId) : List OwnCommand := ((s.objects.cell c).map Obj.inbox).getD []

/-- What the `term` commands carry that were sent to `c` between two contexts. -/
def termsSent (s t : Ctx) (c : ObjId) : List Int :=
  ((t.inbox c).drop (s.inbox c).length).filterMap OwnCommand.linger?

theorem termsSent_of_append {cmds : List OwnCommand} (h : t.inbox c = s.inbox c ++ cmds) :
    s.termsSent t c = cmds.filterMap OwnCommand.linger? := by
  rw [termsSent, h, drop_left]

/-! ### What the methods put into an inbox -/

theorem modify_eq_ok {f : Obj → Obj} (h : s.modify o f = .ok t) :
    ∃ x, s.objects.cell o = some x ∧ t = s.set o (f x) := by
  obtain ⟨x, hx, heq⟩ := bind_eq_ok h
  exact ⟨x, get_eq_ok hx, (Except.ok.inj heq).symm⟩

theorem modify_of_cell (hx : s.objects.cell o = some x) {f : Obj → Obj}
    (h : s.modify o f = .ok t) : t = s.set o (f x) := by
  obtain ⟨y, hy, rfl⟩ := modify_eq_ok h
  cases hx.symm.trans hy
  rfl

theorem get_of_cell (hx : s.objects.cell o = some x) {f : Obj → Except Fault Ctx}
    (h : s.get o >>= f = .ok t) : f x = .ok t := by
  obtain ⟨y, hy, heq⟩ := bind_eq_ok h
  cases hx.symm.trans (get_eq_ok hy)
  exact heq

theorem inbox_set (hx : s.objects.cell o = some x) {x' : Obj} {cmds : List OwnCommand}
    (h : x'.inbox = x.inbox ++ cmds) (c : ObjId) :
    (s.set o x').inbox c = s.inbox c ++ if c = o then cmds else [] := by
  by_cases hc : c = o
  · subst hc
    simp [inbox, set, hx, h]
  · simp [inbox, set, Arena.cell_set_of_ne _ _ hc, hc]

theorem modify_inbox {f : Obj → Obj} (h : s.modify o f = .ok t)
    (hf : ∀ x, (f x).inbox = x.inbox) (c : ObjId) : t.inbox c = s.inbox c := by
  obtain ⟨x, hx, rfl⟩ := modify_eq_ok h
  have hsame : (f x).inbox = x.inbox ++ [] := by simp [hf]
  simpa using inbox_set hx hsame c

theorem modifyOwn_inbox {g : Own → Own} (h : s.modifyOwn o g = .ok t) (c : ObjId) :
    t.inbox c = s.inbox c :=
  modify_inbox h (fun _ => rfl) c

theorem sendCommand_inbox {cmd : OwnCommand} (h : s.sendCommand d cmd = .ok t) (c : ObjId) :
    t.inbox c = s.inbox c ++ if c = d then [cmd] else [] := by
  obtain ⟨x, hx, rfl⟩ := modify_eq_ok h
  exact inbox_set hx rfl c

theorem sendTerm_inbox (h : s.sendTerm o d linger = .ok t) (c : ObjId) :
    t.inbox c = s.inbox c ++ if c = d then [.term linger] else [] := by
  obtain ⟨s1, h1, h2⟩ := bind_eq_ok h
  rw [sendCommand_inbox h2, modifyOwn_inbox h1]

/-- Each child is told once for each time it is in the list. -/
theorem sendTerms_inbox (h : l.foldlM (fun s c => s.sendTerm o c linger) s = .ok t) (c : ObjId) :
    t.inbox c = s.inbox c ++ replicate (l.count c) (.term linger) := by
  induction l generalizing s with
  | nil =>
    obtain rfl : s = t := Except.ok.inj h
    simp
  | cons d l ih =>
    obtain ⟨s1, h1, h2⟩ := bind_eq_ok h
    rw [ih h2, sendTerm_inbox h1, append_assoc]
    by_cases hd : c = d
    · subst hd
      simp [replicate_succ]
    · simp [hd, count_cons_of_ne (Ne.symm hd)]

/-- The last check sends an acknowledgement at most. -/
theorem checkTermAcks_inbox (hc : c ≠ o) (h : s.checkTermAcks o = .ok t) :
    ∃ cmds, t.inbox c = s.inbox c ++ cmds ∧ cmds.filterMap OwnCommand.linger? = [] := by
  obtain ⟨x, hx, h⟩ := bind_eq_ok h
  have hquiet : (t = s) → ∃ cmds, t.inbox c = s.inbox c ++ cmds ∧
      cmds.filterMap OwnCommand.linger? = [] := by
    intro heq
    exact ⟨[], by simp [heq], rfl⟩
  split at h
  · split at h
    · cases h
    obtain ⟨s1, h1, h2⟩ := bind_eq_ok h
    have hfree : t.inbox c = s1.inbox c := by
      rw [← Except.ok.inj h2]
      simp [inbox, Arena.cell_free_of_ne _ hc]
    unfold sendTermAck at h1
    split at h1
    · obtain rfl : s = s1 := Except.ok.inj h1
      exact ⟨[], by simp [hfree], rfl⟩
    · refine ⟨_, hfree.trans (sendCommand_inbox h1 c), ?_⟩
      split <;> rfl
  · exact hquiet (Except.ok.inj h).symm

/-! ### Closing a socket -/

/-- A child of a terminating object is told the value the object was given. -/
theorem ownProcessTerm_termsSent (hx : s.objects.cell o = some x) (hn : x.own.owned.Nodup)
    (hc : c ∈ x.own.owned) (hne : c ≠ o) (h : s.ownProcessTerm o linger = .ok t) :
    s.termsSent t c = [linger] := by
  replace h := get_of_cell hx h
  split at h
  · cases h
  obtain ⟨s1, h1, h⟩ := bind_eq_ok h
  obtain ⟨s2, h2, h⟩ := bind_eq_ok h
  obtain ⟨s3, h3, h⟩ := bind_eq_ok h
  obtain ⟨cmds, hcmds, hquiet⟩ := checkTermAcks_inbox hne h
  have hcount : x.own.owned.count c = 1 := count_eq_one_of_mem hn hc
  have hinbox : t.inbox c = s.inbox c ++ ([.term linger] ++ cmds) := by
    rw [hcmds, modifyOwn_inbox h3, modifyOwn_inbox h2, sendTerms_inbox h1, hcount,
      append_assoc]
    rfl
  rw [termsSent_of_append hinbox, filterMap_append, hquiet]
  rfl

theorem socketProcessTerm_termsSent (hx : s.objects.cell o = some x) (hn : x.own.owned.Nodup)
    (hc : c ∈ x.own.owned) (hne : c ≠ o) (h : s.socketProcessTerm o linger = .ok t) :
    s.termsSent t c = [linger] := by
  obtain ⟨y, _, h⟩ := bind_eq_ok h
  obtain ⟨s1, h1, h⟩ := bind_eq_ok h
  obtain ⟨z, hz, hs1⟩ := modify_eq_ok h1
  cases hx.symm.trans hz
  have hx1 : s1.objects.cell o = some { x with
      own := { x.own with termAcks := x.own.termAcks + y.body.pipes.length } } := by
    rw [hs1]
    exact Arena.cell_set _ _ _
  have hsent := ownProcessTerm_termsSent hx1 hn hc hne h
  -- before `own_t::process_term` nothing is sent to anybody
  rwa [termsSent, modifyOwn_inbox h1 c] at hsent

/-! ### Disconnecting an endpoint -/

/-- The object is not terminating; what it owns, and its value of `linger` as an `own_t`. -/
def Holds (s : Ctx) (o : ObjId) (linger : Int) (l : List ObjId) : Prop :=
  ∃ x, s.objects.cell o = some x ∧ x.own.terminating = false ∧ x.own.options.linger = linger ∧
    x.own.owned = l

theorem Holds.set (h : s.Holds o linger l) (hx : s.objects.cell d = some x) {x' : Obj}
    (hown : x'.own = x.own) : (s.set d x').Holds o linger l := by
  obtain ⟨y, hy, hterm, hlinger, hl⟩ := h
  by_cases hd : o = d
  · subst hd
    cases hx.symm.trans hy
    exact ⟨x', Arena.cell_set _ _ _, by rw [hown, hterm], by rw [hown, hlinger], by rw [hown, hl]⟩
  · exact ⟨y, (Arena.cell_set_of_ne _ _ hd).trans hy, hterm, hlinger, hl⟩

theorem Holds.modifyOwn (h : s.Holds o linger l) {g : Own → Own} (hm : s.modifyOwn o g = .ok t)
    (hg : ∀ own, (g own).terminating = own.terminating ∧ (g own).options = own.options)
    {l' : List ObjId} (hl' : ∀ own, own.owned = l → (g own).owned = l') :
    t.Holds o linger l' := by
  obtain ⟨x, hx, hterm, hlinger, hl⟩ := h
  obtain rfl := modify_of_cell hx hm
  refine ⟨_, Arena.cell_set _ _ _, (hg x.own).1.trans hterm, ?_, hl' x.own hl⟩
  exact (congrArg Options.linger (hg x.own).2).trans hlinger

theorem Holds.sendTerm (h : s.Holds o linger l) {value : Int}
    (hm : s.sendTerm o d value = .ok t) : t.Holds o linger l := by
  obtain ⟨s1, h1, h2⟩ := bind_eq_ok hm
  obtain ⟨x, hx, rfl⟩ := modify_eq_ok h2
  exact (h.modifyOwn h1 (fun _ => ⟨rfl, rfl⟩) fun _ hl => hl).set hx rfl

/-- A child that is asked to terminate is told the value of the `own_t`, and given up. -/
theorem Holds.processTermReq (h : s.Holds o linger l) (hm : s.processTermReq o d = .ok t)
    (c : ObjId) : t.Holds o linger (l.erase d) ∧
      t.inbox c = s.inbox c ++ if c = d ∧ d ∈ l then [.term linger] else [] := by
  obtain ⟨x, hx, hm⟩ := bind_eq_ok hm
  obtain ⟨y, hy, hterm, hlinger, hl⟩ := id h
  cases hy.symm.trans (get_eq_ok hx)
  rw [if_neg (by simp [hterm]), hl, hlinger] at hm
  split at hm
  · rename_i hd
    obtain rfl : s = t := Except.ok.inj hm
    exact ⟨by rwa [erase_of_not_mem hd], by simp [hd]⟩
  rename_i hd
  have hd : d ∈ l := not_not.mp hd
  obtain ⟨s1, h1, hm⟩ := bind_eq_ok hm
  obtain ⟨s2, h2, hm⟩ := bind_eq_ok hm
  have hh1 := h.modifyOwn h1 (fun _ => ⟨rfl, rfl⟩) fun own hown => congrArg (·.erase d) hown
  have hh2 := hh1.modifyOwn h2 (fun _ => ⟨rfl, rfl⟩) fun _ hown => hown
  refine ⟨hh2.sendTerm hm, ?_⟩
  rw [sendTerm_inbox hm, modifyOwn_inbox h2, modifyOwn_inbox h1]
  simp [hd]

theorem Holds.termReqs (h : s.Holds o linger l) (hn : l.Nodup) {rs : List EndpointRecord}
    (hm : rs.foldlM (fun s r => match r.child with
      | none => (.ok s : Except Fault Ctx)
      | some child => s.processTermReq o child) s = .ok t) (c : ObjId) :
    t.inbox c = s.inbox c ++
      if c ∈ l ∧ ∃ r ∈ rs, r.child = some c then [.term linger] else [] := by
  induction rs generalizing s l with
  | nil =>
    obtain rfl : s = t := Except.ok.inj hm
    simp
  | cons r rs ih =>
    obtain ⟨s1, h1, hm⟩ := bind_eq_ok hm
    cases hchild : r.child with
    | none =>
      simp only [hchild] at h1
      obtain rfl : s = s1 := Except.ok.inj h1
      rw [ih h hn hm]
      simp [hchild]
    | some d =>
      simp only [hchild] at h1
      obtain ⟨hh, hinbox⟩ := h.processTermReq h1 c
      rw [ih hh (hn.erase d) hm, hinbox]
      by_cases hd : c = d
      · subst hd
        simp [hn.mem_erase_iff, hchild]
      · have hd' : d ≠ c := Ne.symm hd
        simp [hn.mem_erase_iff, hchild, hd, hd']

/-- A child of the endpoint that is still owned is told the value of the `own_t`. -/
theorem termEndpoint_termsSent {b : SocketBase} (h : s.Holds o linger l) (hn : l.Nodup)
    (hc : c ∈ l) {r : EndpointRecord} (hr : r ∈ b.endpoints) (hchild : r.child = some c)
    (hm : s.termEndpoint o b r.endpoint = .ok t) : s.termsSent t c = [linger] := by
  obtain ⟨s1, h1, h2⟩ := bind_eq_ok hm
  have hlast : t.inbox c = s1.inbox c := by
    refine modify_inbox h2 (fun x => ?_) c
    split <;> rfl
  have hasked : c ∈ l ∧ ∃ r' ∈ b.endpoints.filter (·.endpoint = r.endpoint), r'.child = some c :=
    ⟨hc, r, mem_filter.mpr ⟨hr, decide_eq_true rfl⟩, hchild⟩
  have hinbox := hlast.trans (h.termReqs hn h1 c)
  rw [if_pos hasked] at hinbox
  exact termsSent_of_append hinbox

/-! ### The value the children are told -/

/-- A call makes the open socket `o` tell its child `c` to terminate. -/
inductive Ends (s : Ctx) (o c : ObjId) : CtxAction → Prop
  | close {x : Obj} (hx : s.objects.cell o = some x) (hopen : x.IsOpen)
      (hc : c ∈ x.own.owned) : s.Ends o c (.close o)
  | disconnect {x : Obj} {b : SocketBase} {r : EndpointRecord} (hx : s.objects.cell o = some x)
      (hb : x.body = .socket b) (hopen : x.own.terminating = false) (hc : c ∈ x.own.owned)
      (hr : r ∈ b.endpoints) (hchild : r.child = some c) :
      s.Ends o c (.termEndpoint o r.endpoint)

/-- The child is told the default value of an `own_t`. -/
theorem Ends.termsSent (ht : s.Tidy) {a : CtxAction} (ha : s.Ends o c a)
    (hs : s.step a = .ok t) : s.termsSent t c = [-1] := by
  cases ha with
  | @close x hx hopen hc =>
    obtain ⟨hlt, hx'⟩ := ht o x hx
    rcases user_eq_ok hs with ⟨hclosed, -⟩ | ⟨y, b, hy, -, -, hs⟩
    · exact absurd ⟨x, hx, hopen⟩ hclosed
    cases hx.symm.trans hy
    have hne : c ≠ o := Nat.ne_of_gt (hx'.owned c hc)
    have hsent := socketProcessTerm_termsSent hx hx'.nodup hc hne hs
    rwa [hx'.options hopen.1] at hsent
  | @disconnect x b r hx hb hopen hc hr hchild =>
    have hx' := (ht o x hx).2
    have hs : s.termEndpoint o b r.endpoint = .ok t := by simpa only [step, event, hx, hb] using hs
    have hdefault : x.own.options.linger = -1 := by rw [hx'.options (by rw [hb]; rfl)]
    exact termEndpoint_termsSent ⟨x, hx, hopen, hdefault, rfl⟩ hx'.nodup hc hr hchild hs

/-- The value a child is told is the one that was set last exactly if that one is -1. -/
theorem told_lastLinger_iff {blocky : Bool} {type : SocketType} {as bs : List CtxAction}
    {a : CtxAction} (hs : run step { blocky } as = .ok s)
    (hs' : run step s (.createSocket type :: bs) = .ok s')
    (ha : s'.Ends s.objects.next c a) (ht : s'.step a = .ok t) :
    s'.termsSent t c = [CtxAction.lastLinger s.objects.next (s.defaultLinger type) bs] ↔
      CtxAction.lastLinger s.objects.next (s.defaultLinger type) bs = -1 := by
  have htidy : s'.Tidy := run_tidy (run_tidy (new_tidy blocky) hs) hs'
  rw [ha.termsSent htidy ht, cons.injEq, and_iff_left rfl]
  exact eq_comm

/-- A SUB socket, whose default is 0, sets -1, connects and is closed. -/
theorem told_lastLinger_iff_sub :
    ∃ s t : Ctx, run step {} [.createSocket .sub, .setsockopt 0 .linger (-1), .connectTcp 0 "a",
        .deliver 0 0] = .ok s ∧
      s.step (.close 0) = .ok t ∧ s.termsSent t 1 = [CtxAction.lastLinger 0 0
        [.setsockopt 0 .linger (-1), .connectTcp 0 "a", .deliver 0 0]] := by
  have hreach : reaches step {} [.createSocket .sub, .setsockopt 0 .linger (-1),
      .connectTcp 0 "a", .deliver 0 0]
      (fun s => (s.objects.cell 0).any (fun x => decide (x.IsOpen ∧ 1 ∈ x.own.owned)) &&
        reaches step s [.close 0] fun _ => true) = true := by decide +kernel
  obtain ⟨s, hr, hs⟩ := of_reaches hreach
  obtain ⟨hx, hclose⟩ := Bool.and_eq_true_iff.mp hs
  obtain ⟨x, hx, hopen⟩ := (Option.any_eq_true _ _).mp hx
  obtain ⟨hopen, hc⟩ := of_decide_eq_true hopen
  obtain ⟨t, ht, -⟩ := of_reaches hclose
  rw [run_singleton] at ht
  have hnew : run step {} [] = .ok {} := rfl
  exact ⟨s, t, hr, ht, (told_lastLinger_iff hnew hr (.close hx hopen hc) ht).mpr rfl⟩

/-- The user sets `LINGER` to 0 and closes the socket: the session is told to linger for ever. -/
theorem close_forgets_linger :
    ∃ s t : Ctx, run step {} [.createSocket .router, .setsockopt 0 .linger 0,
        .connectTcp 0 "a", .deliver 0 0] = .ok s ∧
      CtxAction.lastLinger 0 (-1) [.setsockopt 0 .linger 0, .connectTcp 0 "a", .deliver 0 0] = 0 ∧
      s.step (.close 0) = .ok t ∧ s.termsSent t 1 = [-1] := by
  have hreach : reaches step {} [.createSocket .router, .setsockopt 0 .linger 0,
      .connectTcp 0 "a", .deliver 0 0] (fun s => reaches step s [.close 0] fun t =>
        decide (s.termsSent t 1 = [-1])) = true := by decide +kernel
  obtain ⟨s, hr, hs⟩ := of_reaches hreach
  obtain ⟨t, ht, hsent⟩ := of_reaches hs
  rw [run_singleton] at ht
  exact ⟨s, t, hr, rfl, ht, of_decide_eq_true hsent⟩

end Ctx

end ServerLink
