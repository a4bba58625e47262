import ServerLink.Core.Linger
import ServerLink.Lib.Ownership

/-!
# ServerLink.Core.Ledger

The books of the objects of a context. `Ledger` says that the objects form an ownership tree and
that the counters of each object agree with its lists: it waits for one acknowledgement from each
child that was told to terminate and, once it terminates, for one from each of its pipes; and if
no inproc connection met its peer (`e`), as many counted commands are on their way to it as were
sent and not processed.

A method changes an object in several steps, and the books are not in order in between. What is
in progress is therefore kept in a hand: a command that was taken from the inbox and is not done,
or one that was announced and is not in the inbox yet.
-/

namespace ServerLink

open Checked Ownership Arena Ctx Obj

namespace OwnCommand

/-- Commands that do not concern the ownership tree. -/
def linkless : OwnCommand → Bool
  | .own _ | .term _ | .termAck _ => false
  | _ => true

def isTerm : OwnCommand → Bool
  | .term _ => true
  | _ => false

/-- The commands that concern the ownership tree. -/
def links (cmds : List OwnCommand) : List OwnCommand := cmds.filter fun cmd => !cmd.linkless

theorem links_append (cmds cmds' : List OwnCommand) :
    links (cmds ++ cmds') = links cmds ++ links cmds' :=
  List.filter_append _ _

theorem links_of_linkless {cmd : OwnCommand} (h : cmd.linkless = true) : links [cmd] = [] := by
  simp [links, h]

theorem count_own (c d : ObjId) : [own c].count (own d) = if d = c then 1 else 0 := by
  by_cases h : d = c
  · simp [h]
  · simp [h, Ne.symm h]

theorem count_termAck (c d : ObjId) : [termAck c].count (termAck d) = if d = c then 1 else 0 := by
  by_cases h : d = c
  · simp [h]
  · simp [h, Ne.symm h]

end OwnCommand

namespace Obj

variable {hand : List OwnCommand}

/-- The place of an object in the ownership tree. -/
def node (hand : List OwnCommand) (x : Obj) : Node where
  owner := x.own.owner
  entering := fun c => (hand ++ x.inbox).count (.own c)
  owned := fun c => x.own.owned.count c
  unacked := fun c => x.own.unacked.count c
  acked := fun c => (hand ++ x.inbox).count (.termAck c)
  told := (hand ++ x.inbox).countP OwnCommand.isTerm + x.body.pending.toNat +
    x.own.terminating.toNat
  stopped := x.own.terminating

variable {e : Bool}

/-- The counters of an object agree with its lists, and `sent_seqnum` can be incremented
`k` times. -/
structure Balanced (e : Bool) (k : Nat) (hand : List OwnCommand) (x : Obj) : Prop where
  seqnum : e = true →
    x.own.sentSeqnum = x.own.processedSeqnum + (hand ++ x.inbox).countP OwnCommand.counted
  room : e = true → x.own.sentSeqnum + k < 2 ^ 32
  termAcks : x.own.termAcks =
    x.own.unacked.length + if x.own.terminating then (x.body.pipes.length : Int) else 0
  closed : x.own.terminating = true → x.own.owned = []
  root : x.body.options?.isSome = true → x.own.owner = none

theorem Balanced.mono {k k' : Nat} {x : Obj} (h : x.Balanced e k hand)
    (hk : k' ≤ k) : x.Balanced e k' hand :=
  ⟨h.seqnum, fun he => Nat.lt_of_le_of_lt (Nat.add_le_add_left hk _) (h.room he), h.termAcks,
    h.closed, h.root⟩

theorem Balanced.inc {k : Nat} {hand' inbox : List OwnCommand} {x : Obj}
    (h : x.Balanced e (k + 1) hand)
    (hcount : (hand' ++ inbox).countP OwnCommand.counted =
      (hand ++ x.inbox).countP OwnCommand.counted + 1) :
    Balanced e k hand' { x with own := x.own.incSeqnum, inbox } := by
  have hinc : e = true → x.own.incSeqnum.sentSeqnum = x.own.sentSeqnum + 1 := fun he =>
    have hroom := h.room he
    Nat.mod_eq_of_lt (by omega)
  refine ⟨fun he => ?_, fun he => ?_, h.termAcks, h.closed, h.root⟩
  · show x.own.incSeqnum.sentSeqnum = x.own.processedSeqnum + _
    rw [hcount, hinc he, h.seqnum he, Nat.add_assoc]
  show x.own.incSeqnum.sentSeqnum + k < _
  have hroom := h.room he
  rw [hinc he]
  omega

theorem Balanced.sent {k : Nat} {x : Obj} (h : x.Balanced e (k + 1) hand) (cmd : OwnCommand)
    (hcounted : cmd.counted = true) :
    Balanced e k hand { x with own := x.own.incSeqnum, inbox := x.inbox ++ [cmd] } := by
  refine h.inc ?_
  rw [← List.append_assoc, List.countP_append, List.countP_singleton, if_pos hcounted]

/-- A command to terminate becomes a flag, or a flag a command. -/
theorem node_eq_of_told {hand' : List OwnCommand} {x : Obj} {body : Body}
    (hcount : ∀ cmd : OwnCommand, cmd.isTerm = false → hand'.count cmd = hand.count cmd)
    (htold : hand'.countP OwnCommand.isTerm + body.pending.toNat =
      hand.countP OwnCommand.isTerm + x.body.pending.toNat) :
    node hand' { x with body } = x.node hand := by
  simp only [node, Node.mk.injEq, List.count_append, List.countP_append, true_and, and_true]
  refine ⟨?_, ?_, by omega⟩
  · funext c
    rw [hcount (.own c) rfl]
  · funext c
    rw [hcount (.termAck c) rfl]

/-- The place in the tree depends on these members and commands. -/
theorem node_eq {hand' : List OwnCommand} {x x' : Obj} (howner : x'.own.owner = x.own.owner)
    (howned : x'.own.owned = x.own.owned) (hunacked : x'.own.unacked = x.own.unacked)
    (hterm : x'.own.terminating = x.own.terminating) (hpending : x'.body.pending = x.body.pending)
    (hlinks : (OwnCommand.links (hand' ++ x'.inbox)).Perm (OwnCommand.links (hand ++ x.inbox))) :
    x'.node hand' = x.node hand := by
  have hcount : ∀ cmd, cmd.linkless = false →
      (hand' ++ x'.inbox).count cmd = (hand ++ x.inbox).count cmd := by
    intro cmd hcmd
    have := hlinks.count_eq cmd
    rwa [OwnCommand.links, OwnCommand.links, List.count_filter (by simp [hcmd]),
      List.count_filter (by simp [hcmd])] at this
  have hcountP : (hand' ++ x'.inbox).countP OwnCommand.isTerm =
      (hand ++ x.inbox).countP OwnCommand.isTerm := by
    have := hlinks.countP_eq OwnCommand.isTerm
    have hboth : ∀ cmd : OwnCommand, (cmd.isTerm && !cmd.linkless) = cmd.isTerm := by
      intro cmd
      cases cmd <;> rfl
    simpa only [OwnCommand.links, List.countP_filter, hboth] using this
  simp only [node, howner, howned, hunacked, hterm, hpending, hcountP,
    hcount (.own _) rfl, hcount (.termAck _) rfl]

theorem node_term (hand : List OwnCommand) (x : Obj) (n : Nat) (linger : Int) :
    node hand { x with inbox := x.inbox ++ List.replicate n (.term linger) } =
      { x.node hand with told := (x.node hand).told + n } := by
  have htold : (hand ++ (x.inbox ++ List.replicate n (OwnCommand.term linger))).countP
      OwnCommand.isTerm = (hand ++ x.inbox).countP OwnCommand.isTerm + n := by
    rw [← List.append_assoc, List.countP_append, List.countP_replicate, OwnCommand.isTerm,
      if_pos rfl]
  simp only [node, Node.mk.injEq, true_and, and_true]
  refine ⟨?_, ?_, ?_⟩
  · funext c
    simp [List.count_replicate]
  · funext c
    simp [List.count_replicate]
  · rw [htold]
    omega

theorem node_termAck (hand : List OwnCommand) (x : Obj) (o : ObjId) :
    node hand { x with inbox := x.inbox ++ [.termAck o] } =
      { x.node hand with
        acked := fun c => (x.node hand).acked c + if c = o then 1 else 0 } := by
  have hacked : ∀ c, (hand ++ (x.inbox ++ [OwnCommand.termAck o])).count (.termAck c) =
      (hand ++ x.inbox).count (.termAck c) + if c = o then 1 else 0 := by
    intro c
    rw [← List.append_assoc, List.count_append, OwnCommand.count_termAck]
  simp [node, OwnCommand.isTerm, hacked]

end Obj

namespace Ctx

variable {e : Bool} {s t : Ctx} {o c : ObjId} {x x' y : Obj} {k : Nat}
  {hand hand' : ObjId → List OwnCommand}

variable {k' : Nat}

/-- The ownership tree of a context. -/
def forest (hand : ObjId → List OwnCommand) (s : Ctx) : Arena Node where
  cell := fun o => (s.objects.cell o).map (node (hand o))
  next := s.objects.next

/-- The books are in order. -/
structure Ledger (e : Bool) (k : Nat) (hand : ObjId → List OwnCommand) (s : Ctx) : Prop where
  forest : Ownership.Inv (s.forest hand)
  balanced : ∀ o x, s.objects.cell o = some x → x.Balanced e k (hand o)

/-- One object has commands in its hand. -/
def holding (o : ObjId) (cmds : List OwnCommand) : ObjId → List OwnCommand :=
  fun q => if q = o then cmds else []

@[simp] theorem holding_self (o : ObjId) (cmds : List OwnCommand) : holding o cmds o = cmds :=
  if_pos rfl

theorem holding_of_ne {q : ObjId} (hq : q ≠ o) (cmds : List OwnCommand) : holding o cmds q = [] :=
  if_neg hq

/-- Nothing is in progress. -/
def idle : ObjId → List OwnCommand := fun _ => []

theorem holding_nil (o : ObjId) : holding o [] = idle := by
  funext q
  exact ite_self []

theorem forest_cell (hand : ObjId → List OwnCommand) (hx : s.objects.cell o = some x) :
    (s.forest hand).cell o = some (x.node (hand o)) := by
  simp [forest, hx]

theorem forest_set (hhand : ∀ q, q ≠ o → hand' q = hand q) :
    (s.set o x).forest hand' = (s.forest hand).set o (x.node (hand' o)) := by
  have hcell : ((s.set o x).forest hand').cell =
      Function.update (s.forest hand).cell o (some (x.node (hand' o))) := by
    funext q
    by_cases hq : q = o
    · subst hq
      simp [forest, set]
    · simp [forest, set, Arena.cell_set_of_ne _ _ hq, hq, hhand q hq]
  exact congrArg (Arena.mk · _) hcell

theorem Ledger.mono (h : s.Ledger e k hand) (hk : k' ≤ k) : s.Ledger e k' hand :=
  ⟨h.forest, fun o x hx => (h.balanced o x hx).mono hk⟩

/-- The names and the number of the next pipe are of no concern. -/
theorem Ledger.of_objects (h : s.Ledger e k hand) (hobj : t.objects = s.objects) :
    t.Ledger e k hand where
  forest := by
    have : t.forest hand = s.forest hand := by simp only [Ctx.forest, hobj]
    exact this ▸ h.forest
  balanced := fun o x hx => h.balanced o x (hobj ▸ hx)

/-- An object changes, and the tree with it. -/
theorem Ledger.of_set (h : s.Ledger e k hand) (hk : k' ≤ k) (hhand : ∀ q, q ≠ o → hand' q = hand q)
    (hforest : Ownership.Inv ((s.forest hand).set o (x'.node (hand' o))))
    (hb : x'.Balanced e k' (hand' o)) : (s.set o x').Ledger e k' hand' where
  forest := forest_set hhand ▸ hforest
  balanced := by
    intro q y hy
    by_cases hq : q = o
    · subst hq
      cases (cell_set _ _ _).symm.trans hy
      exact hb
    · rw [hhand q hq]
      exact (h.balanced q y ((cell_set_of_ne _ _ hq).symm.trans hy)).mono hk

/-- An object changes, but not its place in the tree. -/
theorem Ledger.set (h : s.Ledger e k hand) (hx : s.objects.cell o = some x) (hk : k' ≤ k)
    (hhand : ∀ q, q ≠ o → hand' q = hand q) (hnode : x'.node (hand' o) = x.node (hand o))
    (hb : x'.Balanced e k' (hand' o)) : (s.set o x').Ledger e k' hand' := by
  refine h.of_set hk hhand ?_ hb
  rw [hnode, set_self (forest_cell _ hx)]
  exact h.forest

theorem Ledger.modify (h : s.Ledger e k hand) {f : Obj → Obj} (hk : k' ≤ k)
    (hhand : ∀ q, q ≠ o → hand' q = hand q)
    (hf : ∀ x, s.objects.cell o = some x → x.Balanced e k (hand o) →
      (f x).node (hand' o) = x.node (hand o) ∧ (f x).Balanced e k' (hand' o)) :
    Ensures (s.modify o f) (Ledger e k' hand') := by
  intro t ht
  obtain ⟨x, hx, rfl⟩ := modify_eq_ok ht
  obtain ⟨hnode, hb⟩ := hf x hx (h.balanced o x hx)
  exact h.set hx hk hhand hnode hb

/-- The hand of an object changes, but not what it says about the tree and the counters. -/
theorem Ledger.swap (h : s.Ledger e k hand) (hx : s.objects.cell o = some x)
    (hhand : ∀ q, q ≠ o → hand' q = hand q)
    (hlinks : OwnCommand.links (hand' o) = OwnCommand.links (hand o))
    (hcounted : (hand' o).countP OwnCommand.counted = (hand o).countP OwnCommand.counted) :
    s.Ledger e k hand' := by
  have hb := h.balanced o x hx
  have hset : (s.set o x).Ledger e k hand' := by
    refine h.set hx (Nat.le_refl k) hhand (node_eq rfl rfl rfl rfl rfl ?_)
      ⟨?_, hb.room, hb.termAcks, hb.closed, hb.root⟩
    · rw [OwnCommand.links_append, OwnCommand.links_append, hlinks]
    · intro he
      rw [hb.seqnum he, List.countP_append, List.countP_append, hcounted]
  rwa [Ctx.set, set_self hx] at hset

/-! ### Sending commands -/

/-- A command that has nothing to do with the tree and that the sender does not count. -/
theorem Ledger.sendCommand (h : s.Ledger e k hand) {cmd : OwnCommand} (hcmd : cmd.linkless = true)
    (hcounted : e = true → cmd.counted = false) (o : ObjId) :
    Ensures (s.sendCommand o cmd) (Ledger e k hand) := by
  refine h.modify (Nat.le_refl k) (fun _ _ => rfl) fun x _ hb => ⟨?_, ?_⟩
  · refine node_eq rfl rfl rfl rfl rfl ?_
    simp [OwnCommand.links, hcmd]
  · refine ⟨fun he => ?_, hb.room, hb.termAcks, hb.closed, hb.root⟩
    simpa [hcounted he] using hb.seqnum he

theorem modify_modify (s : Ctx) (o : ObjId) (f g : Obj → Obj) :
    (s.modify o f >>= fun s => s.modify o g) = s.modify o fun x => g (f x) := by
  cases hx : s.objects.cell o with
  | none => simp [modify, get, hx, bind, Except.bind]
  | some x => simp [modify, get, hx, bind, Except.bind, pure, Except.pure, set]

/-- `incSeqnum` and a command that has nothing to do with the tree. -/
theorem Ledger.sendCounted (h : s.Ledger e (k + 1) hand) {cmd : OwnCommand}
    (hcmd : cmd.linkless = true) (hcounted : cmd.counted = true) (o : ObjId) :
    Ensures (s.sendCounted o cmd true) (Ledger e k hand) := by
  have heq : s.sendCounted o cmd true =
      s.modify o fun x => { x with own := x.own.incSeqnum, inbox := x.inbox ++ [cmd] } :=
    modify_modify s o _ _
  rw [heq]
  refine h.modify (Nat.le_succ k) (fun _ _ => rfl) fun x _ hb => ⟨?_, hb.sent cmd hcounted⟩
  refine node_eq rfl rfl rfl rfl rfl ?_
  simp [OwnCommand.links, hcmd]

/-! ### New objects -/

theorem Ledger.newObject (h : s.Ledger e k hand) (hk : k < 2 ^ 32)
    (hhand : hand s.objects.next = []) (options : Options) {body : Body}
    (hbody : body.pending = false) : (s.newObject options body).Ledger e k hand where
  forest := by
    have hnode : node (hand s.objects.next) { own := { options }, body } = {} := by
      simp [node, hhand, hbody]
    have hcell : ((s.newObject options body).forest hand).cell =
        ((s.forest hand).alloc {}).cell := by
      funext q
      by_cases hq : q = s.objects.next
      · subst hq
        simp [Ctx.forest, Ctx.newObject, Arena.alloc, hnode]
      · simp [Ctx.forest, Ctx.newObject, Arena.alloc, hq]
    have hsame : (s.newObject options body).forest hand = (s.forest hand).alloc {} :=
      congrArg (Arena.mk · _) hcell
    exact hsame ▸ h.forest.alloc
  balanced := by
    intro q y hy
    by_cases hq : q = s.objects.next
    · subst hq
      cases (Arena.cell_alloc_next _ _).symm.trans hy
      exact ⟨by simp [hhand], fun _ => by simpa using hk, by simp, by simp, fun _ => rfl⟩
    · exact h.balanced q y ((Arena.cell_alloc_of_ne _ _ hq).symm.trans hy)

theorem launchChild_eq_ok (hne : o ≠ c) (h : s.launchChild o c = .ok t) :
    ∃ x y, s.objects.cell o = some x ∧ s.objects.cell c = some y ∧ y.own.owner = none ∧
      t = (s.set c { y with
          own := { y.own.incSeqnum with owner := some o }
          inbox := y.inbox ++ [.plug] }).set o
        { x with own := x.own.incSeqnum, inbox := x.inbox ++ [.own c] } := by
  obtain ⟨s1, h1, h⟩ := bind_eq_ok h
  obtain ⟨s2, h2, h⟩ := bind_eq_ok h
  obtain ⟨y, hy, h1⟩ := bind_eq_ok h1
  have hy := get_eq_ok hy
  split at h1
  · cases h1
  rename_i howner
  have howner : y.own.owner = none := by simpa using howner
  obtain rfl := modify_of_cell hy h1
  have hplug := modify_eq_ok ((modify_modify _ c _ _).symm.trans h2)
  obtain ⟨z, hz, rfl⟩ := hplug
  cases (cell_set _ _ _).symm.trans hz
  obtain ⟨x, hx, rfl⟩ := modify_eq_ok ((modify_modify _ o _ _).symm.trans h)
  simp only [set, set_set, cell_set_of_ne _ _ hne] at hx ⊢
  exact ⟨x, y, hx, hy, howner, rfl⟩

theorem Ledger.launchChild (h : s.Ledger e (k + 1) hand) (hlt : o < c)
    (hc : ∀ y, s.objects.cell c = some y →
      y.body.options? = none ∧ (y.node (hand c)).told = 0) :
    Ensures (s.launchChild o c) (Ledger e k hand) := by
  intro t ht
  have hne : o ≠ c := Nat.ne_of_lt hlt
  obtain ⟨x, y, hx, hy, howner, rfl⟩ := launchChild_eq_ok hne ht
  obtain ⟨hkind, htold⟩ := hc y hy
  have hbx := h.balanced o x hx
  have hby := h.balanced c y hy
  constructor
  · have hlaunch := h.forest.launch (forest_cell _ hx) (forest_cell _ hy) howner htold hlt
    rw [forest_set fun _ _ => rfl, forest_set fun _ _ => rfl]
    have hnodeY : node (hand c) { y with
        own := { y.own.incSeqnum with owner := some o }
        inbox := y.inbox ++ [.plug] } = { y.node (hand c) with owner := some o } := by
      simp [node, Own.incSeqnum, OwnCommand.isTerm]
    have hnodeX : node (hand o) { x with
        own := x.own.incSeqnum, inbox := x.inbox ++ [.own c] } =
        { x.node (hand o) with
          entering := fun d => (x.node (hand o)).entering d + if d = c then 1 else 0 } := by
      have hcount : ∀ d, (hand o ++ (x.inbox ++ [OwnCommand.own c])).count (.own d) =
          (hand o ++ x.inbox).count (.own d) + if d = c then 1 else 0 := by
        intro d
        rw [← List.append_assoc, List.count_append, OwnCommand.count_own]
      simp [node, Own.incSeqnum, OwnCommand.isTerm, hcount]
    rw [hnodeX, hnodeY]
    exact hlaunch
  · intro q z hz
    by_cases hq : q = o
    · subst hq
      cases (cell_set _ _ _).symm.trans hz
      exact hbx.sent _ rfl
    replace hz := (cell_set_of_ne _ _ hq).symm.trans hz
    by_cases hq : q = c
    · subst hq
      cases (cell_set _ _ _).symm.trans hz
      have hsent := hby.sent .plug rfl
      refine ⟨hsent.seqnum, hsent.room, hsent.termAcks, hsent.closed, fun hs => ?_⟩
      rw [hkind] at hs
      cases hs
    · exact (h.balanced q z ((cell_set_of_ne _ _ hq).symm.trans hz)).mono (Nat.le_succ k)

/-! ### Children are told to terminate -/

/-- Each object but `o` gets a `term` for each time it is in the list, and `o` becomes `x'`. -/
structure Told (s : Ctx) (o : ObjId) (l : List ObjId) (linger : Int) (x' : Obj) (t : Ctx) :
    Prop where
  next : t.objects.next = s.objects.next
  self : t.objects.cell o = some x'
  others : ∀ q, q ≠ o → t.objects.cell q = (s.objects.cell q).map fun y =>
    { y with inbox := y.inbox ++ List.replicate (l.count q) (.term linger) }

variable {l : List ObjId} {linger : Int}

theorem sendTerms_told (hx : s.objects.cell o = some x) (ho : o ∉ l)
    (h : l.foldlM (fun s c => s.sendTerm o c linger) s = .ok t) :
    s.Told o l linger { x with own := { x.own with unacked := x.own.unacked ++ l } } t := by
  induction l generalizing s x with
  | nil =>
    obtain rfl : s = t := Except.ok.inj h
    refine ⟨rfl, by simp [hx], fun q _ => ?_⟩
    simp
  | cons c l ih =>
    obtain ⟨s1, h1, h⟩ := bind_eq_ok h
    obtain ⟨s2, h2, h1⟩ := bind_eq_ok h1
    obtain rfl := modify_of_cell hx h2
    obtain ⟨y, hy, rfl⟩ := modify_eq_ok h1
    have hoc : o ≠ c := fun heq => ho (heq ▸ List.mem_cons_self)
    have hx1 : ((s.set o { x with own := { x.own with unacked := x.own.unacked ++ [c] } }).set c
        { y with inbox := y.inbox ++ [.term linger] }).objects.cell o =
        some { x with own := { x.own with unacked := x.own.unacked ++ [c] } } := by
      simp [set, cell_set_of_ne _ _ hoc]
    have hrest := ih hx1 (fun hmem => ho (List.mem_cons_of_mem _ hmem)) h
    refine ⟨hrest.next, by simpa using hrest.self, fun q hq => (hrest.others q hq).trans ?_⟩
    have hy : s.objects.cell c = some y := (cell_set_of_ne _ _ (Ne.symm hoc)).symm.trans hy
    by_cases hqc : q = c
    · subst hqc
      simp [set, hy, List.replicate_succ]
    · simp [set, cell_set_of_ne _ _ hqc, cell_set_of_ne _ _ hq,
        List.count_cons_of_ne (Ne.symm hqc)]

theorem sendTerm_told (hx : s.objects.cell o = some x) (hne : o ≠ c)
    (h : s.sendTerm o c linger = .ok t) :
    s.Told o [c] linger { x with own := { x.own with unacked := x.own.unacked ++ [c] } } t := by
  refine sendTerms_told hx (by simpa using hne) ?_
  rw [List.foldlM_cons, h]
  rfl

/-- What happened to `o` before is of no concern. -/
theorem Told.of_base {s' : Ctx} (h : s'.Told o l linger x' t)
    (hnext : s'.objects.next = s.objects.next)
    (hcell : ∀ q, q ≠ o → s'.objects.cell q = s.objects.cell q) : s.Told o l linger x' t where
  next := h.next.trans hnext
  self := h.self
  others := fun q hq => hcell q hq ▸ h.others q hq

theorem Ledger.unnoted_self (h : s.Ledger e k hand) (hx : s.objects.cell o = some x) :
    (x.node (hand o)).entering o = 0 ∧ x.own.owned.count o = 0 := by
  have hx := forest_cell hand hx
  obtain ⟨he, ho, -⟩ := h.forest.unnoted hx hx (h.forest.owner_ne hx)
  exact ⟨he, ho⟩

/-- `o` takes over children or tells some to terminate. -/
theorem Ledger.tell (h : s.Ledger e k hand) (hx : s.objects.cell o = some x)
    (ht : s.Told o l linger x' t) (hhand : ∀ q, q ≠ o → hand' q = hand q)
    (howner : x'.own.owner = x.own.owner)
    (htold : (x'.node (hand' o)).told = (x.node (hand o)).told ∨ x.own.owner = none)
    (hroot : (x.node (hand o)).told = x.own.terminating.toNat →
      (x'.node (hand' o)).told = x'.own.terminating.toNat)
    (hacked : ∀ c, (x'.node (hand' o)).acked c = (x.node (hand o)).acked c)
    (hunacked : ∀ c, x'.own.unacked.count c = x.own.unacked.count c + l.count c)
    (hmoved : ∀ c, (x'.node (hand' o)).entering c + x'.own.owned.count c + l.count c =
      (x.node (hand o)).entering c + x.own.owned.count c)
    (hb : x'.Balanced e k (hand' o)) : t.Ledger e k hand' where
  forest := by
    refine h.forest.tell (T := fun c => l.count c) (forest_cell _ hx) ht.next
      (forest_cell _ ht.self) (fun q hq => ?_) howner htold
      (fun ho => hroot ((h.forest.told o _ (forest_cell _ hx)).2 ho)) hacked hunacked hmoved
    show (t.objects.cell q).map _ = ((s.objects.cell q).map _).map _
    rw [ht.others q hq, hhand q hq, Option.map_map, Option.map_map]
    congr 1
    funext y
    exact node_term (hand q) y (l.count q) linger
  balanced := by
    intro q z hz
    by_cases hq : q = o
    · subst hq
      cases ht.self.symm.trans hz
      exact hb
    rw [ht.others q hq, Option.map_eq_some_iff] at hz
    obtain ⟨y, hy, rfl⟩ := hz
    have hby := h.balanced q y hy
    rw [hhand q hq]
    refine ⟨?_, hby.room, hby.termAcks, hby.closed, hby.root⟩
    simpa [OwnCommand.counted, List.countP_append, List.countP_replicate] using hby.seqnum

/-! ### The check of a terminating object -/

/-- No child of the object is left and no acknowledgement is on the way; neither is a pipe, or a
counted command. -/
structure Settled (s : Ctx) (o : ObjId) (x : Obj) : Prop where
  children : ∀ c y, s.objects.cell c = some y → y.own.owner ≠ some o
  acks : ∀ c, OwnCommand.termAck c ∉ x.inbox
  pipes : x.body.pipes = []
  commands : x.inbox.countP OwnCommand.counted = 0

theorem count_own_le (c : ObjId) (cmds : List OwnCommand) :
    cmds.count (.own c) ≤ cmds.countP OwnCommand.counted := by
  refine List.countP_mono_left fun cmd _ heq => ?_
  obtain rfl : cmd = .own c := by simpa using heq
  rfl

theorem Ledger.settled_iff (h : s.Ledger e k hand) (hx : s.objects.cell o = some x) :
    (∀ c, (x.node (hand o)).entering c = 0 ∧ x.own.owned.count c = 0 ∧ x.own.unacked.count c = 0) ↔
    (∀ c y, s.objects.cell c = some y → y.own.owner ≠ some o) ∧
      ∀ c, (x.node (hand o)).acked c = 0 := by
  refine (h.forest.settled_iff (forest_cell _ hx)).trans (and_congr ?_ Iff.rfl)
  constructor
  · intro hall c y hy
    exact hall c _ (forest_cell _ hy)
  · intro hall c z hz
    obtain ⟨y, hy, rfl⟩ := Option.map_eq_some_iff.mp hz
    exact hall c y hy

theorem Ledger.passes_iff (h : s.Ledger true k hand) (hhand : hand o = [])
    (hx : s.objects.cell o = some x) (hterm : x.own.terminating = true) :
    Passes x.own ↔ s.Settled o x := by
  obtain ⟨hseqnum, -, htermAcks, hclosed, -⟩ := h.balanced o x hx
  rw [if_pos hterm] at htermAcks
  replace hseqnum := hseqnum rfl
  rw [hhand, List.nil_append] at hseqnum
  have hsettled := h.settled_iff hx
  constructor
  · intro ⟨_, hseq, hacks⟩
    have hcounted : x.inbox.countP OwnCommand.counted = 0 := by omega
    have hunacked : x.own.unacked = [] := List.length_eq_zero_iff.mp (by omega)
    obtain ⟨hchildren, hacked⟩ := hsettled.mp fun c => by
      refine ⟨Nat.eq_zero_of_le_zero ?_, by rw [hclosed hterm]; rfl, by rw [hunacked]; rfl⟩
      have := count_own_le c x.inbox
      simp only [node, hhand, List.nil_append]
      omega
    refine ⟨hchildren, fun c => ?_, List.length_eq_zero_iff.mp (by omega), hcounted⟩
    have := hacked c
    simp only [node, hhand, List.nil_append] at this
    exact List.count_eq_zero.mp this
  · intro hs
    have hzero := hsettled.mpr ⟨hs.children, fun c => by
      simp only [node, hhand, List.nil_append]
      exact List.count_eq_zero.mpr (hs.acks c)⟩
    have hunacked : x.own.unacked = [] :=
      List.eq_nil_iff_forall_not_mem.mpr fun c => List.count_eq_zero.mp (hzero c).2.2
    have hcommands := hs.commands
    refine ⟨hterm, by omega, ?_⟩
    rw [htermAcks, hunacked, hs.pipes]
    rfl

theorem sendTermAck_cell {owner : Option ObjId} (h : s.sendTermAck owner o = .ok t) :
    t.objects.next = s.objects.next ∧ ∀ q, t.objects.cell q = (s.objects.cell q).map fun y =>
      if owner = some q then { y with inbox := y.inbox ++ [.termAck o] } else y := by
  cases owner with
  | none =>
    obtain rfl : s = t := Except.ok.inj h
    exact ⟨rfl, fun q => by simp⟩
  | some p =>
    obtain ⟨y, hy, rfl⟩ := modify_eq_ok h
    refine ⟨rfl, fun q => ?_⟩
    by_cases hq : q = p
    · subst hq
      simp [set, hy]
    · simp [set, cell_set_of_ne _ _ hq, Ne.symm hq]

/-- An object that passes is deleted and acknowledges. -/
theorem Ledger.checkTermAcks (h : s.Ledger e k hand) :
    Ensures (s.checkTermAcks o) (Ledger e k hand) := by
  intro t ht
  obtain ⟨x, hx, ht⟩ := bind_eq_ok ht
  have hx := get_eq_ok hx
  split at ht
  · rename_i hpass
    split at ht
    · cases ht
    obtain ⟨s1, h1, ht⟩ := bind_eq_ok ht
    cases ht
    have htold : 0 < (x.node (hand o)).told := by simp [node, hpass.1]
    obtain ⟨hnext, hcell⟩ := sendTermAck_cell h1
    constructor
    · refine h.forest.delete (forest_cell _ hx) htold hnext ?_ fun q hq => ?_
      · simp [Ctx.forest]
      show ((s1.objects.free o).cell q).map _ = ((s.objects.cell q).map _).map _
      rw [cell_free_of_ne _ hq, hcell q, Option.map_map, Option.map_map]
      congr 1
      funext y
      by_cases howner : x.own.owner = some q
      · have hnode : (x.node (hand o)).owner = some q := howner
        simp only [Function.comp_apply, howner, hnode, if_true, and_true, node_termAck]
      · have hnode : (x.node (hand o)).owner ≠ some q := howner
        simp only [Function.comp_apply, howner, hnode, if_false, and_false, Nat.add_zero]
    · intro q z hz
      have hz := cell_of_cell_free hz
      rw [hcell q, Option.map_eq_some_iff] at hz
      obtain ⟨y, hy, rfl⟩ := hz
      have hby := h.balanced q y hy
      split
      · refine ⟨?_, hby.room, hby.termAcks, hby.closed, hby.root⟩
        simpa [OwnCommand.counted] using hby.seqnum
      · exact hby
  · obtain rfl : s = t := Except.ok.inj ht
    exact h

end Ctx

end ServerLink
