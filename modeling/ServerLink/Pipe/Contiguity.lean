import ServerLink.Pipe.Fq

/-!
# ServerLink.Pipe.Contiguity

The parts of a message are received one after the other: once a fair queue has handed out
a part with the more flag, the next part it hands out is the next one of the same pipe.
This holds along every run in which no other pipe is removed at a moment when the reader,
in the middle of a message, would lose its place (`Fq.Redirects`).
-/

namespace ServerLink

open Function Checked

/-! ### In the middle of a message -/

namespace FairQueue

/-- A message of the pipe is half read, and the pipe is the one to read from. -/
structure Holds (b : FairQueue) (p : PipeId) : Prop where
  more : b.fq.more = true
  current : b.fq.IsCurrent p
  reading : (b.pipes p).reading = true
  midway : (b.pipes p).midway = true

variable {b b' : FairQueue} {p q : PipeId}

theorem Holds.recvpipe (h : b.Ok) (hp : b.Holds p) :
    ∃ m rest b', (b.pipes p).parts = m :: rest ∧ b.recvpipe = .ok (some (p, m), b') := by
  have ha := h.awake p hp.current.isActive
  obtain ⟨m, rest, hparts, hread⟩ := (h.framed p).read_midway ha hp.reading hp.midway
  obtain ⟨fuel, hfuel⟩ := Nat.exists_eq_add_of_lt (Nat.zero_lt_of_lt hp.current.1)
  have hrecv := FairQueue.recvLoop_succ (0 + fuel) hp.current
  rw [← hfuel, hread] at hrecv
  exact ⟨m, rest, _, hparts, hrecv⟩

/-- A part that has the more flag leaves the reader in the middle of its message. -/
theorem Took.holds_more {m : Msg} (ht : b.Took p m b') (hm : m.more = true) : b'.Holds p := by
  obtain ⟨-, hreading, -, rest, -, heq⟩ := Inlet.read_eq_some ht.read
  refine ⟨ht.more.trans hm, ht.holds hm, ?_, ?_⟩
  · rw [heq]
    exact hreading
  · rw [heq]
    exact hm

theorem Holds.attach (h : b.Ok) (hq : q ∉ b.fq.pipes.items) (i : Inlet) (hp : b.Holds p) :
    (b.attach q i).Holds p := by
  have hne : p ≠ q := by
    rintro rfl
    exact hq hp.current.isActive.mem
  refine ⟨hp.more, (h.fq.joins_attach q).isCurrent hp.current, ?_, ?_⟩
  · simpa [FairQueue.attach, update_of_ne hne] using hp.reading
  · simpa [FairQueue.attach, update_of_ne hne] using hp.midway

theorem Holds.modify {f : Inlet → Inlet} (hp : b.Holds p)
    (hf : p = q → (f (b.pipes q)).reading = true ∧ (f (b.pipes q)).midway = true) :
    (b.modify q f).Holds p := by
  by_cases hq : p = q
  · obtain ⟨hr, hm⟩ := hf hq
    subst hq
    exact ⟨hp.more, hp.current, by simpa [FairQueue.modify] using hr,
      by simpa [FairQueue.modify] using hm⟩
  · exact ⟨hp.more, hp.current,
      by simpa [FairQueue.modify, update_of_ne hq] using hp.reading,
      by simpa [FairQueue.modify, update_of_ne hq] using hp.midway⟩

theorem Holds.activateRead (h : b.Ok) (hq : q ∈ b.fq.pipes.items) (hp : b.Holds p) :
    (b.activateRead q).Holds p := by
  obtain ⟨inActive, heq⟩ := b.activateRead_pipes q p
  refine ⟨(b.activateRead_more q).trans hp.more, h.isCurrent_activateRead hq hp.current, ?_, ?_⟩
  · rw [heq]
    exact hp.reading
  · rw [heq]
    exact hp.midway

theorem Holds.pipeTerminated (h : b.Ok) (hq : q ∈ b.fq.pipes.items) (hne : p ≠ q)
    (hplace : ¬ b.fq.Redirects q) (hp : b.Holds p) : (b.pipeTerminated q).Holds p where
  more := by
    have hmore := hp.more
    simp only [FairQueue.pipeTerminated, Fq.pipeTerminated]
    split <;> exact hmore
  current := h.fq.isCurrent_pipeTerminated hq hp.current hne hplace
  reading := hp.reading
  midway := hp.midway

/-! ### A reader that knows where it is -/

/-- If the reader is in the middle of a message, it is at the right pipe. -/
structure Steady (b : FairQueue) : Prop where
  ok : b.Ok
  holds : b.fq.more = true → ∃ p, b.Holds p

/-- The reader is in the middle of no other message. -/
def Clean (b : FairQueue) : Prop :=
  ∀ p ∈ b.fq.pipes.items, (b.pipes p).reading = true → (b.pipes p).midway = true → b.Holds p

/-- The reader knows where it is. -/
structure Tidy (b : FairQueue) : Prop where
  steady : b.Steady
  clean : b.Clean

theorem empty_steady : empty.Steady := ⟨empty_ok, nofun⟩

theorem empty_clean : empty.Clean := nofun

/-- A steady reader takes a part or finds nothing, and then it was not in the middle of a
message. -/
theorem Steady.recvpipe (h : b.Steady) :
    (∃ p m b', b.recvpipe = .ok (some (p, m), b') ∧ b.Took p m b' ∧ b'.Steady) ∨
    (∃ b', b.recvpipe = .ok (none, b') ∧ b.Found b' ∧ b'.Steady ∧ b.fq.more = false) := by
  rcases h.ok.recvpipe with ⟨p, m, b', heq, ht⟩ | ⟨b', heq, hf, hidle⟩ | ⟨heq, hmore, -⟩
  · refine .inl ⟨p, m, b', heq, ht, ht.ok, fun hmore => ⟨p, ht.holds_more ?_⟩⟩
    rw [← ht.more, hmore]
  · have hmore : b.fq.more = false := by
      cases hm : b.fq.more with
      | false => rfl
      | true =>
        obtain ⟨p, hp⟩ := h.holds hm
        have hlt := hp.current.1
        have hzero := hidle hm
        omega
    refine .inr ⟨b', heq, hf, ⟨hf.ok, fun hm => ?_⟩, hmore⟩
    rw [hf.more, hmore] at hm
    cases hm
  · obtain ⟨p, hp⟩ := h.holds hmore
    obtain ⟨m, rest, b', -, hrecv⟩ := hp.recvpipe h.ok
    rw [hrecv] at heq
    cases heq

theorem Clean.took (hc : b.Clean) {m : Msg} (ht : b.Took p m b') : b'.Clean := by
  intro q hq hr hm
  by_cases hqp : q = p
  · subst hqp
    obtain ⟨-, -, -, rest, -, heq⟩ := Inlet.read_eq_some ht.read
    rw [heq] at hm
    exact ht.holds_more hm
  -- Only one message is half read, and that one goes on.
  have hs := ht.skipped q hqp
  have hq := hc q ((ht.mem q).mp hq) (hs.reading hr) (hs.midway ▸ hm)
  exact absurd (hq.current.unique (ht.current hq.more)) hqp

theorem Clean.found (hc : b.Clean) (hf : b.Found b') (hmore : b.fq.more = false) : b'.Clean := by
  intro q hq hr hm
  have hs := hf.skipped q
  have hq := hc q ((hf.mem q).mp hq) (hs.reading hr) (hs.midway ▸ hm)
  rw [hq.more] at hmore
  cases hmore

/-- The part taken is the next one of the message at hand, or the first of another. -/
theorem Clean.midway_eq (hc : b.Clean) (h : b.Steady) {m : Msg} (ht : b.Took p m b') :
    (b.pipes p).midway = b.fq.more := by
  obtain ⟨-, hr, -⟩ := Inlet.read_eq_some ht.read
  cases hm : (b.pipes p).midway with
  | true => exact (hc p ht.active.mem hr hm).more.symm
  | false =>
    cases hmore : b.fq.more with
    | false => rfl
    | true =>
      obtain ⟨q, hq⟩ := h.holds hmore
      rw [(ht.current hmore).unique hq.current, hq.midway] at hm
      cases hm

section Between

variable (h : b.Steady) (hc : b.Clean)

include h

theorem Steady.attach (hq : q ∉ b.fq.pipes.items) {i : Inlet} (ha : i.inActive = true)
    (hi : i.Ok) : (b.attach q i).Steady where
  ok := h.ok.attach hq ha hi
  holds hmore := by
    obtain ⟨p, hp⟩ := h.holds hmore
    exact ⟨p, hp.attach h.ok hq i⟩

include hc in
theorem Clean.attach (hq : q ∉ b.fq.pipes.items) {i : Inlet} (hi : i.midway = false) :
    (b.attach q i).Clean := by
  intro p hp hr hm
  have hp := h.ok.fq.mem_attach.mp hp
  by_cases hpq : p = q
  · subst hpq
    simp [FairQueue.attach, hi] at hm
  · simp only [FairQueue.attach, update_of_ne hpq] at hr hm
    exact (hc p (hp.resolve_right hpq) hr hm).attach h.ok hq i

/-- Something happens at a pipe; if it stops reading, its message is not the one at hand. -/
theorem Steady.modify {f : Inlet → Inlet} (ha : (f (b.pipes q)).inActive = (b.pipes q).inActive)
    (hi : (f (b.pipes q)).Ok) (hm : (f (b.pipes q)).midway = (b.pipes q).midway)
    (hr : b.Holds q → (f (b.pipes q)).reading = true) : (b.modify q f).Steady where
  ok := h.ok.modify ha hi
  holds hmore := by
    obtain ⟨p, hp⟩ := h.holds hmore
    refine ⟨p, hp.modify fun heq => ?_⟩
    subst heq
    exact ⟨hr hp, hm.trans hp.midway⟩

omit h in
include hc in
theorem Clean.modify {f : Inlet → Inlet} (hm : (f (b.pipes q)).midway = (b.pipes q).midway)
    (hr : (f (b.pipes q)).reading = true → (b.pipes q).reading = true) :
    (b.modify q f).Clean := by
  intro p hp hread hmid
  by_cases hpq : p = q
  · subst hpq
    simp only [FairQueue.modify, update_self] at hread hmid
    exact (hc p hp (hr hread) (hm ▸ hmid)).modify fun _ => ⟨hread, hmid⟩
  · simp only [FairQueue.modify, update_of_ne hpq] at hread hmid
    exact (hc p hp hread hmid).modify fun heq => absurd heq hpq

theorem Steady.activateRead (hq : q ∈ b.fq.pipes.items) : (b.activateRead q).Steady where
  ok := h.ok.activateRead hq
  holds hmore := by
    rw [b.activateRead_more q] at hmore
    obtain ⟨p, hp⟩ := h.holds hmore
    exact ⟨p, hp.activateRead h.ok hq⟩

include hc in
theorem Clean.activateRead (hq : q ∈ b.fq.pipes.items) : (b.activateRead q).Clean := by
  intro p hp hr hm
  obtain ⟨inActive, heq⟩ := b.activateRead_pipes q p
  rw [heq] at hr hm
  exact (hc p ((h.ok.mem_activateRead hq).mp hp) hr hm).activateRead h.ok hq

omit h in
theorem pipeTerminated_more (b : FairQueue) (q : PipeId) :
    (b.pipeTerminated q).fq.more = b.fq.more := by
  simp only [FairQueue.pipeTerminated, Fq.pipeTerminated]
  split <;> rfl

/-- A pipe goes that is not read from any more, and the reader does not lose its place. -/
theorem Steady.pipeTerminated (hq : q ∈ b.fq.pipes.items) (hend : (b.pipes q).reading = false)
    (hplace : b.fq.more = true → ¬ b.fq.Redirects q) : (b.pipeTerminated q).Steady where
  ok := h.ok.pipeTerminated hq
  holds hmore := by
    rw [pipeTerminated_more] at hmore
    obtain ⟨p, hp⟩ := h.holds hmore
    refine ⟨p, hp.pipeTerminated h.ok hq ?_ (hplace hmore)⟩
    rintro rfl
    simp [hp.reading] at hend

include hc in
theorem Clean.pipeTerminated (hq : q ∈ b.fq.pipes.items)
    (hplace : b.fq.more = true → ¬ b.fq.Redirects q) : (b.pipeTerminated q).Clean := by
  intro p hp hr hm
  obtain ⟨hp, hne⟩ := (h.ok.fq.mem_pipeTerminated hq).mp hp
  have hp := hc p hp hr hm
  exact hp.pipeTerminated h.ok hq hne (hplace hp.more)

end Between

/-! ### What the pipes hold -/

/-- The number of parts the pipes hold. -/
def held (b : FairQueue) : Nat :=
  b.fq.pipes.items.foldr (fun p n => (b.pipes p).parts.length + n) 0

theorem foldr_add_perm {f : PipeId → Nat} {l l' : List PipeId} (h : l.Perm l') :
    l.foldr (fun p n => f p + n) 0 = l'.foldr (fun p n => f p + n) 0 := by
  have : LeftCommutative fun p n => f p + n := ⟨fun p q n => by omega⟩
  exact h.foldr_eq 0

theorem foldr_add_lt {f g : PipeId → Nat} : ∀ {l : List PipeId} {p : PipeId},
    p ∈ l → (∀ q, f q ≤ g q) → f p < g p →
      l.foldr (fun p n => f p + n) 0 < l.foldr (fun p n => g p + n) 0
  | [], p, hp, _, _ => by cases hp
  | x :: l, p, hp, hle, hlt => by
      have hx := hle x
      have hl : l.foldr (fun p n => f p + n) 0 ≤ l.foldr (fun p n => g p + n) 0 := by
        clear hp
        induction l with
        | nil => exact Nat.le_refl _
        | cons y l ih =>
          have hy := hle y
          simp only [List.foldr_cons]
          omega
      simp only [List.foldr_cons]
      rcases List.mem_cons.mp hp with rfl | hp
      · omega
      · have ih := foldr_add_lt hp hle hlt
        omega

theorem Took.held_lt {m : Msg} (h : b.Ok) (ht : b.Took p m b') : b'.held < b.held := by
  have hperm : b'.fq.pipes.items.Perm b.fq.pipes.items :=
    (List.perm_ext_iff_of_nodup ht.ok.fq.pipes.nodup h.fq.pipes.nodup).mpr ht.mem
  unfold held
  rw [foldr_add_perm hperm]
  obtain ⟨-, -, -, rest, hparts, heq⟩ := Inlet.read_eq_some ht.read
  have hlt : (b'.pipes p).parts.length < (b.pipes p).parts.length := by
    rw [heq, hparts]
    exact Nat.lt_succ_self _
  refine foldr_add_lt ht.active.mem (fun q => ?_) hlt
  by_cases hq : q = p
  · rw [hq]
    exact Nat.le_of_lt hlt
  · exact (ht.skipped q hq).length_le

/-- The reader has taken parts from some pipes and given up others. -/
structure Advances (b b' : FairQueue) : Prop where
  mem : ∀ q, q ∈ b'.fq.pipes.items ↔ q ∈ b.fq.pipes.items
  reading : ∀ q, (b'.pipes q).reading = true → (b.pipes q).reading = true

theorem Advances.trans {b'' : FairQueue} (h : b.Advances b') (h' : b'.Advances b'') :
    b.Advances b'' where
  mem q := (h'.mem q).trans (h.mem q)
  reading q hq := h.reading q (h'.reading q hq)

theorem Took.advances {m : Msg} (ht : b.Took p m b') : b.Advances b' where
  mem := ht.mem
  reading q hq := by
    by_cases hqp : q = p
    · obtain ⟨-, hr, -⟩ := Inlet.read_eq_some ht.read
      exact hqp ▸ hr
    · exact (ht.skipped q hqp).reading hq

theorem Found.advances (hf : b.Found b') : b.Advances b' where
  mem := hf.mem
  reading q hq := (hf.skipped q).reading hq

end FairQueue

/-! ### Runs of a fair queue -/

/-- What can happen to a fair queue and its pipes. -/
inductive FqAction
  | attach (pipe : PipeId) (held : List MultipartMsg)
  | event (pipe : PipeId) (e : InletEvent)
  | activateRead (pipe : PipeId)
  | terminate (pipe : PipeId) (delay : Bool)
  | pipeTerminated (pipe : PipeId)
  | recvpipe
  | hasIn

/-- A fair queue, and the pipe whose message is half received: the last part handed out was
read from it and has the more flag, and nobody has terminated the pipe since. -/
structure Reader where
  queue : FairQueue
  half : Option PipeId

namespace Reader

def new : Reader := ⟨.empty, none⟩

/-- The pipe ends. -/
def forget (half : Option PipeId) (pipe : PipeId) : Option PipeId :=
  if half = some pipe then none else half

/-- A new pipe is attached once, and pipes that are not attached are not heard of. -/
def step (s : Reader) : FqAction → Except Fault Reader
  | .attach pipe held =>
    if pipe ∈ s.queue.fq.pipes.items then .ok s
    else .ok { s with
      queue := s.queue.attach pipe { parts := held.flatMap MultipartMsg.parts } }
  | .event pipe e => .ok { s with queue := s.queue.modify pipe (e.apply ·) }
  | .activateRead pipe =>
    if pipe ∈ s.queue.fq.pipes.items then .ok { s with queue := s.queue.activateRead pipe }
    else .ok s
  | .terminate pipe delay => .ok ⟨s.queue.modify pipe (·.terminate delay), forget s.half pipe⟩
  | .pipeTerminated pipe =>
    if pipe ∈ s.queue.fq.pipes.items then
      .ok ⟨s.queue.pipeTerminated pipe, forget s.half pipe⟩
    else .ok s
  | .recvpipe =>
    match s.queue.recvpipe with
    | .error e => .error e
    | .ok (none, queue) => .ok { s with queue }
    | .ok (some (pipe, m), queue) => .ok ⟨queue, if m.more then some pipe else none⟩
  | .hasIn => s.queue.hasIn.map fun r => { s with queue := r.2 }

/-- The reader does not lose its place in the middle of a message. -/
def KeepsPlace (s : Reader) : FqAction → Prop
  | .pipeTerminated pipe =>
    s.half ≠ none → pipe ∈ s.queue.fq.pipes.items → ¬ s.queue.fq.Redirects pipe
  | _ => True

instance (s : Reader) (a : FqAction) : Decidable (s.KeepsPlace a) := by
  unfold KeepsPlace
  split <;> infer_instance

structure Inv (s : Reader) : Prop where
  ok : s.queue.Ok
  holds : ∀ p, s.half = some p → s.queue.Holds p

theorem inv_new : new.Inv where
  ok := FairQueue.empty_ok
  holds p hp := by cases hp

variable {s : Reader} {p q : PipeId}

/-! ### One step -/

theorem forget_eq_some {half : Option PipeId} (h : forget half q = some p) :
    half = some p ∧ p ≠ q := by
  unfold forget at h
  split at h
  · cases h
  rename_i hne
  refine ⟨h, ?_⟩
  rintro rfl
  exact hne h

/-- Something happens at a pipe that keeps it awake and whole, and keeps it reading as far as
the reader holds its message. -/
theorem Inv.modify (hI : s.Inv) {f : Inlet → Inlet} {half : Option PipeId}
    (ha : (f (s.queue.pipes q)).inActive = (s.queue.pipes q).inActive)
    (hi : (f (s.queue.pipes q)).Ok) (hm : (f (s.queue.pipes q)).midway = (s.queue.pipes q).midway)
    (hhalf : ∀ p, half = some p → s.half = some p ∧
      (p = q → (s.queue.pipes q).reading = true → (f (s.queue.pipes q)).reading = true)) :
    Inv ⟨s.queue.modify q f, half⟩ where
  ok := hI.ok.modify ha hi
  holds p hp := by
    obtain ⟨hs, hread⟩ := hhalf p hp
    have hp := hI.holds p hs
    refine hp.modify fun heq => ⟨hread heq ?_, ?_⟩
    · exact heq ▸ hp.reading
    · rw [hm]
      exact heq ▸ hp.midway

theorem Inv.step (hI : s.Inv) {a : FqAction} (hk : s.KeepsPlace a) : Ensures (s.step a) Inv := by
  cases a with
  | attach pipe held =>
    exact .ite (fun _ => .ok hI) fun hmem => .ok ⟨hI.ok.attach hmem rfl
      (Inlet.framed_flatMap held), fun p hp => (hI.holds p hp).attach hI.ok hmem _⟩
  | event pipe e =>
    exact .ok (hI.modify (Inlet.apply_inActive _ e) ((hI.ok.framed pipe).apply e)
      (Inlet.apply_midway _ e) fun p hp => ⟨hp, fun _ h => (Inlet.apply_reading _ e).trans h⟩)
  | activateRead pipe =>
    exact .ite (fun hmem => .ok ⟨hI.ok.activateRead hmem,
      fun p hp => (hI.holds p hp).activateRead hI.ok hmem⟩) fun _ => .ok hI
  | terminate pipe delay =>
    obtain ⟨state, heq⟩ := (s.queue.pipes pipe).terminate_eq delay
    refine .ok (hI.modify (by rw [heq]) ((hI.ok.framed pipe).terminate delay) (by rw [heq])
      fun p hp => ?_)
    obtain ⟨hp, hne⟩ := forget_eq_some hp
    exact ⟨hp, fun h => absurd h hne⟩
  | pipeTerminated pipe =>
    refine .ite (fun hmem => .ok ⟨hI.ok.pipeTerminated hmem, fun p hp => ?_⟩) fun _ => .ok hI
    obtain ⟨hp, hne⟩ := forget_eq_some hp
    exact (hI.holds p hp).pipeTerminated hI.ok hmem hne (hk (by simp [hp]) hmem)
  | recvpipe =>
    unfold Reader.step
    rcases hI.ok.recvpipe with ⟨p, m, b', heq, ht⟩ | ⟨b', heq, hf, hidle⟩ | ⟨heq, -⟩
    · rw [heq]
      refine .ok ⟨ht.ok, fun q hq => ?_⟩
      cases hm : m.more with
      | false => simp [hm] at hq
      | true =>
        simp only [hm, if_true, Option.some.injEq] at hq
        exact hq ▸ ht.holds_more hm
    · rw [heq]
      refine .ok ⟨hf.ok, fun q hq => ?_⟩
      -- A reader in the middle of a message finds its next part.
      have hq := hI.holds q hq
      have hlt := hq.current.1
      have hzero := hidle hq.more
      omega
    · rw [heq]
      exact .error _ _
  | hasIn =>
    obtain ⟨r, b', heq, hl, hsame⟩ := hI.ok.hasIn
    unfold Reader.step
    rw [heq]
    refine .ok ⟨hl.ok, fun q hq => ?_⟩
    have hq := hI.holds q hq
    rw [hsame hq.more]
    exact hq

/-! ### Whole runs -/

/-- In every run in which the reader never loses its place, whenever a message is half
received from a pipe that has not been terminated, the next part handed out is the next part
of that pipe. -/
theorem next_part_of_keepsPlace {as : List FqAction}
    (hk : CheckedRun.Along step KeepsPlace new as) (hr : CheckedRun.run step new as = .ok s)
    (hp : s.half = some p) :
    ∃ m rest b', (s.queue.pipes p).parts = m :: rest ∧
      s.queue.recvpipe = .ok (some (p, m), b') := by
  have hI : s.Inv := CheckedRun.run_inv_along (fun s a s' hI hC => hI.step hC s') inv_new hk hr
  exact (hI.holds p hp).recvpipe hI.ok

/-- Three pipes; the second goes away after it has been read from, while the message of the
first is half received. -/
def keepingRun : List FqAction :=
  [.attach 0 [.ofData [[1]] [2], .ofData [[3]] [4]], .attach 1 [.ofData [] [5]],
    .attach 2 [.ofData [[6]] [7]], .recvpipe, .recvpipe, .recvpipe, .recvpipe, .recvpipe,
    .recvpipe, .pipeTerminated 1]

theorem next_part_keepingRun : ∃ s, CheckedRun.run step new keepingRun = .ok s ∧
    s.half = some 0 ∧ ∃ m rest b', (s.queue.pipes 0).parts = m :: rest ∧
      s.queue.recvpipe = .ok (some (0, m), b') := by
  have hk : CheckedRun.Along step KeepsPlace new keepingRun := by decide
  exact ⟨_, rfl, rfl, next_part_of_keepsPlace hk rfl rfl⟩

/-- The same three pipes; the second goes away while the message of the third, the last of
the active pipes, is half received: the next part handed out is the first part of another
message of the first pipe. -/
theorem redirected_by_other_pipe : ∃ s b' m, CheckedRun.run step new
      [.attach 0 [.ofData [[1]] [2], .ofData [[3]] [4]], .attach 1 [.ofData [] [5]],
        .attach 2 [.ofData [[6]] [7]], .recvpipe, .recvpipe, .recvpipe, .recvpipe,
        .pipeTerminated 1] = .ok s ∧
      s.half = some 2 ∧ s.queue.recvpipe = .ok (some (0, m), b') ∧ m.data = [3] :=
  ⟨_, _, _, rfl, rfl, rfl, rfl⟩

end Reader

end ServerLink
