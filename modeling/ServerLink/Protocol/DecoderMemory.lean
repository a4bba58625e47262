import ServerLink.Protocol.V2Decoder

/-!
# ServerLink.Protocol.DecoderMemory

The memory the decoder works in: reference counts, where the next bytes are stored,
and that messages built on received memory lie inside the receive buffer
(`decode_memOk`).
-/

namespace ServerLink

open Allocator List

namespace V2Decoder

variable {d d' : V2Decoder} {pos : Ptr} {n : Nat} {held : List Msg} {rc : DecodeRc}

variable {mem : Memory}

/-- Where the decoder stores what it reads: into its header buffer, or into a message.
A message on the current receive buffer holds a reference to it. -/
def ReadPosOk (d : V2Decoder) : Prop :=
  match d.next with
  | .messageReady => ∀ b, d.readPos.block = .heap b →
      b < d.alloc.nextBlock ∧ (b = d.alloc.buf → d.inProgress.hint = some b)
  | _ => d.readPos.block = .tmpbuf

/-- The bytes being decoded lie in the receive buffer, or they were read straight into
the message. -/
def SourceOk (d : V2Decoder) (pos : Ptr) (n : Nat) : Prop :=
  d.InBuffer pos n ∨ (d.next = .messageReady ∧ n ≤ d.toRead) ∨
    (d.next = .flagsReady ∧ d.toRead = 1 ∧ n = 0)

/-- The invariant of the memory the decoder uses, with the messages it has given away
that are still open. -/
structure MemOk (mem : Memory) (held : List Msg) (d : V2Decoder) : Prop where
  check : d.inProgress.check = true
  counted : d.alloc.Counted (d.inProgress :: held)
  readPos : d.ReadPosOk
  inside : ∀ r ∈ d.inPlace, r.Inside mem

theorem InPlace.inside_of_room {k : Nat} (hpos : d.InBuffer pos k) (hzc : d.zeroCopy = true)
    (hsize : d.alloc.maxSize + atomicCounterSize < 2 ^ 64)
    (hroom : n ≤ mem.ptrDiff (d.alloc.data.add d.alloc.size) pos) :
    InPlace.Inside mem ⟨pos, n, d.alloc.data, d.alloc.size⟩ := by
  rw [ptrDiff_of_inBuffer hpos hzc hsize] at hroom
  obtain ⟨hb, hlow, hle⟩ := hpos hzc
  simp only [InPlace.Inside, Memory.address, hb, data, size, atomicCounterSize] at *
  omega

theorem advance_memOk (bs : List UInt8) (h : d.MemOk mem held) : (d.advance bs).MemOk mem held := by
  refine ⟨by simp [h.check], ?_, ?_, by simpa using h.inside⟩
  · rw [advance_alloc]
    exact ⟨fun b => by simpa [holders_cons] using h.counted.refcnt_eq b,
      h.counted.buf_lt, by simpa using h.counted.hint_lt⟩
  · have hr := h.readPos
    unfold ReadPosOk at hr ⊢
    cases hn : d.next <;> simpa [hn] using hr

theorem SizeReady.memOk {k : Nat} (hS : SizeReady mem d n pos d' rc) (h : d.MemOk mem held)
    (hpos : d.InBuffer pos k) (hn : d.next ≠ .messageReady)
    (hsize : d.alloc.maxSize + atomicCounterSize < 2 ^ 64) : d'.MemOk mem held := by
  have hclosed := closeMsg_counted h.counted
  cases hS with
  | tooLarge => exact h
  | noMemory alloc hinit =>
    have hc := (initSize_counted hinit hclosed).1
    refine ⟨rfl, hc.cons_of_hint_none rfl, ?_, h.inside⟩
    have hr := h.readPos
    unfold ReadPosOk at hr ⊢
    cases hn' : d.next <;> simp_all
  | own hlim alloc m p hinit =>
    obtain ⟨hcheck, hstorage, -, -⟩ := initSize_msg hinit
    have hhint : m.hint = none := by rw [Msg.hint_eq_storage, hstorage]; rfl
    have hc := (initSize_counted hinit hclosed).1
    refine ⟨hcheck, hc.cons_of_hint_none hhint, ?_, h.inside⟩
    intro b hb
    have hown := initSize_ptr hinit b hb
    have hbuf := (initSize_config hinit).1
    rw [closeMsg_nextBlock] at hown
    rw [closeMsg_buf] at hbuf
    refine ⟨hown.2, fun heq => ?_⟩
    have heq' : b = d.alloc.buf := heq.trans hbuf
    have := h.counted.buf_lt
    omega
  | copied hlim hsmall =>
    refine ⟨rfl, hclosed.cons_of_hint_none rfl, ?_, h.inside⟩
    intro b hb
    cases hb
  | inPlace hlim hzc hbig hroom =>
    refine ⟨rfl, hclosed.incRef (by simp [Msg.hint, Msg.isZcmsg, Msg.setFlags, nextStep]), ?_, ?_⟩
    · intro b hb
      have hblock : pos.block = .heap b := hb
      rw [(hpos hzc).1] at hblock
      cases hblock
      refine ⟨by simpa [nextStep, incRef, advanceContent] using h.counted.buf_lt, fun _ => ?_⟩
      simp [Msg.hint, Msg.isZcmsg, Msg.setFlags, nextStep]
    · intro r hr
      rcases mem_cons.mp hr with rfl | hr
      · exact InPlace.inside_of_room hpos hzc hsize hroom
      · exact h.inside r hr

theorem runNext_memOk (hr : d.runNext mem pos = .ok (d', rc)) (h : d.MemOk mem held)
    (hpos : d.next ≠ .messageReady → d.InBuffer pos n)
    (hsize : d.alloc.maxSize + atomicCounterSize < 2 ^ 64) : d'.MemOk mem held := by
  cases runNext_inv hr with
  | flags _ _ _ _ next _ hnext => exact ⟨h.check, h.counted, by cases next <;> trivial, h.inside⟩
  | size hn _ _ _ hS => exact hS.memOk h (hpos hn) hn hsize
  | message => exact ⟨h.check, h.counted, rfl, h.inside⟩

variable (mem) in
theorem runNext_ok (hc : d.inProgress.check = true) (pos : Ptr) :
    ∃ d' rc, d.runNext mem pos = .ok (d', rc) := by
  unfold runNext
  cases d.next with
  | flagsReady => exact ⟨_, _, rfl⟩
  | oneByteSizeReady =>
    obtain ⟨d', rc, h, -⟩ := sizeReady_ok mem hc (d.tmpbuf.headD 0).toNat pos
    exact ⟨d', rc, h⟩
  | eightByteSizeReady =>
    obtain ⟨d', rc, h, -⟩ := sizeReady_ok mem hc (getUint64 d.tmpbuf) pos
    exact ⟨d', rc, h⟩
  | messageReady => exact ⟨_, _, rfl⟩

theorem SourceOk.advance {bs : List UInt8} (hs : d.SourceOk pos n) (hle : bs.length ≤ n) :
    (d.advance bs).SourceOk (pos.add bs.length) (n - bs.length) := by
  rcases hs with hb | ⟨hn, hle'⟩ | ⟨hn, hone, hnil⟩
  · refine Or.inl fun hzc => ?_
    obtain ⟨h1, h2, h3⟩ := hb (by simpa using hzc)
    simp only [Ptr.add_block, Ptr.add_off, advance_alloc]
    exact ⟨h1, by omega, by omega⟩
  · exact Or.inr (Or.inl ⟨by simpa using hn, by simp; omega⟩)
  · exact Or.inr (Or.inr ⟨by simpa using hn, by simp; omega, by omega⟩)

/-- Only a message that is complete can have been read straight to its place. -/
theorem SourceOk.inBuffer (hs : d.SourceOk pos n) (hz : d.toRead = 0)
    (hn : d.next ≠ .messageReady) : d.InBuffer pos n := by
  rcases hs with hb | ⟨hn', -⟩ | ⟨-, hone, -⟩
  · exact hb
  · exact absurd hn' hn
  · omega

theorem SourceOk.runNext (hs : d.SourceOk pos n) (hz : d.toRead = 0)
    (hr : d.runNext mem pos = .ok (d', rc)) :
    d'.SourceOk pos n := by
  have hcfg := runNext_config hr
  rcases hs with hb | ⟨hn, hle⟩ | ⟨-, hone, -⟩
  · exact Or.inl (by simpa only [InBuffer, hcfg.zeroCopy, hcfg.buf, hcfg.maxSize] using hb)
  · simp only [V2Decoder.runNext, hn] at hr
    cases hr
    exact Or.inr (Or.inr ⟨rfl, rfl, by omega⟩)
  · omega

/-! ### Where the messages on received memory are -/

/-- The messages on received memory keep out of the way of what is received next: those
on the current buffer lie behind the address that has been reached, and those that
share a buffer with the message in progress lie below it. -/
structure Apart (held : List Msg) (d : V2Decoder) (pos : Ptr) : Prop where
  home : ∀ m ∈ d.inProgress :: held, ∀ st, m.storage = some st → st.data.block = .heap st.hint
  behind : pos.block = .heap d.alloc.buf → ∀ m ∈ d.inProgress :: held, ∀ st,
    m.storage = some st → st.hint = d.alloc.buf → st.data.off + m.size ≤ pos.off
  below : d.next = .messageReady → ∀ m ∈ held, ∀ st, m.storage = some st →
    d.readPos.block = .heap st.hint → st.data.off + m.size + d.inProgress.size ≤ d.readPos.off

theorem advance_apart (bs : List UInt8)
    (h : d.Apart held pos) : (d.advance bs).Apart held (pos.add bs.length) := by
  have hstorage : (d.advance bs).inProgress.storage = d.inProgress.storage := by
    unfold advance
    cases d.next <;> rfl
  have hsize : (d.advance bs).inProgress.size ≤ d.inProgress.size + bs.length := by
    unfold advance
    cases d.next <;> simp [Msg.size]
  refine ⟨?_, ?_, ?_⟩
  · intro m hm st hst
    rcases mem_cons.mp hm with rfl | hm
    · exact h.home _ (by simp) st (hstorage ▸ hst)
    · exact h.home m (by simp [hm]) st hst
  · intro hpos m hm st hst hbuf
    rw [advance_alloc] at hpos hbuf
    rw [Ptr.add_off]
    rcases mem_cons.mp hm with rfl | hm
    · have := h.behind hpos _ (by simp) st (hstorage ▸ hst) hbuf
      omega
    · have := h.behind hpos m (by simp [hm]) st hst hbuf
      omega
  · intro hn m hm st hst hb
    rw [advance_next] at hn
    rw [advance_readPos] at hb ⊢
    have := h.below hn m hm st hst hb
    rw [Ptr.add_off]
    omega

theorem SizeReady.apart {k : Nat} (hS : SizeReady mem d n pos d' rc) (h : d.Apart held pos)
    (hm : d.MemOk mem held) (hpos : d.InBuffer pos k) (hn : d.next ≠ .messageReady) :
    d'.Apart held pos := by
  have hbuf := hS.config.buf
  -- A message without received memory is in nobody's way.
  have hnew : d'.inProgress.storage = none →
      (∀ m ∈ d'.inProgress :: held, ∀ st, m.storage = some st → m ∈ held) := by
    intro hnone m hm st hst
    rcases mem_cons.mp hm with rfl | hm
    · rw [hnone] at hst
      cases hst
    · exact hm
  have hfresh : d'.inProgress.storage = none →
      (d'.next = .messageReady → ∀ m ∈ held, ∀ st, m.storage = some st →
        d'.readPos.block = .heap st.hint →
        st.data.off + m.size + d'.inProgress.size ≤ d'.readPos.off) →
      d'.Apart held pos := by
    refine fun hnone hbelow => ⟨fun m hm st hst => ?_, fun hp m hm st hst hb => ?_, hbelow⟩
    · exact h.home m (by simp [hnew hnone m hm st hst]) st hst
    · rw [hbuf] at hp hb
      exact h.behind hp m (by simp [hnew hnone m hm st hst]) st hst hb
  cases hS with
  | tooLarge => exact h
  | noMemory alloc hinit => exact hfresh rfl fun hn' => absurd hn' hn
  | own hlim alloc m p hinit =>
    obtain ⟨-, hstorage, -, -⟩ := initSize_msg hinit
    refine hfresh hstorage fun _ m' hm' st hst hb => ?_
    -- The message is in a block of its own.
    have hown := initSize_ptr hinit st.hint hb
    rw [closeMsg_nextBlock] at hown
    have hlt := hm.counted.hint_lt m' (by simp [hm']) st.hint (by
      rw [Msg.hint_eq_storage, hst]
      rfl)
    omega
  | copied hlim hsmall =>
    refine hfresh rfl fun _ m' _ st _ hb => ?_
    cases hb
  | inPlace hlim hzc hbig hroom =>
    have hblock := (hpos hzc).1
    refine ⟨fun m hm st hst => ?_, fun hp m hm st hst hb => ?_, fun _ m hm st hst hb => ?_⟩
    · rcases mem_cons.mp hm with rfl | hm
      · cases hst
        exact hblock
      · exact h.home m (by simp [hm]) st hst
    · rcases mem_cons.mp hm with rfl | hm
      · cases hst
        exact Nat.le_refl _
      · rw [hbuf] at hb
        exact h.behind hblock m (by simp [hm]) st hst hb
    · have hb' : st.hint = d.alloc.buf := by
        have : pos.block = .heap st.hint := hb
        rw [hblock] at this
        exact (Block.heap.inj this).symm
      exact h.behind hblock m (by simp [hm]) st hst hb'

theorem runNext_apart (hr : d.runNext mem pos = .ok (d', rc)) (h : d.Apart held pos)
    (hm : d.MemOk mem held)
    (hpos : d.next ≠ .messageReady → d.InBuffer pos n) : d'.Apart held pos := by
  cases runNext_inv hr with
  | flags _ _ _ _ _ _ hnext => exact ⟨h.home, h.behind, fun hn => absurd hn hnext⟩
  | size hn _ _ _ hS => exact hS.apart h hm (hpos hn) hn
  | message => exact ⟨h.home, h.behind, nofun⟩

theorem decode_memOk {bytes : List UInt8} (h : d.MemOk mem held) (hap : d.Apart held pos)
    (hsrc : d.SourceOk pos bytes.length) (hdirect : pos = d.readPos → bytes.length ≤ d.toRead)
    (hsize : d.alloc.maxSize + atomicCounterSize < 2 ^ 64) :
    ∃ d' rest rc, d.decode mem pos bytes = .ok (d', rest, rc) ∧
      rest.length ≤ bytes.length ∧ d'.MemOk mem held ∧ SameConfig d d' ∧
      d'.Apart held (pos.add (bytes.length - rest.length)) := by
  let P : V2Decoder → Ptr → Nat → Prop :=
    fun e pos n => e.MemOk mem held ∧ e.Apart held pos ∧ e.SourceOk pos n ∧ SameConfig d e
  have hadv : ∀ e pos n bs, P e pos n → bs.length ≤ e.toRead → bs.length ≤ n →
      P (e.advance bs) (pos.add bs.length) (n - bs.length) := by
    rintro e pos n bs ⟨hm, ha, hs, hc⟩ - hle
    exact ⟨advance_memOk bs hm, advance_apart bs ha, hs.advance hle, hc.trans (advance_config e bs)⟩
  have hrun : ∀ e pos n, P e pos n → e.toRead = 0 →
      ∃ e' rc, e.runNext mem pos = .ok (e', rc) ∧ P e' pos n := by
    rintro e pos n ⟨hm, ha, hs, hc⟩ hz
    obtain ⟨e', rc, hr⟩ := runNext_ok mem hm.check pos
    exact ⟨e', rc, hr, runNext_memOk hr hm (hs.inBuffer hz) (by rw [hc.maxSize]; exact hsize),
      runNext_apart hr ha hm (hs.inBuffer hz), hs.runNext hz hr, hc.trans (runNext_config hr)⟩
  obtain ⟨d', rest, rc, hdec, hle, ⟨hmem, hap', -, hcfg⟩, -⟩ :=
    decode_rule hadv hrun ⟨h, hap, hsrc, .refl d⟩ hdirect
  exact ⟨d', rest, rc, hdec, hle, hmem, hcfg, hap'⟩

/-- A buffer taken by `allocate` is not the one the decoder still writes to: a message
on the old buffer keeps that one in use. -/
theorem allocate_memOk {a : Allocator} (h : d.MemOk mem held) (ha : d.alloc.allocate mem = .ok a) :
    MemOk mem held { d with alloc := a } ∧ a.maxSize = d.alloc.maxSize ∧ a.contents = 0 ∧
      d.readPos.block ≠ .heap a.buf ∧ ∀ m ∈ d.inProgress :: held, m.hint ≠ some a.buf := by
  obtain ⟨hc, hmax, hzero, hnext, hfree, hbuf⟩ := allocate_spec h.counted ha
  have hr := h.readPos
  have hne : d.readPos.block ≠ .heap a.buf := by
    intro hb
    unfold ReadPosOk at hr
    cases hn : d.next with
    | messageReady =>
      simp only [hn] at hr
      obtain ⟨hlt, hhint⟩ := hr _ hb
      rcases hbuf with heq | ⟨heq, -⟩
      · exact hfree d.inProgress (by simp) (hhint heq)
      · omega
    | _ =>
      simp only [hn, hb] at hr
      cases hr
  refine ⟨⟨h.check, hc, ?_, h.inside⟩, hmax, hzero, hne, hfree⟩
  unfold ReadPosOk at hr ⊢
  cases hn : d.next with
  | messageReady =>
    simp only [hn] at hr ⊢
    refine fun b hb => ⟨Nat.lt_of_lt_of_le (hr b hb).1 hnext, ?_⟩
    rintro rfl
    exact absurd hb hne
  | _ => simpa [hn] using hr

theorem getBuffer_alloc {size : Nat} (h : d.getBuffer mem = .ok (d', pos, size)) :
    ∃ a, d.alloc.allocate mem = .ok a ∧ d' = { d with alloc := a } := by
  unfold getBuffer at h
  split at h
  · cases h
  · rename_i a ha
    dsimp only at h
    split at h <;> (cases h; exact ⟨a, ha, rfl⟩)

/-- On a buffer taken by `allocate` there is no message yet. -/
theorem allocate_apart {a : Allocator} (h : d.Apart held pos) (pos' : Ptr)
    (hfree : ∀ m ∈ d.inProgress :: held, m.hint ≠ some a.buf) :
    Apart held { d with alloc := a } pos' := by
  refine ⟨h.home, fun _ m hm st hst hb => absurd ?_ (hfree m hm), h.below⟩
  rw [Msg.hint_eq_storage, hst, Option.map_some, hb]

/-- A message that has been taken out is one of those given away. -/
theorem takeMsg_memOk (h : d.MemOk mem held)
    (hn : d.next ≠ .messageReady) : d.takeMsg.MemOk mem (d.inProgress :: held) := by
  refine ⟨rfl, h.counted.cons_of_hint_none rfl, ?_, h.inside⟩
  have hr := h.readPos
  unfold ReadPosOk at hr ⊢
  cases hn' : d.next <;> simp_all [takeMsg]

theorem takeMsg_apart (h : d.Apart held pos)
    (hn : d.next ≠ .messageReady) : d.takeMsg.Apart (d.inProgress :: held) pos := by
  have hmem : ∀ m ∈ Msg.init :: d.inProgress :: held, ∀ st, m.storage = some st →
      m ∈ d.inProgress :: held := by
    intro m hm st hst
    rcases mem_cons.mp hm with rfl | hm
    · cases hst
    · exact hm
  exact ⟨fun m hm st hst => h.home m (hmem m hm st hst) st hst,
    fun hp m hm st hst => h.behind hp m (hmem m hm st hst) st hst, fun hn' => absurd hn' hn⟩

theorem closeMsg_memOk {m : Msg} {rest : List Msg} (h : d.MemOk mem held)
    (hp : held.Perm (m :: rest)) :
    MemOk mem rest { d with alloc := d.alloc.closeMsg m } := by
  have hc : d.alloc.Counted (m :: d.inProgress :: rest) :=
    h.counted.perm ((hp.cons d.inProgress).trans (List.Perm.swap _ _ _))
  refine ⟨h.check, closeMsg_counted hc, ?_, h.inside⟩
  have hr := h.readPos
  unfold ReadPosOk at hr ⊢
  cases hn : d.next <;> simpa [hn] using hr

theorem closeMsg_apart {m : Msg} {rest : List Msg} (h : d.Apart held pos) (hsub : rest ⊆ held) :
    Apart rest { d with alloc := d.alloc.closeMsg m } pos := by
  refine ⟨fun m' hm' => h.home m' (cons_subset_cons _ hsub hm'), ?_,
    fun hn m' hm' => h.below hn m' (hsub hm')⟩
  intro hp m' hm'
  rw [closeMsg_buf] at hp ⊢
  exact h.behind hp m' (cons_subset_cons _ hsub hm')

end V2Decoder

end ServerLink
