import ServerLink.Lib.Run
import ServerLink.Protocol.V2Encoder

/-!
# ServerLink.Protocol.EngineOutput

The output side of an engine (`stream_engine_base.cpp`): `start_write`, `handle_write`
and `restart_output` around the loop that pulls messages, encodes them and collects the
bytes of a batch. Where the messages come from is a parameter: `_next_msg` is a function
`next` on a state of type `σ`, which yields a message or fails with `EAGAIN`.

An asynchronous write takes any non-empty part of the bytes it was given when it was started.
That is for the stream to decide, so the bytes it takes are recorded when the write is completed
(`step`), from what `start_write` gave it, and `handle_write` learns their number only. I/O errors
are left out, so `_io_error` is never set.

The results are `handleWrite_ok` and `restartOutput_ok`; from them follows that the bytes
the stream takes are the frames of the messages pulled, whatever the batch size and
however the writes are completed, and that all of them are taken if the writes keep being
completed (`Sends.drain`).
-/

namespace ServerLink

open EncoderBase

structure EngineOutput (σ : Type) where
  /-- The bytes from `_outpos` on, `_outsize` of them. -/
  out : List UInt8
  encoder : EncoderBase
  outputStopped : Bool
  /-- What `_next_msg` works on. -/
  source : σ
  /-- The bytes that each write under way was given. -/
  writes : List (List UInt8)
  /-- What the stream has taken so far. -/
  written : List UInt8

namespace EngineOutput

variable {σ : Type}

def startWrite (s : EngineOutput σ) : EngineOutput σ :=
  if s.out.isEmpty then { s with outputStopped := true }
  else { s with outputStopped := false, writes := s.writes ++ [s.out] }

/-- A write is completed: the stream has taken the first `n` bytes of what it was given. -/
def completed (s : EngineOutput σ) (given : List UInt8) (rest : List (List UInt8)) (n : Nat) :
    EngineOutput σ :=
  { s with writes := rest, written := s.written ++ given.take n }

section Actions

variable (header : Msg → List UInt8) (next : σ → σ × Option Msg) (batch : Nat)

/-- The rest of a round of the loop, with a message in the encoder. The first batch goes
where the encoder says, the others behind it. -/
def encodeRound (e : EncoderBase) (out : Option (List UInt8)) : EncoderBase × List UInt8 :=
  let r := e.encode header (out.map fun o => batch - o.length)
  (r.1, out.getD [] ++ r.2)

/-- The loop that pulls as many messages as possible into a batch; `none` is the null
pointer in `_outpos`. -/
def batchLoop : Nat → EncoderBase → σ → Option (List UInt8) →
    Except Fault (EncoderBase × σ × List UInt8)
  | 0, e, st, out => .ok (e, st, out.getD [])
  | fuel + 1, e, st, out =>
    if (out.getD []).length < batch then
      if e.isEmpty then
        match next st with
        | (st, none) => .ok (e, st, out.getD [])
        | (st, some m) =>
          match e.loadMsg header m with
          | .error f => .error f
          | .ok e =>
            let r := encodeRound header batch e out
            if r.1.isEmpty then batchLoop fuel r.1 st (some r.2) else .ok (r.1, st, r.2)
      else
        let r := encodeRound header batch e out
        -- What does not fit, or is handed out as it is, ends the batch.
        if r.1.isEmpty then batchLoop fuel r.1 st (some r.2) else .ok (r.1, st, r.2)
    else .ok (e, st, out.getD [])

/-- Fill an empty batch. -/
def fill (fuel : Nat) (s : EngineOutput σ) : Except Fault (EngineOutput σ) :=
  match batchLoop header next batch fuel s.encoder s.source none with
  | .error f => .error f
  | .ok (e, st, out) => .ok { s with encoder := e, source := st, out := out }

/-- `handle_write`: the stream has taken `n` bytes. -/
def handleWrite (fuel : Nat) (s : EngineOutput σ) (n : Nat) : Except Fault (EngineOutput σ) :=
  let s := { s with out := s.out.drop n }
  if !s.out.isEmpty then .ok s.startWrite
  else
    match fill header next batch fuel s with
    | .error f => .error f
    | .ok s => if !s.out.isEmpty then .ok s.startWrite else .ok { s with outputStopped := true }

def restartOutput (fuel : Nat) (s : EngineOutput σ) : Except Fault (EngineOutput σ) :=
  if s.outputStopped then
    match (if s.out.isEmpty then fill header next batch fuel s else .ok s) with
    | .error f => .error f
    | .ok s => if !s.out.isEmpty then .ok s.startWrite else .ok s
  else .ok s

end Actions

/-! ### What is pulled -/

/-- A number of calls of `_next_msg`, the last of which may have failed, and the messages
they yielded. -/
inductive Pulls (next : σ → σ × Option Msg) : σ → List Msg → σ → Prop
  | stop (st : σ) : Pulls next st [] st
  | failed {st st' : σ} (h : next st = (st', none)) : Pulls next st [] st'
  | pulled {st st1 st' : σ} {m : Msg} {ms : List Msg} (h : next st = (st1, some m))
      (hrest : Pulls next st1 ms st') : Pulls next st (m :: ms) st'

/-- Nothing can be pulled any more: the last call of `_next_msg` failed. -/
def Exhausted (next : σ → σ × Option Msg) (st : σ) : Prop := ∃ st0, next st0 = (st, none)

/-! ### One batch -/

section Batch

variable (header : Msg → List UInt8) {next : σ → σ × Option Msg} {batch : Nat}

/-- One round appends to the batch what it takes from the encoder. -/
theorem encodeRound_spec {e : EncoderBase} {out : Option (List UInt8)} (hI : e.Inv)
    (hb : e.bufSize = batch) (hroom : (out.getD []).length < batch) :
    (encodeRound header batch e out).1.Inv ∧ (encodeRound header batch e out).1.bufSize = batch ∧
      (encodeRound header batch e out).2 ++ (encodeRound header batch e out).1.pending =
        out.getD [] ++ e.pending ∧
      ((encodeRound header batch e out).1.inProgress = none ∨
        (encodeRound header batch e out).2 ≠ []) := by
  obtain ⟨hI', hb', hp⟩ := encode_spec header (out.map fun o => batch - o.length) hI
  have hprog := encode_progress header (out.map fun o => batch - o.length) hI (by
    cases out with
    | none => simpa [hb] using hroom
    | some o =>
      simp only [Option.getD_some] at hroom
      simp only [Option.map_some, Option.getD_some]
      omega)
  refine ⟨hI', hb'.trans hb, ?_, ?_⟩
  · rw [encodeRound, List.append_assoc, hp]
  · rcases hprog with hnone | hne
    · exact Or.inl hnone
    · exact Or.inr (by simp [encodeRound, hne])

/-- **The batching loop.** With every message that is pulled its whole frame goes into the
batch or stays pending in the encoder, and the batch is empty only if nothing is pending
and nothing could be pulled. The fuel is enough when `μ` bounds what can be pulled. -/
theorem batchLoop_spec (μ : σ → Nat) (P : σ → Prop)
    (hμ : ∀ st st' m, P st → next st = (st', some m) → P st' ∧ m.hasData = true ∧ μ st' < μ st) :
    ∀ (fuel : Nat) (e : EncoderBase) (st : σ) (out : Option (List UInt8)), e.Inv →
      e.bufSize = batch → 0 < batch → P st →
      (if e.inProgress = none then μ st + 1 else μ st + 2) ≤ fuel →
      ∃ e' st' out' ms, batchLoop header next batch fuel e st out = .ok (e', st', out') ∧
        e'.Inv ∧ e'.bufSize = batch ∧ Pulls next st ms st' ∧
        out' ++ e'.pending = out.getD [] ++ e.pending ++ ms.flatMap (frameBytes header) ∧
        (out' = [] → e'.inProgress = none ∧ Exhausted next st') := by
  intro fuel
  induction fuel with
  | zero =>
    intro e st out _ _ _ _ hfuel
    split at hfuel <;> omega
  | succ fuel ih =>
    intro e st out hI hb hbatch hP hfuel
    rw [batchLoop]
    by_cases hroom : (out.getD []).length < batch
    swap
    · -- The batch is full.
      rw [if_neg hroom]
      refine ⟨e, st, _, [], rfl, hI, hb, .stop st, by simp, fun hnil => ?_⟩
      rw [hnil] at hroom
      exact absurd hbatch hroom
    rw [if_pos hroom]
    -- A round with a message in the encoder, and what follows it.
    have hround : ∀ {e1 : EncoderBase} {st1 : σ}, e1.Inv → e1.bufSize = batch → P st1 →
        μ st1 + 1 ≤ fuel →
        ∃ e' st' out' ms,
          (if (encodeRound header batch e1 out).1.isEmpty then
            batchLoop header next batch fuel (encodeRound header batch e1 out).1 st1
              (some (encodeRound header batch e1 out).2)
          else .ok ((encodeRound header batch e1 out).1, st1,
            (encodeRound header batch e1 out).2)) = .ok (e', st', out') ∧
          e'.Inv ∧ e'.bufSize = batch ∧ Pulls next st1 ms st' ∧
          out' ++ e'.pending = out.getD [] ++ e1.pending ++ ms.flatMap (frameBytes header) ∧
          (out' = [] → e'.inProgress = none ∧ Exhausted next st') := by
      intro e1 st1 hI1 hb1 hP1 hle
      obtain ⟨hI2, hb2, hp2, hprog⟩ := encodeRound_spec header hI1 hb1 hroom
      generalize encodeRound header batch e1 out = r at hI2 hb2 hp2 hprog ⊢
      by_cases hempty : r.1.isEmpty = true
      · rw [if_pos hempty]
        have hnone : r.1.inProgress = none := by simpa [isEmpty] using hempty
        obtain ⟨e', st', out', ms, h, hI', hb', hpull, hbytes, hstop⟩ :=
          ih r.1 st1 (some r.2) hI2 hb2 hbatch hP1 (by rw [if_pos hnone]; exact hle)
        refine ⟨e', st', out', ms, h, hI', hb', hpull, ?_, hstop⟩
        rw [hbytes, Option.getD_some, hp2]
      · rw [if_neg hempty]
        refine ⟨r.1, st1, r.2, [], rfl, hI2, hb2, .stop st1, by simpa using hp2, fun hnil => ?_⟩
        rcases hprog with hnone | hne
        · exact absurd (by simp [isEmpty, hnone]) hempty
        · exact absurd hnil hne
    by_cases hempty : e.isEmpty = true
    swap
    · rw [if_neg hempty]
      have hsome : e.inProgress ≠ none := by simpa [isEmpty] using hempty
      rw [if_neg hsome] at hfuel
      exact hround hI hb hP (by omega)
    rw [if_pos hempty]
    have hnone : e.inProgress = none := by simpa [isEmpty] using hempty
    rw [if_pos hnone] at hfuel
    have hpend : e.pending = [] := by simp [pending, hnone]
    cases hn : next st with
    | mk st1 r =>
      cases r with
      | none => exact ⟨e, st1, _, [], rfl, hI, hb, .failed hn, by simp, fun _ => ⟨hnone, st, hn⟩⟩
      | some m =>
        obtain ⟨hP1, hdata, hlt⟩ := hμ st st1 m hP hn
        obtain ⟨e1, hload, hI1, -, hb1, hp1⟩ :=
          loadMsg_ok header hI hnone hdata
        simp only [hload]
        obtain ⟨e', st', out', ms, h, hI', hb', hpull, hbytes, hstop⟩ :=
          hround hI1 (hb1.trans hb) hP1 (by omega)
        refine ⟨e', st', out', m :: ms, h, hI', hb', .pulled hn hpull, ?_, hstop⟩
        rw [hbytes, hp1, hpend, List.append_nil, List.flatMap_cons, List.append_assoc]

end Batch

/-! ### The write operations -/

/-- What holds between two calls: a write is under way unless output is stopped, and
then every byte that was pulled has been taken by the stream. -/
structure Inv (batch : Nat) (s : EngineOutput σ) : Prop where
  encoder : s.encoder.Inv
  bufSize : s.encoder.bufSize = batch
  stopped : s.outputStopped = true → s.out = [] ∧ s.encoder.inProgress = none ∧ s.writes = []
  running : s.outputStopped = false → s.out ≠ [] ∧ s.writes = [s.out]

/-- What has been pulled so far: taken by the stream, under way, or in the encoder. -/
def produced (s : EngineOutput σ) : List UInt8 := s.written ++ s.out ++ s.encoder.pending

section Operations

variable (header : Msg → List UInt8) {next : σ → σ × Option Msg} {batch : Nat}
  {μ : σ → Nat} {P : σ → Prop}

variable {s : EngineOutput σ} {fuel : Nat}

/-- What an operation of the output side does: it pulls some messages, adds their frames
to what is produced, and stops only if nothing could be pulled. -/
structure Does (header : Msg → List UInt8) (next : σ → σ × Option Msg) (batch : Nat)
    (s : EngineOutput σ) (ms : List Msg) (s' : EngineOutput σ) : Prop where
  inv : s'.Inv batch
  pulls : Pulls next s.source ms s'.source
  produced : s'.produced = s.produced ++ ms.flatMap (frameBytes header)

theorem startWrite_inv (hI : s.encoder.Inv) (hb : s.encoder.bufSize = batch) (hout : s.out ≠ [])
    (hw : s.writes = []) : s.startWrite.Inv batch := by
  unfold startWrite
  rw [if_neg (by simpa using hout)]
  exact ⟨hI, hb, by simp, fun _ => ⟨hout, by simp [hw]⟩⟩

@[simp] theorem startWrite_produced (s : EngineOutput σ) : s.startWrite.produced = s.produced := by
  unfold startWrite
  split <;> rfl

@[simp] theorem startWrite_source (s : EngineOutput σ) : s.startWrite.source = s.source := by
  unfold startWrite
  split <;> rfl

@[simp] theorem startWrite_written (s : EngineOutput σ) : s.startWrite.written = s.written := by
  unfold startWrite
  split <;> rfl

theorem startWrite_running (hout : s.out ≠ []) : s.startWrite.outputStopped = false := by
  unfold startWrite
  rw [if_neg (by simpa using hout)]

/-- What filling an empty batch does: `Q` says what becomes of the source and which bytes
are added, `E` what holds if nothing was added. -/
structure Fills (batch : Nat) (Q : σ → List UInt8 → σ → Prop) (E : σ → Prop)
    (s s' : EngineOutput σ) : Prop where
  encoder : s'.encoder.Inv
  bufSize : s'.encoder.bufSize = batch
  bytes : ∃ bytes, s'.produced = s.produced ++ bytes ∧ Q s.source bytes s'.source
  stop : s'.out = [] → s'.encoder.inProgress = none ∧ E s'.source
  writes : s'.writes = s.writes
  stopped : s'.outputStopped = s.outputStopped
  written : s'.written = s.written

/-- What an operation does: it fills a batch, or goes on writing the one it has. -/
structure Operates (batch : Nat) (Q : σ → List UInt8 → σ → Prop) (E : σ → Prop)
    (s s' : EngineOutput σ) : Prop where
  inv : s'.Inv batch
  bytes : (s'.source = s.source ∧ s'.produced = s.produced ∧ s'.outputStopped = false) ∨
    ∃ bytes, s'.produced = s.produced ++ bytes ∧ Q s.source bytes s'.source
  stop : s'.outputStopped = true → E s'.source

variable {Q : σ → List UInt8 → σ → Prop} {E : σ → Prop}

/-- After a batch was filled a write is started, unless nothing came. -/
theorem Fills.operates {s1 : EngineOutput σ} (h : Fills batch Q E s s1) (hw : s1.writes = []) :
    Operates batch Q E s
      (if !s1.out.isEmpty then s1.startWrite else { s1 with outputStopped := true }) := by
  obtain ⟨bytes, hprod, hQ⟩ := h.bytes
  by_cases hempty : s1.out = []
  · rw [if_neg (by simp [hempty])]
    obtain ⟨hnone, hE⟩ := h.stop hempty
    exact ⟨⟨h.encoder, h.bufSize, fun _ => ⟨hempty, hnone, hw⟩, by simp⟩,
      Or.inr ⟨bytes, hprod, hQ⟩, fun _ => hE⟩
  rw [if_pos (by simpa using hempty)]
  refine ⟨startWrite_inv h.encoder h.bufSize hempty hw, Or.inr ⟨bytes, ?_, ?_⟩, fun hstop => ?_⟩
  · rw [startWrite_produced, hprod]
  · rw [startWrite_source]
    exact hQ
  · rw [startWrite_running hempty] at hstop
    cases hstop

/-- **`handle_write`**, from what filling a batch does, when the only write is completed. -/
theorem handleWrite_of_fill (h : s.Inv batch) (n : Nat)
    (hfill : ∀ s0 : EngineOutput σ, s0.encoder = s.encoder → s0.source = s.source → s0.out = [] →
      ∃ s1, fill header next batch fuel s0 = .ok s1 ∧ Fills batch Q E s0 s1) :
    ∃ s', handleWrite header next batch fuel (s.completed s.out [] n) n = .ok s' ∧
      Operates batch Q E s s' ∧ s'.written = s.written ++ s.out.take n := by
  have hcut : s.written ++ s.out.take n ++ s.out.drop n = s.written ++ s.out := by
    rw [List.append_assoc, List.take_append_drop]
  rw [handleWrite, completed]
  by_cases hrest : s.out.drop n = []
  swap
  · rw [if_pos (by simpa using hrest)]
    refine ⟨_, rfl, ⟨startWrite_inv h.encoder h.bufSize hrest rfl, Or.inl ⟨?_, ?_, ?_⟩,
      fun hstop => ?_⟩, ?_⟩
    · rw [startWrite_source]
    · rw [startWrite_produced]
      simp only [produced, hcut]
    · exact startWrite_running hrest
    · rw [startWrite_running hrest] at hstop
      cases hstop
    · rw [startWrite_written]
  rw [if_neg (by simp [hrest])]
  obtain ⟨s1, hs1, hf⟩ := hfill { s with
    written := s.written ++ s.out.take n, out := s.out.drop n, writes := [] } rfl rfl hrest
  have hop := hf.operates hf.writes
  have hproduced : ({ s with
      written := s.written ++ s.out.take n, out := s.out.drop n,
      writes := [] } : EngineOutput σ).produced = s.produced := by
    simp only [produced, hcut]
  have hwritten : ∀ t : EngineOutput σ,
      (if !s1.out.isEmpty then .ok s1.startWrite else .ok { s1 with outputStopped := true } :
        Except Fault (EngineOutput σ)) = .ok t → t.written = s1.written := by
    intro t ht
    split at ht
    · rw [← Except.ok.inj ht, startWrite_written]
    · rw [← Except.ok.inj ht]
  rw [hs1]
  refine ⟨_, (apply_ite Except.ok _ _ _).symm, ⟨hop.inv, ?_, hop.stop⟩, ?_⟩
  · have hbytes := hop.bytes
    rw [hproduced] at hbytes
    exact hbytes
  · rw [hwritten _ (apply_ite Except.ok _ _ _).symm, hf.written]

/-- **`restart_output`**, from what filling a batch does. -/
theorem restartOutput_of_fill (h : s.Inv batch)
    (hfill : s.out = [] → ∃ s1, fill header next batch fuel s = .ok s1 ∧ Fills batch Q E s s1) :
    ∃ s', restartOutput header next batch fuel s = .ok s' ∧ Operates batch Q E s s' ∧
      s'.written = s.written := by
  rw [restartOutput]
  cases hst : s.outputStopped with
  | false =>
    exact ⟨s, by simp, ⟨h, Or.inl ⟨rfl, rfl, hst⟩, fun hstop => by rw [hst] at hstop; cases hstop⟩,
      rfl⟩
  | true =>
    obtain ⟨hout, -, hw⟩ := h.stopped hst
    obtain ⟨s1, hs1, hf⟩ := hfill hout
    have hop := hf.operates (hf.writes.trans hw)
    have hstopped : { s1 with outputStopped := true } = s1 := by rw [← hst, ← hf.stopped]
    rw [hstopped] at hop
    rw [if_pos rfl, if_pos (by simpa using hout), hs1]
    refine ⟨_, (apply_ite Except.ok _ _ _).symm, hop, ?_⟩
    split
    · rw [startWrite_written, hf.written]
    · exact hf.written

theorem fill_spec
    (hμ : ∀ st st' m, P st → next st = (st', some m) → P st' ∧ m.hasData = true ∧ μ st' < μ st)
    (hI : s.encoder.Inv) (hb : s.encoder.bufSize = batch) (hbatch : 0 < batch) (hP : P s.source)
    (hout : s.out = []) (hfuel : μ s.source + 2 ≤ fuel) :
    ∃ s', fill header next batch fuel s = .ok s' ∧
      Fills batch (fun st bytes st' => ∃ ms, Pulls next st ms st' ∧
        bytes = ms.flatMap (frameBytes header)) (Exhausted next) s s' := by
  obtain ⟨e, st, out, ms, h, hI', hb', hpull, hbytes, hstop⟩ :=
    batchLoop_spec header μ P hμ fuel s.encoder s.source none hI hb hbatch hP (by split <;> omega)
  refine ⟨{ s with encoder := e, source := st, out := out }, by rw [fill, h], hI', hb',
    ⟨_, ?_, ms, hpull, rfl⟩, hstop, rfl, rfl, rfl⟩
  simp only [Option.getD_none, List.nil_append] at hbytes
  simp only [EngineOutput.produced, hout, List.append_nil, List.append_assoc, hbytes]

theorem Operates.does {s' : EngineOutput σ}
    (h : Operates batch (fun st bytes st' => ∃ ms, Pulls next st ms st' ∧
      bytes = ms.flatMap (frameBytes header)) E s s') :
    ∃ ms, Does header next batch s ms s' := by
  rcases h.bytes with ⟨hsource, hprod, -⟩ | ⟨bytes, hprod, ms, hpull, rfl⟩
  · exact ⟨[], h.inv, by rw [hsource]; exact .stop _, by simpa using hprod⟩
  · exact ⟨ms, h.inv, hpull, hprod⟩

/-- `handle_write` over messages that can be pulled: output stops only when everything
pulled is written and nothing more could be pulled. -/
theorem handleWrite_ok
    (hμ : ∀ st st' m, P st → next st = (st', some m) → P st' ∧ m.hasData = true ∧ μ st' < μ st)
    (h : s.Inv batch) (hbatch : 0 < batch) (hP : P s.source) (n : Nat)
    (hfuel : μ s.source + 2 ≤ fuel) :
    ∃ s' ms, handleWrite header next batch fuel (s.completed s.out [] n) n = .ok s' ∧
      Does header next batch s ms s' ∧ (s'.outputStopped = true → Exhausted next s'.source) ∧
      s'.written = s.written ++ s.out.take n := by
  have hfill : ∀ s0 : EngineOutput σ, s0.encoder = s.encoder → s0.source = s.source → s0.out = [] →
      _ := fun s0 he hsrc hout =>
    fill_spec header hμ (he ▸ h.encoder) (he ▸ h.bufSize) hbatch (hsrc ▸ hP) hout
      (show μ s0.source + 2 ≤ fuel by rw [hsrc]; exact hfuel)
  obtain ⟨s', hs, hop, hwritten⟩ := handleWrite_of_fill header h n hfill
  obtain ⟨ms, hdoes⟩ := hop.does
  exact ⟨s', ms, hs, hdoes, hop.stop, hwritten⟩

/-- `restart_output` over messages that can be pulled. -/
theorem restartOutput_ok
    (hμ : ∀ st st' m, P st → next st = (st', some m) → P st' ∧ m.hasData = true ∧ μ st' < μ st)
    (h : s.Inv batch) (hbatch : 0 < batch) (hP : P s.source) (hfuel : μ s.source + 2 ≤ fuel) :
    ∃ s' ms, restartOutput header next batch fuel s = .ok s' ∧ Does header next batch s ms s' ∧
      (s'.outputStopped = true → Exhausted next s'.source) ∧ s'.written = s.written := by
  obtain ⟨s', hs, hop, hwritten⟩ := restartOutput_of_fill header h fun hout =>
    fill_spec header hμ h.encoder h.bufSize hbatch hP hout hfuel
  obtain ⟨ms, hdoes⟩ := hop.does
  exact ⟨s', ms, hs, hdoes, hop.stop, hwritten⟩

end Operations

/-! ### Messages from the session -/

/-- `pull_and_encode` on the messages that the session has for the engine. -/
def pullAndEncode : List Msg → List Msg × Option Msg
  | [] => ([], none)
  | m :: queue => (queue, some m)

/-- What can happen to the output side after the handshake. -/
inductive Event
  /-- The socket has a message for the engine. -/
  | available (m : Msg)
  /-- The session calls `restart_output`. -/
  | restart
  /-- The stream has taken `n` bytes of the write under way, at least one. -/
  | written (n : Nat)
  deriving Repr, DecidableEq

/-- A completion takes the first of the writes under way, and takes place only if there is one. -/
def step (header : Msg → List UInt8) (batch : Nat) (s : EngineOutput (List Msg)) :
    Event → Except Fault (EngineOutput (List Msg))
  | .available m => .ok { s with source := s.source ++ [m] }
  | .restart => restartOutput header pullAndEncode batch (s.source.length + 2) s
  | .written n =>
    match s.writes with
    | [] => .ok s
    | given :: rest =>
      let n := max 1 (min n given.length)
      handleWrite header pullAndEncode batch (s.source.length + 2) (s.completed given rest n) n

/-- The messages that become available, in order. -/
def Event.messages : Event → List Msg
  | .available m => [m]
  | _ => []

/-- An engine that has nothing to write yet. -/
def idle (batch : Nat) : EngineOutput (List Msg) where
  out := []
  encoder := new batch
  outputStopped := true
  source := []
  writes := []
  written := []

theorem idle_inv (batch : Nat) : (idle batch).Inv batch :=
  ⟨new_inv batch, rfl, fun _ => ⟨rfl, rfl, rfl⟩, by simp [idle]⟩

theorem Pulls.queue {queue queue' ms : List Msg} (h : Pulls pullAndEncode queue ms queue') :
    queue = ms ++ queue' := by
  induction h with
  | stop => rfl
  | @failed q q' h =>
    cases q with
    | nil => cases h; rfl
    | cons m q => cases h
  | @pulled q q1 q' m ms h _ ih =>
    cases q with
    | nil => cases h
    | cons m' q =>
      cases h
      rw [ih]
      rfl

theorem Exhausted.queue {queue : List Msg} (h : Exhausted pullAndEncode queue) : queue = [] := by
  obtain ⟨q, hq⟩ := h
  cases q with
  | nil => cases hq; rfl
  | cons m q => cases hq

theorem pullAndEncode_pulls (queue queue' : List Msg) (m : Msg)
    (hdata : ∀ m ∈ queue, m.hasData = true) (h : pullAndEncode queue = (queue', some m)) :
    (∀ m ∈ queue', m.hasData = true) ∧ m.hasData = true ∧ queue'.length < queue.length := by
  cases queue with
  | nil => cases h
  | cons m' q =>
    cases h
    exact ⟨fun x hx => hdata x (by simp [hx]), hdata m (by simp), by simp⟩

section Runs

variable {batch : Nat} (header : Msg → List UInt8)
variable {start : List UInt8} {all : List Msg} {s : EngineOutput (List Msg)}

/-- The output side in the middle of a run: what it has pulled, out of all the messages
there have been, and what it has made of them. -/
structure Sends (batch : Nat) (start : List UInt8) (all : List Msg)
    (s : EngineOutput (List Msg)) : Prop where
  inv : s.Inv batch
  data : ∀ m ∈ s.source, m.hasData = true
  bytes : ∃ pulled, all = pulled ++ s.source ∧
    s.produced = start ++ pulled.flatMap (frameBytes header)

/-- An operation that pulls messages goes on with what it has. -/
theorem Sends.does {ms : List Msg} {s s' : EngineOutput (List Msg)}
    (h : Sends header batch start all s) (hd : Does header pullAndEncode batch s ms s') :
    Sends header batch start all s' := by
  obtain ⟨pulled, hall, hbytes⟩ := h.bytes
  have hq := hd.pulls.queue
  refine ⟨hd.inv, fun m hm => h.data m (by rw [hq]; exact List.mem_append_right _ hm),
    pulled ++ ms, ?_, ?_⟩
  · rw [hall, hq, List.append_assoc]
  · rw [hd.produced, hbytes, List.flatMap_append, List.append_assoc]

/-- No write is completed when none is under way. -/
theorem Sends.step_stopped (h : Sends header batch start all s)
    (hst : s.outputStopped = true) (n : Nat) :
    step header batch s (.written n) = .ok s := by
  rw [EngineOutput.step, (h.inv.stopped hst).2.2]

/-- Each completion moves at least one byte to the stream, and output stops only when there is no
message. -/
theorem Sends.step_running (hbatch : 0 < batch)
    (h : Sends header batch start all s) (hrun : s.outputStopped = false) (n : Nat) :
    ∃ s', step header batch s (.written n) = .ok s' ∧ Sends header batch start all s' ∧
      (s'.outputStopped = true → s'.source = []) ∧ s.written.length < s'.written.length := by
  obtain ⟨hout, hw⟩ := h.inv.running hrun
  obtain ⟨s', ms, hs, hd, hex, hwritten⟩ := handleWrite_ok header pullAndEncode_pulls h.inv hbatch
    h.data (max 1 (min n s.out.length)) (Nat.le_refl _)
  refine ⟨s', ?_, h.does header hd, fun hst => (hex hst).queue, ?_⟩
  · rw [EngineOutput.step, hw]
    exact hs
  · have hpos := List.length_pos_iff.mpr hout
    rw [hwritten, List.length_append, List.length_take]
    omega

/-- A step sends, or keeps for later, what the session has made available. -/
theorem Sends.step (hbatch : 0 < batch)
    (h : Sends header batch start all s) (ev : Event) (hev : ∀ m ∈ ev.messages, m.hasData = true) :
    ∃ s', step header batch s ev = .ok s' ∧ Sends header batch start (all ++ ev.messages) s' := by
  cases ev with
  | available m =>
    obtain ⟨pulled, hall, hbytes⟩ := h.bytes
    refine ⟨_, rfl, ⟨h.inv.encoder, h.inv.bufSize, h.inv.stopped, h.inv.running⟩, ?_, pulled, ?_,
      hbytes⟩
    · intro x hx
      rcases List.mem_append.mp hx with hx | hx
      · exact h.data x hx
      · exact hev x hx
    · rw [hall, Event.messages, List.append_assoc]
  | restart =>
    obtain ⟨s', ms, hs, hd, -⟩ := restartOutput_ok header pullAndEncode_pulls h.inv hbatch h.data
      (Nat.le_refl _)
    exact ⟨s', hs, by simpa [Event.messages] using h.does header hd⟩
  | written n =>
    cases hst : s.outputStopped with
    | true => exact ⟨s, h.step_stopped header hst n, by simpa [Event.messages] using h⟩
    | false =>
      obtain ⟨s', hs, h', -⟩ := h.step_running header hbatch hst n
      exact ⟨s', hs, by simpa [Event.messages] using h'⟩

theorem Sends.run (hbatch : 0 < batch) :
    ∀ {events : List Event} {all : List Msg} {s : EngineOutput (List Msg)},
      Sends header batch start all s →
      (∀ m ∈ events.flatMap Event.messages, m.hasData = true) →
      ∃ s', CheckedRun.run (EngineOutput.step header batch) s events = .ok s' ∧
        Sends header batch start (all ++ events.flatMap Event.messages) s' := by
  intro events
  induction events with
  | nil => intro all s h _; exact ⟨s, rfl, by simpa using h⟩
  | cons ev events ih =>
    intro all s h hdata
    obtain ⟨s1, hs, h1⟩ := h.step header hbatch ev fun m hm =>
      hdata m (List.mem_append_left _ hm)
    obtain ⟨s', hr, h'⟩ := ih h1 fun m hm => hdata m (List.mem_append_right _ hm)
    refine ⟨s', by rw [CheckedRun.run_cons_ok _ hs, hr], ?_⟩
    rw [List.flatMap_cons, ← List.append_assoc]
    exact h'

/-- When output is stopped and there is no message, everything has been taken. -/
theorem Sends.written_of_stopped (h : Sends header batch start all s)
    (hst : s.outputStopped = true) (hsource : s.source = []) :
    s.written = start ++ all.flatMap (frameBytes header) := by
  obtain ⟨pulled, hall, hbytes⟩ := h.bytes
  obtain ⟨hout, hnone, -⟩ := h.inv.stopped hst
  rw [hall, hsource, List.append_nil, ← hbytes]
  simp [produced, hout, pending, hnone]

/-- **Progress.** Once output has been restarted, as many completions as there are bytes left, of
whatever sizes, bring every message to the stream. -/
theorem Sends.drain (hbatch : 0 < batch) (ns : List Nat) :
    ∀ {s : EngineOutput (List Msg)}, Sends header batch start all s →
      (s.outputStopped = true → s.source = []) →
      (start ++ all.flatMap (frameBytes header)).length ≤ s.written.length + ns.length →
      ∃ s', CheckedRun.run (EngineOutput.step header batch) s (ns.map .written) = .ok s' ∧
        s'.outputStopped = true ∧ s'.written = start ++ all.flatMap (frameBytes header) := by
  induction ns with
  | nil =>
    intro s h hstop hlen
    have hst : s.outputStopped = true := by
      by_contra hrun
      have hout := List.length_pos_iff.mpr (h.inv.running (by simpa using hrun)).1
      obtain ⟨pulled, hall, hbytes⟩ := h.bytes
      rw [hall, List.flatMap_append, ← List.append_assoc, ← hbytes, produced] at hlen
      simp only [List.length_append, List.length_nil] at hlen
      omega
    exact ⟨s, rfl, hst, h.written_of_stopped header hst (hstop hst)⟩
  | cons n ns ih =>
    intro s h hstop hlen
    rw [List.length_cons] at hlen
    cases hst : s.outputStopped with
    | true =>
      -- Nothing is left, so the completions that follow do not take place.
      have hall := h.written_of_stopped header hst (hstop hst)
      obtain ⟨s', hr, h'⟩ := ih h hstop (by rw [hall]; omega)
      exact ⟨s', by rw [List.map_cons, CheckedRun.run_cons_ok _ (h.step_stopped header hst n), hr],
        h'⟩
    | false =>
      obtain ⟨s1, hs, h1, hstop1, hlt⟩ := h.step_running header hbatch hst n
      obtain ⟨s', hr, h'⟩ := ih h1 hstop1 (by omega)
      exact ⟨s', by rw [List.map_cons, CheckedRun.run_cons_ok _ hs, hr], h'⟩

end Runs

/-- **Outgoing bytes are exactly the encodings.** From any state after the handshake, in
which `s0.produced` has been pulled, and whatever happens then: no assertion fails; what
the stream has taken, what is under way and what is left in the encoder are together the
frames of the messages pulled, in the order in which they became available; there is
never more than one write under way, which was given the bytes that are left of the batch; when
output is stopped nothing that was pulled is left, and `restart_output` leaves it stopped only when
there is no message; and after `restart_output`, as many completions as there are bytes left bring
all the frames to the stream. -/
theorem outgoing_bytes {batch : Nat} (header : Msg → List UInt8) (hbatch : 0 < batch)
    {s0 : EngineOutput (List Msg)} (h0 : s0.Inv batch) {events : List Event}
    (hdata : ∀ m ∈ s0.source ++ events.flatMap Event.messages, m.hasData = true) :
    ∃ s pulled, CheckedRun.run (step header batch) s0 events = .ok s ∧
      s0.source ++ events.flatMap Event.messages = pulled ++ s.source ∧
      s.written ++ (s.out ++ s.encoder.pending) =
        s0.produced ++ pulled.flatMap (frameBytes header) ∧
      s.writes = (if s.outputStopped then [] else [s.out]) ∧
      (s.outputStopped = false → s.out ≠ []) ∧
      (s.outputStopped = true → s.out = [] ∧ s.encoder.pending = []) ∧
      (∃ s', step header batch s .restart = .ok s' ∧ (s'.outputStopped = true → s'.source = [])) ∧
      ∀ ns : List Nat,
        (s.out ++ s.encoder.pending ++ s.source.flatMap (frameBytes header)).length ≤ ns.length →
        ∃ s', CheckedRun.run (step header batch) s (.restart :: ns.map .written) = .ok s' ∧
          s'.outputStopped = true ∧ s'.written = s0.produced ++
            (s0.source ++ events.flatMap Event.messages).flatMap (frameBytes header) := by
  have hstart : Sends header batch s0.produced s0.source s0 :=
    ⟨h0, fun m hm => hdata m (List.mem_append_left _ hm), [], rfl, by simp⟩
  obtain ⟨s, hs, h⟩ := hstart.run header hbatch fun m hm => hdata m (List.mem_append_right _ hm)
  obtain ⟨pulled, hall, hbytes⟩ := h.bytes
  obtain ⟨s', ms, hs', hd, hex, hwritten⟩ :=
    restartOutput_ok header pullAndEncode_pulls h.inv hbatch h.data (Nat.le_refl _)
  refine ⟨s, pulled, hs, hall, ?_, ?_, fun hrun => (h.inv.running hrun).1, fun hst => ?_,
    ⟨s', hs', fun hst => (hex hst).queue⟩, fun ns hns => ?_⟩
  · rw [← hbytes, produced, List.append_assoc]
  · cases hst : s.outputStopped with
    | true => exact (h.inv.stopped hst).2.2
    | false => exact (h.inv.running hst).2
  · obtain ⟨hout, hnone, -⟩ := h.inv.stopped hst
    exact ⟨hout, by simp [pending, hnone]⟩
  · have hlen : (s0.produced ++ (s0.source ++ events.flatMap Event.messages).flatMap
        (frameBytes header)).length ≤ s'.written.length + ns.length := by
      rw [hall, List.flatMap_append, ← List.append_assoc, ← hbytes, hwritten, produced]
      simp only [List.length_append] at hns ⊢
      omega
    obtain ⟨t, ht, hdone⟩ := Sends.drain header hbatch ns (h.does header hd)
      (fun hst => (hex hst).queue) hlen
    exact ⟨t, by rw [CheckedRun.run_cons_ok _ hs', ht], hdone⟩

/-- Two messages through batches of four bytes; the second becomes available while the
first is being written. Six bytes are left then, so six more completions are enough. -/
theorem outgoing_bytes_two_messages :
    ∃ s, CheckedRun.run (step V2Encoder.header 4) (idle 4)
        [.available (Msg.initBuffer [1, 2, 3, 4, 5]), .restart, .written 1,
          .available (Msg.initBuffer [6]), .written 9] = .ok s ∧
      s.writes = (if s.outputStopped then [] else [s.out]) ∧
      ∃ s', CheckedRun.run (step V2Encoder.header 4) s
          (.restart :: [1, 2, 1, 1, 7, 1].map .written) = .ok s' ∧
        s'.outputStopped = true ∧ s'.written = [0, 5, 1, 2, 3, 4, 5, 0, 1, 6] := by
  obtain ⟨s, pulled, hs, -, -, hwrites, -, -, -, hdrain⟩ :=
    @outgoing_bytes 4 V2Encoder.header (by decide) _ (idle_inv 4)
      [.available (Msg.initBuffer [1, 2, 3, 4, 5]), .restart, .written 1,
        .available (Msg.initBuffer [6]), .written 9] (by decide)
  refine ⟨s, hs, hwrites, hdrain _ ?_⟩
  cases hs
  decide

end EngineOutput

end ServerLink
