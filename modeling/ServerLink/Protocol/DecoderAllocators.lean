import Mathlib.Algebra.Group.Int.Defs
import Mathlib.Logic.Function.Basic
import ServerLink.Msg.Msg

/-!
# ServerLink.Protocol.DecoderAllocators

The reference-counted receive buffer (`decoder_allocators.cpp`). A buffer is a block
of the heap that starts with an atomic counter, then `max_size` bytes for received
data, then an array of content records. The counter holds one reference for the
allocator, while it owns the buffer, and one for each message that refers to it.

`new` stands for the constructor together with the call of `allocate` in
`decoder_base_t`, so an allocator always owns a buffer. `resize` is left out: nothing
calls it, so `size ()` is `max_size`.
-/

namespace ServerLink

open Function

/-- The memory the receive path works in: the address of every block, and whether
`malloc` grants its `n`-th request, of the given size. -/
structure Memory where
  base : Block → Nat
  malloc : Nat → Nat → Bool
  /-- What `malloc` grants lies inside the address space. -/
  fits : ∀ n size, malloc n size = true → base (.heap n) + size ≤ 2 ^ 64

namespace Memory

def address (mem : Memory) (p : Ptr) : Nat := mem.base p.block + p.off

/-- `static_cast<size_t> (p - q)`. -/
def ptrDiff (mem : Memory) (p q : Ptr) : Nat :=
  (((mem.address p : Int) - mem.address q) % 2 ^ 64).toNat

theorem ptrDiff_same_block {mem : Memory} {p q : Ptr} (hb : p.block = q.block)
    (hle : q.off ≤ p.off) (hlt : p.off < 2 ^ 64) : mem.ptrDiff p q = p.off - q.off := by
  simp only [ptrDiff, address, hb]
  omega

/-- `malloc` grants the requests that are not larger than `limit`, and no others. -/
def Grants (mem : Memory) (limit : Nat) : Prop :=
  limit < 2 ^ 64 ∧ ∀ n size, mem.malloc n size = decide (size ≤ limit)

end Memory

/-- `shared_message_memory_allocator`, with the reference counters of all the buffers
it has allocated. -/
structure Allocator where
  /-- The heap block `m_buf` points to. -/
  buf : Nat
  maxSize : Nat
  /-- How many content records of the buffer are in use: `m_msg_content` is the first
  one behind them. -/
  contents : Nat
  /-- The number of requests made to `malloc` so far. -/
  nextBlock : Nat
  refcnt : Nat → Nat

namespace Allocator

variable {mem : Memory} {a a' : Allocator} {n : Nat} {m : Msg} {ms : List Msg}

/-- `sizeof (atomic_counter_t)`: four bytes, aligned as a pointer is. -/
def atomicCounterSize : Nat := 8

/-- `sizeof (msg_t::content_t)`. -/
def contentSize : Nat := 40

def maxCountersOf (maxSize : Nat) : Nat := (maxSize + Msg.maxVsmSize - 1) / Msg.maxVsmSize

def allocationSize (maxSize : Nat) : Nat :=
  maxSize + atomicCounterSize + maxCountersOf maxSize * contentSize

/-- `data ()`, the first byte for received data. -/
def data (a : Allocator) : Ptr := ⟨.heap a.buf, atomicCounterSize⟩

def size (a : Allocator) : Nat := a.maxSize

def new (mem : Memory) (bufsize nextBlock : Nat) : Except Fault Allocator :=
  if mem.malloc nextBlock (allocationSize bufsize) then
    .ok { buf := nextBlock, maxSize := bufsize, contents := 0, nextBlock := nextBlock + 1,
          refcnt := update (fun _ => 0) nextBlock 1 }
  else .error .allocBuffer

/-- `allocate`: give up the reference to the current buffer; it is used again when no
message refers to it, and otherwise a new one is allocated. -/
def allocate (mem : Memory) (a : Allocator) : Except Fault Allocator :=
  let c := a.refcnt a.buf - 1
  if c = 0 then
    .ok { a with contents := 0, refcnt := update a.refcnt a.buf 1 }
  else if mem.malloc a.nextBlock (allocationSize a.maxSize) then
    .ok { a with
      buf := a.nextBlock, contents := 0, nextBlock := a.nextBlock + 1
      refcnt := update (update a.refcnt a.buf c) a.nextBlock 1 }
  else .error .allocBuffer

def incRef (a : Allocator) : Allocator :=
  { a with refcnt := update a.refcnt a.buf (a.refcnt a.buf + 1) }

def advanceContent (a : Allocator) : Allocator := { a with contents := a.contents + 1 }

/-- `call_dec_ref` on the buffer `b`. -/
def callDecRef (a : Allocator) (b : Nat) : Allocator :=
  { a with refcnt := update a.refcnt b (a.refcnt b - 1) }

/-- What closing a message does to the receive buffers. -/
def closeMsg (a : Allocator) (m : Msg) : Allocator :=
  match m.hint with
  | none => a
  | some b => a.callDecRef b

/-- `msg_t::init_size`: the new message and where its data are stored. Data that do
not fit into the message go behind a content record of their own. -/
def initSize (mem : Memory) (a : Allocator) (n : Nat) : Allocator × Option (Msg × Ptr) :=
  if n ≤ Msg.maxVsmSize then (a, some ({ type := .vsm }, ⟨.vsmData, 0⟩))
  else if n < (contentSize + n) % 2 ^ 64 then
    ({ a with nextBlock := a.nextBlock + 1 },
      if mem.malloc a.nextBlock (contentSize + n) then
        some ({ type := .lmsg }, ⟨.heap a.nextBlock, contentSize⟩)
      else none)
  else (a, none)

@[simp] theorem closeMsg_data (a : Allocator) (m : Msg) : (a.closeMsg m).data = a.data := by
  unfold closeMsg
  split <;> rfl

@[simp] theorem closeMsg_size (a : Allocator) (m : Msg) : (a.closeMsg m).size = a.size := by
  unfold closeMsg
  split <;> rfl

@[simp] theorem closeMsg_buf (a : Allocator) (m : Msg) : (a.closeMsg m).buf = a.buf := by
  unfold closeMsg
  split <;> rfl

@[simp] theorem closeMsg_maxSize (a : Allocator) (m : Msg) :
    (a.closeMsg m).maxSize = a.maxSize := by
  unfold closeMsg
  split <;> rfl

@[simp] theorem closeMsg_contents (a : Allocator) (m : Msg) :
    (a.closeMsg m).contents = a.contents := by
  unfold closeMsg
  split <;> rfl

@[simp] theorem closeMsg_nextBlock (a : Allocator) (m : Msg) :
    (a.closeMsg m).nextBlock = a.nextBlock := by
  unfold closeMsg
  split <;> rfl

theorem initSize_config {r : Option (Msg × Ptr)} (h : a.initSize mem n = (a', r)) :
    a'.buf = a.buf ∧ a'.maxSize = a.maxSize ∧ a'.contents = a.contents := by
  unfold initSize at h
  split at h
  · cases h
    exact ⟨rfl, rfl, rfl⟩
  split at h
  · cases h
    exact ⟨rfl, rfl, rfl⟩
  · cases h
    exact ⟨rfl, rfl, rfl⟩

theorem initSize_msg {p : Ptr} (h : a.initSize mem n = (a', some (m, p))) :
    m.check = true ∧ m.storage = none ∧ m.data = [] ∧ m.flags = 0 := by
  unfold initSize at h
  split at h
  · cases h
    exact ⟨rfl, rfl, rfl, rfl⟩
  split at h
  · split at h
    · cases h
      exact ⟨rfl, rfl, rfl, rfl⟩
    · cases h
  · cases h

theorem initSize_ptr {p : Ptr} (h : a.initSize mem n = (a', some (m, p))) (b : Nat)
    (hb : p.block = .heap b) :
    a.nextBlock ≤ b ∧ b < a'.nextBlock := by
  unfold initSize at h
  split at h
  · cases h
    cases hb
  split at h
  · split at h
    · cases h
      cases hb
      exact ⟨Nat.le_refl _, Nat.lt_succ_self _⟩
    · cases h
  · cases h

/-- Whether `init_size` succeeds depends on the size only. -/
theorem initSize_isSome {limit : Nat} (hg : mem.Grants limit) (a : Allocator) (n : Nat) :
    (a.initSize mem n).2.isSome = true ↔ n ≤ Msg.maxVsmSize ∨ contentSize + n ≤ limit := by
  obtain ⟨hlt, hm⟩ := hg
  unfold initSize
  rw [hm]
  by_cases h1 : n ≤ Msg.maxVsmSize
  · simp [h1]
  rw [if_neg h1]
  by_cases h2 : n < (contentSize + n) % 2 ^ 64
  · rw [if_pos h2]
    by_cases h3 : contentSize + n ≤ limit
    · simp [h3]
    · simp [h1, h3]
  rw [if_neg h2]
  have h3 : ¬ contentSize + n ≤ limit := fun h => h2 (by
    rw [Nat.mod_eq_of_lt (by omega), contentSize]
    omega)
  simp [h1, h3]

/-! ### Reference counting -/

/-- The number of references the messages hold on the buffer `b`. -/
def holders (ms : List Msg) (b : Nat) : Nat := ms.countP (fun m => m.hint == some b)

/-- The counters are right: one for the allocator's own buffer, one for each open
message that refers to the buffer. All buffers in use have been allocated. -/
structure Counted (a : Allocator) (ms : List Msg) : Prop where
  refcnt_eq : ∀ b, a.refcnt b = (if b = a.buf then 1 else 0) + holders ms b
  buf_lt : a.buf < a.nextBlock
  hint_lt : ∀ m ∈ ms, ∀ b, m.hint = some b → b < a.nextBlock

theorem new_counted {k : Nat} (h : new mem n k = .ok a) :
    a.Counted [] ∧ a.maxSize = n ∧ a.contents = 0 ∧ mem.malloc k (allocationSize n) = true := by
  unfold new at h
  split at h
  · rename_i hm
    obtain rfl := Except.ok.inj h
    refine ⟨⟨fun b => ?_, Nat.lt_succ_self _, by simp⟩, rfl, rfl, hm⟩
    simp [update_apply, holders]
  · simp at h

theorem holders_cons (m : Msg) (ms : List Msg) (b : Nat) :
    holders (m :: ms) b = (if m.hint = some b then 1 else 0) + holders ms b := by
  simp only [holders, List.countP_cons, beq_iff_eq]
  omega

theorem holders_eq_zero {b : Nat} : holders ms b = 0 ↔ ∀ m ∈ ms, m.hint ≠ some b := by
  simp [holders, List.countP_eq_zero]

theorem allocate_spec (hc : a.Counted ms) (h : a.allocate mem = .ok a') :
    a'.Counted ms ∧ a'.maxSize = a.maxSize ∧ a'.contents = 0 ∧ a.nextBlock ≤ a'.nextBlock ∧
      (∀ m ∈ ms, m.hint ≠ some a'.buf) ∧
      (a'.buf = a.buf ∨ a'.buf = a.nextBlock ∧
        mem.malloc a.nextBlock (allocationSize a.maxSize) = true) := by
  have hown := hc.refcnt_eq a.buf
  rw [if_pos rfl] at hown
  unfold allocate at h
  dsimp only at h
  split at h
  · rename_i hz
    cases h
    have hnone : holders ms a.buf = 0 := by omega
    refine ⟨⟨fun b => ?_, hc.buf_lt, hc.hint_lt⟩, rfl, rfl, Nat.le_refl _,
      holders_eq_zero.mp hnone, Or.inl rfl⟩
    by_cases hb : b = a.buf
    · subst hb
      simp [hnone]
    · simp [hc.refcnt_eq b, hb]
  rename_i hz
  split at h
  · rename_i hm
    cases h
    -- The fresh block is referred to by nobody yet.
    have hfresh : ∀ m ∈ ms, m.hint ≠ some a.nextBlock := fun m hm' heq =>
      absurd (hc.hint_lt m hm' _ heq) (Nat.lt_irrefl _)
    have hzero := holders_eq_zero.mpr hfresh
    have hne : a.buf ≠ a.nextBlock := Nat.ne_of_lt hc.buf_lt
    refine ⟨⟨fun b => ?_, Nat.lt_succ_self _, fun m hm' b hb =>
      Nat.lt_succ_of_lt (hc.hint_lt m hm' b hb)⟩, rfl, rfl, Nat.le_succ _, hfresh,
      Or.inr ⟨rfl, hm⟩⟩
    by_cases hb : b = a.nextBlock
    · subst hb
      simp [hzero]
    by_cases hb' : b = a.buf
    · subst hb'
      simp [hne, hown]
    · simp [hc.refcnt_eq b, hb, hb']
  · simp at h

theorem closeMsg_refcnt (a : Allocator) (m : Msg) (b : Nat) :
    (a.closeMsg m).refcnt b = a.refcnt b - if m.hint = some b then 1 else 0 := by
  unfold closeMsg
  cases hm : m.hint with
  | none => simp
  | some c =>
    by_cases hcb : b = c
    · simp [callDecRef, hcb]
    · simp [callDecRef, hcb, Ne.symm hcb]

/-- Closing a message gives its reference back. -/
theorem closeMsg_counted (hc : a.Counted (m :: ms)) : (a.closeMsg m).Counted ms := by
  refine ⟨fun b => ?_, by simpa using hc.buf_lt, fun m' hm' => ?_⟩
  · have hb := hc.refcnt_eq b
    rw [holders_cons] at hb
    rw [closeMsg_refcnt, closeMsg_buf]
    omega
  · rw [closeMsg_nextBlock]
    exact hc.hint_lt m' (by simp [hm'])

/-- A message that refers to no receive buffer does not count. -/
theorem Counted.cons_of_hint_none (hc : a.Counted ms)
    (hm : m.hint = none) : a.Counted (m :: ms) := by
  refine ⟨fun b => ?_, hc.buf_lt, ?_⟩
  · rw [hc.refcnt_eq b, holders_cons, hm]
    simp
  intro m' hm' b hb
  rcases List.mem_cons.mp hm' with rfl | hm'
  · rw [hm] at hb
    cases hb
  · exact hc.hint_lt m' hm' b hb

/-- A new message on the allocator's buffer takes a reference. -/
theorem Counted.incRef (hc : a.Counted ms)
    (hm : m.hint = some a.buf) : a.advanceContent.incRef.Counted (m :: ms) := by
  refine ⟨fun b => ?_, hc.buf_lt, ?_⟩
  · rw [holders_cons, hm]
    by_cases hb : b = a.buf
    · subst hb
      have := hc.refcnt_eq a.buf
      simp only [Allocator.incRef, advanceContent, update_self, this, if_true]
      omega
    have hne : (some a.buf : Option Nat) ≠ some b := fun h => hb (Option.some.inj h).symm
    rw [if_neg hne, Nat.zero_add]
    have hkeep : a.advanceContent.incRef.refcnt b = a.refcnt b := update_of_ne hb _ _
    exact hkeep.trans (hc.refcnt_eq b)
  · intro m' hm' b hb
    rcases List.mem_cons.mp hm' with rfl | hm'
    · rw [hm] at hb
      cases hb
      exact hc.buf_lt
    · exact hc.hint_lt m' hm' b hb

theorem initSize_counted {r : Option (Msg × Ptr)} (h : a.initSize mem n = (a', r))
    (hc : a.Counted ms) :
    a'.Counted ms ∧ a.nextBlock ≤ a'.nextBlock := by
  unfold initSize at h
  split at h
  · cases h
    exact ⟨hc, Nat.le_refl _⟩
  split at h
  · cases h
    exact ⟨⟨hc.refcnt_eq, Nat.lt_succ_of_lt hc.buf_lt,
      fun m hm b hb => Nat.lt_succ_of_lt (hc.hint_lt m hm b hb)⟩, Nat.le_succ _⟩
  · cases h
    exact ⟨hc, Nat.le_refl _⟩

/-- The order of the open messages does not matter. -/
theorem Counted.perm {ms' : List Msg} (hc : a.Counted ms) (hp : ms.Perm ms') : a.Counted ms' :=
  ⟨fun b => by rw [hc.refcnt_eq b, holders, holders, hp.countP_eq], hc.buf_lt,
    fun m hm => hc.hint_lt m (hp.mem_iff.mpr hm)⟩

end Allocator

/-- A memory that grants every object of up to 2^63 bytes. -/
def largeMemory : Memory where
  base _ := 4096
  malloc _ size := decide (size ≤ 2 ^ 63)
  fits _ _ h := by
    have := of_decide_eq_true h
    omega

theorem largeMemory_grants : largeMemory.Grants (2 ^ 63) := ⟨by omega, fun _ _ => rfl⟩

end ServerLink
