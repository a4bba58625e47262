import ServerLink.Util.Err

/-!
# ServerLink.Msg.Msg

Messages (`msg.hpp`, `msg.cpp`). The content of a message is carried by value
(`data`); the type tag says where the source keeps it. A zero-copy message
(`type_zclmsg`) also records the received memory it refers to (`external`), which is
what the receive path reasons about. Group names are left out: no modelled function
reads them.
-/

namespace ServerLink

/-- A block of memory the receive path can point into: the engine's handshake buffer,
the decoder's header buffer, the inline data of the message in progress, or the
`n`-th block obtained from `malloc`. -/
inductive Block
  | handshakeBuffer
  | tmpbuf
  | vsmData
  | heap (n : Nat)
  deriving Repr, DecidableEq

/-- A pointer: a block and an offset in it. Two pointers are equal as in the source,
where pointers into different live objects never compare equal. -/
structure Ptr where
  block : Block
  off : Nat
  deriving Repr, DecidableEq

/-- Pointer arithmetic `p + n`. -/
def Ptr.add (p : Ptr) (n : Nat) : Ptr := { p with off := p.off + n }

@[simp] theorem Ptr.add_block (p : Ptr) (n : Nat) : (p.add n).block = p.block := rfl
@[simp] theorem Ptr.add_off (p : Ptr) (n : Nat) : (p.add n).off = p.off + n := rfl

theorem Ptr.add_add (p : Ptr) (a b : Nat) : (p.add a).add b = p.add (a + b) := by
  simp [Ptr.add, Nat.add_assoc]

/-- `msg_t::type_t`. `closed` is the tag 0 that `close` leaves behind, the only one
outside the valid range. -/
inductive MsgType
  | closed
  | vsm
  | lmsg
  | delimiter
  | cmsg
  | zclmsg
  | join
  | leave
  deriving Repr, DecidableEq

/-- What `init_external_storage` puts into the content record: the address of the data
and the hint for the free function, which is the receive buffer (a block of the heap). -/
structure ExternalStorage where
  data : Ptr
  hint : Nat
  deriving Repr, DecidableEq

/-- `msg_t`. -/
structure Msg where
  type : MsgType := .vsm
  flags : BitVec 8 := 0
  data : List UInt8 := []
  /-- The content record of a zero-copy message. -/
  external : Option ExternalStorage := none
  /-- Whether a metadata object is attached. -/
  metadata : Bool := false
  deriving Repr, DecidableEq

namespace Msg

/-! ### Flags -/

def moreFlag : BitVec 8 := 1
def commandFlag : BitVec 8 := 2
def pingFlag : BitVec 8 := 4
def pongFlag : BitVec 8 := 8
def subscribeFlag : BitVec 8 := 12
def cancelFlag : BitVec 8 := 16
def credentialFlag : BitVec 8 := 32
def routingIdFlag : BitVec 8 := 64

/-- The flags of a message with the given more and command bits. -/
def flagsOf (more command : Bool) : BitVec 8 :=
  (if more then moreFlag else 0) ||| (if command then commandFlag else 0)

@[simp] theorem flagsOf_more (m c : Bool) : (flagsOf m c &&& moreFlag != 0#8) = m := by
  cases m <;> cases c <;> rfl

@[simp] theorem flagsOf_command (m c : Bool) : (flagsOf m c &&& commandFlag != 0#8) = c := by
  cases m <;> cases c <;> rfl

/-- `CMD_TYPE_MASK`, bits 2 to 4. -/
def cmdTypeMask : BitVec 8 := 0x1c

/-- `flags () & msg_t::more`. -/
def more (m : Msg) : Bool := m.flags &&& moreFlag != 0

/-- `flags () & msg_t::command`. -/
def command (m : Msg) : Bool := m.flags &&& commandFlag != 0

def isSubscribe (m : Msg) : Bool := m.flags &&& cmdTypeMask == subscribeFlag
def isCancel (m : Msg) : Bool := m.flags &&& cmdTypeMask == cancelFlag
def isPing (m : Msg) : Bool := m.flags &&& cmdTypeMask == pingFlag
def isPong (m : Msg) : Bool := m.flags &&& cmdTypeMask == pongFlag
def isCredential (m : Msg) : Bool := m.flags &&& credentialFlag == credentialFlag
def isRoutingId (m : Msg) : Bool := m.flags &&& routingIdFlag == routingIdFlag
def isDelimiter (m : Msg) : Bool := m.type == .delimiter
def isZcmsg (m : Msg) : Bool := m.type == .zclmsg

/-- `set_flags`: the flags are or-ed in. -/
def setFlags (m : Msg) (f : BitVec 8) : Msg := { m with flags := m.flags ||| f }

/-! ### Construction and destruction -/

/-- The largest message kept inside the `msg_t` itself: `msg_t_size` (64) less the
metadata pointer, the size, type and flags bytes, the group and the routing id. -/
def maxVsmSize : Nat := 64 - (8 + 3 + 16 + 4)

/-- `check ()`: the tag lies between `type_min` and `type_max`. -/
def check (m : Msg) : Bool := m.type != .closed

/-- `init ()`. -/
def init : Msg := {}

/-- The type `init_size` gives a message of `n` bytes. -/
def typeOfSize (n : Nat) : MsgType := if n ≤ maxVsmSize then .vsm else .lmsg

/-- `init_buffer`, and `init_size` followed by filling the data. -/
def initBuffer (bytes : List UInt8) : Msg := { type := typeOfSize bytes.length, data := bytes }

def initDelimiter : Msg := { type := .delimiter }

def initSubscribe (topic : List UInt8) : Msg := (initBuffer topic).setFlags subscribeFlag

def initCancel (topic : List UInt8) : Msg := (initBuffer topic).setFlags cancelFlag

/-- The message can be read: `size ()` and `data ()` assert this. -/
def hasData (m : Msg) : Bool :=
  match m.type with
  | .vsm | .lmsg | .cmsg | .zclmsg => true
  | _ => false

def size (m : Msg) : Nat := m.data.length

/-- The receive buffer that closing the message releases. -/
def hint (m : Msg) : Option Nat :=
  if m.isZcmsg then m.external.map ExternalStorage.hint else none

/-- The received memory that the message refers to. -/
def storage (m : Msg) : Option ExternalStorage := if m.isZcmsg then m.external else none

theorem hint_eq_storage (m : Msg) : m.hint = m.storage.map ExternalStorage.hint := by
  unfold hint storage
  split <;> rfl

/-- `close ()`: fails on an invalid message, else makes the message invalid. The
flags stay as they are. -/
def close (m : Msg) : Option Msg :=
  if m.check then some { m with type := .closed, metadata := false } else none

/-- `command_body`, with the bytes from there on: with inproc the command flag is not set and the
body is the whole message, otherwise the command name is skipped. -/
def commandBody (m : Msg) : List UInt8 :=
  if m.isPing || m.isPong then m.data.drop 5
  else if !m.command && (m.isSubscribe || m.isCancel) then m.data
  else if m.isSubscribe then m.data.drop 10
  else if m.isCancel then m.data.drop 7
  else []

/-- `size () - n` in `size_t`. -/
def sizeLess (m : Msg) (n : Nat) : Nat := (m.size + (2 ^ 64 - n)) % 2 ^ 64

/-- `command_body_size`. -/
def commandBodySize (m : Msg) : Nat :=
  if m.isPing || m.isPong then m.sizeLess 5
  else if !m.command && (m.isSubscribe || m.isCancel) then m.size
  else if m.isSubscribe then m.sizeLess 10
  else if m.isCancel then m.sizeLess 7
  else 0

/-! ### Facts about the constructors -/

@[simp] theorem initSubscribe_data (t : List UInt8) : (initSubscribe t).data = t := rfl
@[simp] theorem initCancel_data (t : List UInt8) : (initCancel t).data = t := rfl

@[simp] theorem initSubscribe_flags (t : List UInt8) : (initSubscribe t).flags = subscribeFlag := by
  simp [initSubscribe, setFlags, initBuffer]

@[simp] theorem initCancel_flags (t : List UInt8) : (initCancel t).flags = cancelFlag := by
  simp [initCancel, setFlags, initBuffer]

theorem typeOfSize_hasData (n : Nat) : typeOfSize n = .vsm ∨ typeOfSize n = .lmsg := by
  unfold typeOfSize
  split
  · exact Or.inl rfl
  · exact Or.inr rfl

theorem initSubscribe_hasData (t : List UInt8) : (initSubscribe t).hasData = true := by
  rcases typeOfSize_hasData t.length with h | h <;>
    simp [initSubscribe, setFlags, initBuffer, hasData, h]

@[simp] theorem initSubscribe_isSubscribe (t : List UInt8) :
    (initSubscribe t).isSubscribe = true := by
  simp [isSubscribe, cmdTypeMask, subscribeFlag]

@[simp] theorem initCancel_isSubscribe (t : List UInt8) : (initCancel t).isSubscribe = false := by
  simp [isSubscribe, cmdTypeMask, subscribeFlag, cancelFlag]

@[simp] theorem initCancel_isCancel (t : List UInt8) : (initCancel t).isCancel = true := by
  simp [isCancel, cmdTypeMask, cancelFlag]

@[simp] theorem initSubscribe_more (t : List UInt8) : (initSubscribe t).more = false := by
  simp [more, moreFlag, subscribeFlag]

@[simp] theorem initCancel_more (t : List UInt8) : (initCancel t).more = false := by
  simp [more, moreFlag, cancelFlag]

end Msg

end ServerLink
