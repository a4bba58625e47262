import ServerLink.Protocol.Wire
import ServerLink.Util.Constants
import ServerLink.Util.Err

/-!
# ServerLink.Auth.Mechanism

The metadata of a handshake command (`mechanism.cpp`): how the properties of a socket
are written into a command, and how they are read by the peer.

A command that is being written is a list of cells, `none` for a byte that has not been
set. Writing and reading check the bounds, which the source does not, so that an access
outside of the command shows as a fault.
-/

namespace ServerLink

/-! ### Names -/

/-- `"Socket-Type"`. -/
def propertySocketType : List UInt8 := [83, 111, 99, 107, 101, 116, 45, 84, 121, 112, 101]
/-- `"Identity"`. -/
def propertyIdentity : List UInt8 := [73, 100, 101, 110, 116, 105, 116, 121]

/-- `"PAIR"`. -/
def socketTypePair : List UInt8 := [80, 65, 73, 82]
/-- `"PUB"`. -/
def socketTypePub : List UInt8 := [80, 85, 66]
/-- `"SUB"`. -/
def socketTypeSub : List UInt8 := [83, 85, 66]
/-- `"ROUTER"`. -/
def socketTypeRouter : List UInt8 := [82, 79, 85, 84, 69, 82]
/-- `"XPUB"`. -/
def socketTypeXpub : List UInt8 := [88, 80, 85, 66]
/-- `"XSUB"`. -/
def socketTypeXsub : List UInt8 := [88, 83, 85, 66]

def socketTypeString : SocketType → Except Fault (List UInt8)
  | .pair => .ok socketTypePair
  | .pub => .ok socketTypePub
  | .sub => .ok socketTypeSub
  | .router => .ok socketTypeRouter
  | .xpub => .ok socketTypeXpub
  | .xsub => .ok socketTypeXsub
  | .dealer => .error .mechanismType

/-- The options a mechanism reads. The size of the routing id is one byte, and the
application metadata are a map. -/
structure MechanismOptions where
  type : SocketType
  routingId : List UInt8
  routingId_le : routingId.length ≤ 255
  recvRoutingId : Bool
  appMetadata : List (List UInt8 × List UInt8)
  appMetadata_nodup : (appMetadata.map Prod.fst).Nodup

/-- `mechanism_t`: its options and what it has learned about the peer. -/
structure Mechanism where
  options : MechanismOptions
  /-- `_routing_id`, the identity of the peer. -/
  routingId : List UInt8
  zmtpProperties : List (List UInt8 × List UInt8)

namespace Mechanism

def new (options : MechanismOptions) : Mechanism :=
  { options := options, routingId := [], zmtpProperties := [] }

/-! ### Writing properties -/

/-- What `c_str ()` shows of a string: the bytes before the first zero. -/
def cStr (s : List UInt8) : List UInt8 := s.takeWhile (· != 0)

def nameLen (name : List UInt8) : Except Fault Nat :=
  if name.length ≤ 255 then .ok name.length else .error .mechanismName

/-- `property_len`: one byte and four for the two lengths. -/
def propertyLen (name : List UInt8) (valueLen : Nat) : Except Fault Nat :=
  (nameLen name).map fun n => 1 + n + 4 + valueLen

/-- A command that is being written. -/
abbrev Cells := List (Option UInt8)

/-- `memcpy (ptr_, bytes, ...)`. -/
def store (cells : Cells) (ptr : Nat) (bytes : List UInt8) : Except Fault Cells :=
  if ptr + bytes.length ≤ cells.length then
    .ok (cells.take ptr ++ bytes.map some ++ cells.drop (ptr + bytes.length))
  else .error .mechanismBounds

/-- `add_property`: the cells, and the number of bytes written. -/
def addProperty (cells : Cells) (ptr capacity : Nat) (name value : List UInt8) :
    Except Fault (Cells × Nat) := do
  let n ← nameLen name
  let totalLen := 1 + n + 4 + value.length
  if capacity < totalLen then throw .mechanismCapacity
  let cells ← store cells ptr [UInt8.ofNat n]
  let cells ← store cells (ptr + 1) name
  if 0x7FFFFFFF < value.length then throw .mechanismValue
  let cells ← store cells (ptr + 1 + n) (putUint32 value.length)
  let cells ← store cells (ptr + 1 + n + 4) value
  return (cells, totalLen)

/-- Add the properties in order; `ptr` is where the next one goes. -/
def addProperties (cells : Cells) (ptr capacity : Nat) :
    List (List UInt8 × List UInt8) → Except Fault Cells
  | [] => .ok cells
  | p :: ps => do
    let (cells, n) ← addProperty cells ptr capacity p.1 p.2
    addProperties cells (ptr + n) (capacity - n) ps

/-- The properties that `add_basic_properties` writes. Only a ROUTER sends its identity. -/
def basicProperties (o : MechanismOptions) : Except Fault (List (List UInt8 × List UInt8)) :=
  (socketTypeString o.type).map fun t =>
    (propertySocketType, t) ::
      ((if o.type = .router then [(propertyIdentity, o.routingId)] else []) ++
        o.appMetadata.map fun p => (cStr p.1, cStr p.2))

def addBasicProperties (o : MechanismOptions) (cells : Cells) (ptr capacity : Nat) :
    Except Fault Cells := do
  let ps ← basicProperties o
  addProperties cells ptr capacity ps

/-- The sum over the application metadata in `basic_properties_len`. -/
def metaLen : List (List UInt8 × List UInt8) → Except Fault Nat
  | [] => .ok 0
  | p :: ps => do
    let n ← propertyLen (cStr p.1) (cStr p.2).length
    let rest ← metaLen ps
    return n + rest

def basicPropertiesLen (o : MechanismOptions) : Except Fault Nat := do
  let t ← socketTypeString o.type
  let appLen ← metaLen o.appMetadata
  let typeLen ← propertyLen propertySocketType t.length
  let idLen ←
    if o.type = .router then propertyLen propertyIdentity o.routingId.length else .ok 0
  return typeLen + appLen + idLen

/-- `make_command_with_basic_properties`. -/
def makeCommandWithBasicProperties (o : MechanismOptions) (pre : List UInt8) :
    Except Fault Cells := do
  let len ← basicPropertiesLen o
  let commandSize := pre.length + len
  let cells : Cells := List.replicate commandSize none
  let cells ← store cells 0 pre
  addBasicProperties o cells pre.length (commandSize - pre.length)

/-! ### Reading properties -/

/-- The `n` bytes at `ptr`. -/
def load (data : List UInt8) (ptr n : Nat) : Except Fault (List UInt8) :=
  if ptr + n ≤ data.length then .ok ((data.drop ptr).take n) else .error .mechanismBounds

def checkSocketType (o : MechanismOptions) (type : List UInt8) : Bool :=
  match o.type with
  | .router => true
  | .pub => type == socketTypeSub || type == socketTypeXsub
  | .sub => type == socketTypePub || type == socketTypeXpub
  | .xpub => type == socketTypeSub || type == socketTypeXsub
  | .xsub => type == socketTypePub || type == socketTypeXpub
  | _ => false

/-- `_zmtp_properties.insert`: what is there is not replaced. -/
def insertProperty (m : Mechanism) (name value : List UInt8) : Mechanism :=
  if m.zmtpProperties.any fun p => p.1 == name then m
  else { m with zmtpProperties := m.zmtpProperties ++ [(name, value)] }

/-- What `parse_metadata` does with one property. The default implementation of
`property` accepts everything. -/
def takeProperty (m : Mechanism) (name value : List UInt8) : Mechanism × Option Errno :=
  if name = propertyIdentity ∧ m.options.recvRoutingId = true then
    ({ m with routingId := value }.insertProperty name value, none)
  else if name = propertySocketType then
    if checkSocketType m.options value then (m.insertProperty name value, none)
    else (m, some .einval)
  else (m.insertProperty name value, none)

/-- What follows the loop of `parse_metadata`. -/
def leftOver (bytesLeft : Nat) : Option Errno := if 0 < bytesLeft then some .eproto else none

/-- The loop of `parse_metadata`, and what follows it. The result is the value of `errno`
if the function fails. -/
def parseLoop (data : List UInt8) :
    Nat → Mechanism → Nat → Nat → Except Fault (Mechanism × Option Errno)
  | 0, m, _, bytesLeft => .ok (m, leftOver bytesLeft)
  | fuel + 1, m, ptr, bytesLeft =>
    if 1 < bytesLeft then do
      let head ← load data ptr 1
      let nameLength := (head.headD 0).toNat
      let ptr := ptr + 1
      let bytesLeft := bytesLeft - 1
      if bytesLeft < nameLength then return (m, leftOver bytesLeft)
      let name ← load data ptr nameLength
      let ptr := ptr + nameLength
      let bytesLeft := bytesLeft - nameLength
      if bytesLeft < 4 then return (m, leftOver bytesLeft)
      let valueLen ← load data ptr 4
      let valueLength := getUint32 valueLen
      let ptr := ptr + 4
      let bytesLeft := bytesLeft - 4
      if bytesLeft < valueLength then return (m, leftOver bytesLeft)
      let value ← load data ptr valueLength
      match m.takeProperty name value with
      | (m, some e) => return (m, some e)
      | (m, none) => parseLoop data fuel m (ptr + valueLength) (bytesLeft - valueLength)
    else .ok (m, leftOver bytesLeft)

/-- `parse_metadata`. Every round uses up some bytes. -/
def parseMetadata (m : Mechanism) (data : List UInt8) : Except Fault (Mechanism × Option Errno) :=
  parseLoop data data.length m 0 data.length

end Mechanism

end ServerLink
