import ServerLink.Auth.Mechanism

/-!
# ServerLink.Auth.NullMechanism

The NULL mechanism (`null_mechanism.cpp`): each side sends one READY command and waits
for that of the other.
-/

namespace ServerLink

/-- `"\5READY"`. -/
def readyCommandName : List UInt8 := [5, 82, 69, 65, 68, 89]
/-- `"\5ERROR"`. -/
def errorCommandName : List UInt8 := [5, 69, 82, 82, 79, 82]

structure NullMechanism extends Mechanism where
  readyCommandSent : Bool
  errorCommandSent : Bool
  readyCommandReceived : Bool
  errorCommandReceived : Bool

namespace NullMechanism

def new (options : MechanismOptions) : NullMechanism :=
  { Mechanism.new options with
    readyCommandSent := false, errorCommandSent := false, readyCommandReceived := false,
    errorCommandReceived := false }

/-- `next_handshake_command`: the command, or nothing (`EAGAIN`) if it has been sent. -/
def nextHandshakeCommand (n : NullMechanism) :
    Except Fault (NullMechanism × Option Mechanism.Cells) :=
  if n.readyCommandSent || n.errorCommandSent then .ok (n, none)
  else
    match Mechanism.makeCommandWithBasicProperties n.options readyCommandName with
    | .error e => .error e
    | .ok cells => .ok ({ n with readyCommandSent := true }, some cells)

def processReadyCommand (n : NullMechanism) (data : List UInt8) :
    Except Fault (NullMechanism × Option Errno) :=
  match n.toMechanism.parseMetadata (data.drop readyCommandName.length) with
  | .error e => .error e
  | .ok (m, rc) => .ok ({ n with toMechanism := m, readyCommandReceived := true }, rc)

/-- `process_error_command`: the length of the reason is checked. -/
def processErrorCommand (n : NullMechanism) (data : List UInt8) : NullMechanism × Option Errno :=
  let fixedPrefixSize := errorCommandName.length + 1
  if data.length < fixedPrefixSize then (n, some .eproto)
  else
    let errorReasonLen := ((data.drop errorCommandName.length).headD 0).toNat
    if data.length - fixedPrefixSize < errorReasonLen then (n, some .eproto)
    else ({ n with errorCommandReceived := true }, none)

/-- `process_handshake_command`, on the data of the message. -/
def processHandshakeCommand (n : NullMechanism) (data : List UInt8) :
    Except Fault (NullMechanism × Option Errno) :=
  if n.readyCommandReceived || n.errorCommandReceived then .ok (n, some .eproto)
  else if readyCommandName.isPrefixOf data then n.processReadyCommand data
  else if errorCommandName.isPrefixOf data then .ok (n.processErrorCommand data)
  else .ok (n, some .eproto)

end NullMechanism

end ServerLink
