import ServerLink.Msg.Msg

/-!
# ServerLink.Protocol.Commands

What an engine does with a command frame before it is pushed to the session
(`zmtp_engine_t::process_command_message`). The pong that a ping asks for is left out:
nothing sends it.
-/

namespace ServerLink

/-- `"SUBSCRIBE"`. -/
def subscribeName : List UInt8 := [83, 85, 66, 83, 67, 82, 73, 66, 69]
/-- `"CANCEL"`. -/
def cancelName : List UInt8 := [67, 65, 78, 67, 69, 76]
/-- `"PING"`. -/
def pingName : List UInt8 := [80, 73, 78, 71]
/-- `"PONG"`. -/
def pongName : List UInt8 := [80, 79, 78, 71]

/-- `msg_->close ()`, whose return code is asserted. -/
def closeMsg (m : Msg) : Except Fault Msg :=
  match m.close with
  | none => .error .msgClose
  | some m => .ok m

/-- `process_heartbeat_message`: the message is used up. -/
def processHeartbeatMessage (m : Msg) : Except Fault Msg := closeMsg m

/-- `process_command_message`: subscriptions are marked, heartbeats and unknown commands
are closed. What is too short for the name it announces is left as it is. -/
def processCommandMessage (m : Msg) : Except Fault Msg :=
  match m.data with
  | [] => .ok m
  | cmdNameSize :: rest =>
    if m.size < cmdNameSize.toNat + 1 then .ok m
    else
      let cmdName := rest.take cmdNameSize.toNat
      if cmdNameSize.toNat = 9 ∧ cmdName = subscribeName then
        .ok (m.setFlags Msg.subscribeFlag)
      else if cmdNameSize.toNat = 6 ∧ cmdName = cancelName then
        .ok (m.setFlags Msg.cancelFlag)
      else if cmdNameSize.toNat = 4 ∧ cmdName = pingName then
        processHeartbeatMessage (m.setFlags Msg.pingFlag)
      else if cmdNameSize.toNat = 4 ∧ cmdName = pongName then
        processHeartbeatMessage (m.setFlags Msg.pongFlag)
      else closeMsg m

/-- The part of `decode_and_push` before the message is pushed. -/
def decodeCommand (m : Msg) : Except Fault Msg :=
  if m.command then processCommandMessage m else .ok m

end ServerLink
