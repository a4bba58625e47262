import Mathlib.Algebra.Group.Nat.Defs

/-!
# ServerLink.Util.Err

The source aborts the process when an assertion (`slk_assert`, `errno_assert`,
`alloc_assert`) fails. The model returns the failed assertion as an error instead:
every operation that asserts something runs in `Except Fault`.
-/

namespace ServerLink

/-- The values of `errno` the modelled code sets or tests. -/
inductive Errno
  | eagain
  | eexist
  | efault
  | ehostunreach
  | einval
  | emfile
  | emsgsize
  | enoent
  | enomem
  | eproto
  | eterm
  deriving Repr, DecidableEq

/-- The assertions of the modelled code, one constructor a site (or a family of
sites that check the same thing in one function). -/
inductive Fault
  /-- `encoder_base_t::load_msg`: a message is already in progress. -/
  | loadMsgBusy
  /-- `msg_t::size`/`msg_t::data` on a message that carries no data. -/
  | msgNotData
  /-- `msg_t::close` on an invalid message, its return code asserted by the caller. -/
  | msgClose
  /-- `v2_decoder_t::size_ready`: closing the message in progress. -/
  | sizeReadyClose
  /-- `v2_decoder_t::~v2_decoder_t`: closing the message in progress. -/
  | decoderDtorClose
  /-- `decoder_base_t::decode`: the caller filled more than was asked for. -/
  | decodeTooMuch
  /-- `alloc_assert` on the receive buffer. -/
  | allocBuffer
  /-- `trie_t`, `mtrie_t`: the number of live nodes. -/
  | trieLiveNodes
  /-- `trie_t`, `mtrie_t`: the node that is kept when a table is compacted. -/
  | trieNode
  /-- `trie_t`, `mtrie_t`: the new range when a table is compacted. -/
  | trieRange
  /-- `trie_t::apply_helper`, `mtrie_t::rm`: a byte is stored outside of the buffer. -/
  | trieBuffer
  /-- `mtrie_t::rm`: a node is used that was deleted, or through a null pointer. -/
  | trieFreed
  /-- `mtrie_t::rm`: `erased == 1`. -/
  | mtrieErased
  /-- `mtrie_t::rm`: the number of prefixes is positive. -/
  | mtrieNumPrefixes
  /-- `xpub_t::xattach_pipe`: the welcome message could not be written. -/
  | xpubWelcome
  /-- `pipe_t`: a ypipe is used after it was deleted, or through a null pointer. -/
  | pipeQueueFreed
  /-- `pipe_t::rollback`: a message taken back does not have the more flag. -/
  | pipeRollback
  /-- `pipe_t::process_hiccup`: there is no outbound ypipe. -/
  | pipeHiccup
  /-- `pipe_t::process_pipe_term`: the state. -/
  | pipeTerm
  /-- `pipe_t::process_pipe_term_ack`: the state. -/
  | pipeTermAck
  /-- `pipe_t::process_delimiter`: the state. -/
  | pipeDelimiter
  /-- A command is sent to, or processed by, a pipe that deleted itself. -/
  | pipeDeleted
  /-- `array_t::operator[]` beyond the end. -/
  | arrayRange
  /-- `fq_t::recvpipe`: `!_more`, the atomicity of a message. -/
  | fqAtomicity
  /-- `xsub_t::xrecv`, `xsub_t::xhas_in`: the rest of a rejected message is not there. -/
  | xsubSkip
  /-- A pipe is used that was destroyed. -/
  | pipeDestroyed
  /-- `router_t::identify_peer`: the id set for the connection is in use. -/
  | routerConnectId
  /-- `routing_socket_base_t::add_out_pipe`: the id is in use. -/
  | routerOutPipe
  /-- `router_t::xsend`: `!_current_out` at the start of a message. -/
  | routerCurrentOut
  /-- `routing_socket_base_t::xwrite_activated`: the pipe has an inactive entry. -/
  | routerWriteActivated
  /-- An object is used that was deleted. -/
  | ownDeleted
  /-- `own_t::set_owner`: there is no owner yet. -/
  | ownOwner
  /-- `own_t::process_term`: double termination. -/
  | ownTerminating
  /-- `own_t::unregister_term_ack`: `_term_acks > 0`. -/
  | ownTermAcks
  /-- `own_t::check_term_acks`: there are no active children. -/
  | ownOwned
  /-- `object_t`: the object does not handle the command. -/
  | objectCommand
  /-- `object_t`: the parent of a pipe is a null pointer. -/
  | objectParent
  /-- `session_base_t::process_term`: `!_pending`. -/
  | sessionPending
  /-- `session_base_t::process_attach`: `!_engine`. -/
  | sessionEngine
  /-- `session_base_t::attach_pipe`, `session_base_t::pipe_terminated`: the pipe. -/
  | sessionPipe
  /-- `session_base_t::clean_pipes`: the rest of a half-read message is not there. -/
  | sessionPull
  /-- `stream_engine_base_t::restart_input`: the input is stopped. -/
  | engineInput
  /-- `stream_engine_base_t::restart_input`: there is a decoder. -/
  | engineDecoder
  /-- `stream_engine_base_t`: there is a mechanism. -/
  | engineMechanism
  /-- `stream_engine_base_t::restart_output`: an engine without an encoder is handshaking. -/
  | engineHandshaking
  /-- `mechanism_t::socket_type_string`: the socket type has no name. -/
  | mechanismType
  /-- `name_len`: the name of a property takes more than one byte for its length. -/
  | mechanismName
  /-- `mechanism_t::add_property`: `total_len <= ptr_capacity_`. -/
  | mechanismCapacity
  /-- `mechanism_t::add_property`: the length of the value. -/
  | mechanismValue
  /-- `mechanism_t`: an access outside of the command. -/
  | mechanismBounds
  /-- `ctx_t::start`: the number of slots is not in the range of `int`. -/
  | ctxThreads
  deriving Repr, DecidableEq

/-- Why an engine fails, `i_engine::error_reason_t`. -/
inductive ErrorReason
  | protocolError
  | connectionError
  | timeoutError
  deriving Repr, DecidableEq

end ServerLink
