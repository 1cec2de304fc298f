import PepePrivate.Library.Digits
import PepePrivate.Library.Drain

/-! epee::levin: the header every levin packet starts with (levin_base.h), and the connection
handler of levin_protocol_handler_async.h. `handle_recv` cuts the bytes a connection receives
into packets and dispatches each: a response goes to the oldest waiting invoke, a request to the
commands handler, whose answer is sent back. `invoke_async` and `notify` send packets; each
async invoke leaves a response handler whose timer closes the connection when it expires.

The connection under the handler (connection<t_protocol_handler> of abstract_tcp_server2) is
reduced to what the handler sees of it: do_send appends to the bytes in flight unless the
connection is shut down, add_ref fails once it is, and shutting down releases the protocol. The
callbacks of the invokes are named by a value of `κ` and their calls are recorded; the node
behind the commands handler is a state `τ`. The fields `dispatched`, `sentPackets`, `invokes`,
`answered` and `callbacks` are histories for the proofs, not members of the source. -/

namespace PepePrivate.Net

open Digits

/-! ## levin_base.h -/

def levinSignature : UInt64 := 0x0101010101012101

def levinPacketRequest : UInt32 := 0x00000001

def levinPacketResponse : UInt32 := 0x00000002

def levinProtocolVer1 : UInt32 := 1

def levinOk : Int32 := 0

def levinErrorConnection : Int32 := -1

def levinErrorConnectionDestroyed : Int32 := -3

def levinErrorConnectionTimedout : Int32 := -4

structure BucketHead2 where
  signature : UInt64
  cb : UInt64
  haveToReturnData : Bool
  command : UInt32
  returnCode : Int32
  flags : UInt32
  protocolVersion : UInt32
deriving DecidableEq, Repr

def bucketHead2Size : Nat := 33

/-- The header as a little-endian machine holds it (the big-endian build swaps every field to the
same bytes): the fields in order with no padding, a bool as the byte 0 or 1. -/
def BucketHead2.toBytes (h : BucketHead2) : List UInt8 :=
  toBytesLE 8 h.signature.toNat ++ toBytesLE 8 h.cb.toNat ++ [if h.haveToReturnData then 1 else 0] ++
    toBytesLE 4 h.command.toNat ++ toBytesLE 4 h.returnCode.toUInt32.toNat ++
    toBytesLE 4 h.flags.toNat ++ toBytesLE 4 h.protocolVersion.toNat

def fieldLE (b : List UInt8) (off n : Nat) : Nat := ofBytesLE ((b.drop off).take n)

/-- *(bucket_head2*)data: the header over the bytes; a bool byte other than 0 tests true. -/
def BucketHead2.ofBytes (b : List UInt8) : BucketHead2 where
  signature := (fieldLE b 0 8).toUInt64
  cb := (fieldLE b 8 8).toUInt64
  haveToReturnData := b.getD 16 0 != 0
  command := (fieldLE b 17 4).toUInt32
  returnCode := (fieldLE b 21 4).toUInt32.toInt32
  flags := (fieldLE b 25 4).toUInt32
  protocolVersion := (fieldLE b 29 4).toUInt32

/-- epee::span<const uint8_t>: bytes whose count a size_t holds. -/
structure Span where
  data : List UInt8
  size_lt : data.length < 2 ^ 64

/-- levin_commands_handler: `invoke` answers a request with a return code and the bytes to send
back, `notify` takes one; both act on the node behind the handler. The int that notify returns is
never read. -/
structure LevinCommandsHandler (τ : Type) where
  invoke : UInt32 → List UInt8 → τ → Int32 × Span × τ
  notify : UInt32 → List UInt8 → τ → τ

/-! ## The response handler of an async invoke -/

/-- anvoke_handler: the callback, named by `cb`, and its deadline_timer. The timer is started
when the connection took a reference; it is pending while its wait has neither completed nor been
cancelled. The timeout value and the connection reference are left out. -/
structure AnvokeHandler (κ : Type) where
  cb : κ
  command : UInt32
  timerStarted : Bool
  timerPending : Bool
  cancelTimerCalled : Bool
  timerCancelled : Bool
deriving DecidableEq, Repr

/-- cancel_timer: the first call cancels the timer, and it counts as cancelled only if its wait
was still pending (m_timer.cancel() returns 1); later calls return the first answer. -/
def AnvokeHandler.cancelTimer {κ : Type} (h : AnvokeHandler κ) : Bool × AnvokeHandler κ :=
  if !h.cancelTimerCalled then
    (h.timerPending,
      { h with cancelTimerCalled := true, timerCancelled := h.timerPending, timerPending := false })
  else (h.timerCancelled, h)

/-- A call of an invoke's callback: with a response's return code and bytes, or with an error
code and an empty buffer. -/
inductive CallbackCall (κ : Type)
  | response (cb : κ) (code : Int32) (buff : List UInt8)
  | error (cb : κ) (code : Int32)
deriving DecidableEq, Repr

def CallbackCall.cb {κ : Type} : CallbackCall κ → κ
  | .response cb _ _ => cb
  | .error cb _ => cb

/-! ## async_protocol_handler -/

inductive StreamState
  | head
  | body
deriving DecidableEq, Repr

/-- async_protocol_handler without m_cache_in_buffer: the receive state, the waiting invokes,
m_close_called and m_wait_count; the connection's m_was_shutdown and the bytes do_send queued
that the peer has not read; the node; and the histories. The synchronous invoke's members
(m_invoke_buf_ready, m_local_inv_buff, m_invoke_result_code) are left out with it. -/
structure LevinState (τ κ : Type) where
  state : StreamState
  currentHead : BucketHead2
  oponentProtocolVer : Int32
  invokeResponseHandlers : List (AnvokeHandler κ)
  closeCalled : Bool
  waitCount : Nat
  node : τ
  wasShutdown : Bool
  sendQue : List UInt8
  /-- every packet carved from the receive buffer, with the header it was read with -/
  dispatched : List (BucketHead2 × List UInt8)
  /-- every packet whose bytes were queued -/
  sentPackets : List (BucketHead2 × List UInt8)
  /-- the async invokes whose request was queued: callback, command, request bytes -/
  invokes : List (κ × UInt32 × List UInt8)
  /-- what the commands handler's invoke returned, request by request -/
  answered : List (Int32 × List UInt8)
  callbacks : List (CallbackCall κ)

namespace LevinState

variable {τ κ : Type}

/-- connection::do_send: the bytes join the queue, unless the connection is shut down. -/
def doSend (s : LevinState τ κ) (bytes : List UInt8) : Option (LevinState τ κ) :=
  if s.wasShutdown then none else some { s with sendQue := s.sendQue ++ bytes }

/-- start_outer_call: add_ref fails on a connection that is shut down. -/
def startOuterCall (s : LevinState τ κ) : Option (LevinState τ κ) :=
  if s.wasShutdown then none else some { s with waitCount := s.waitCount + 1 }

def finishOuterCall (s : LevinState τ κ) : LevinState τ κ :=
  { s with waitCount := s.waitCount - 1 }

/-- add_invoke_response_handler: the handler is queued whether or not its timer could start. -/
def addInvokeResponseHandler (s : LevinState τ κ) (cb : κ) (command : UInt32) :
    Bool × LevinState τ κ :=
  match s.startOuterCall with
  | some s =>
    (true, { s with invokeResponseHandlers := s.invokeResponseHandlers ++
      [{ cb, command, timerStarted := true, timerPending := true, cancelTimerCalled := false,
         timerCancelled := false }] })
  | none =>
    (false, { s with invokeResponseHandlers := s.invokeResponseHandlers ++
      [{ cb, command, timerStarted := false, timerPending := false, cancelTimerCalled := false,
         timerCancelled := false }] })

/-- anvoke_handler::cancel: calls back with LEVIN_ERROR_CONNECTION_DESTROYED if it stopped the
timer. -/
def cancelHandler (s : LevinState τ κ) (h : AnvokeHandler κ) : LevinState τ κ :=
  if h.cancelTimer.1 then
    { s with callbacks := s.callbacks ++ [CallbackCall.error h.cb levinErrorConnectionDestroyed] }.finishOuterCall
  else s

/-- release_protocol: the waiting handlers are taken out and each cancelled. -/
def releaseProtocol (s : LevinState τ κ) : LevinState τ κ :=
  s.invokeResponseHandlers.foldl cancelHandler { s with invokeResponseHandlers := [] }

/-- connection::shutdown, once. -/
def shutdown (s : LevinState τ κ) : LevinState τ κ :=
  if s.wasShutdown then s else { s with wasShutdown := true }.releaseProtocol

/-- The body of a packet whose header is m_current_head, carved from the buffer: a response goes
to the oldest waiting invoke, a request with m_have_to_return_data to invoke and its answer back
to the peer, any other to notify. -/
def handlePacket (cmds : LevinCommandsHandler τ) (s : LevinState τ κ) (buff : List UInt8) :
    Bool × LevinState τ κ :=
  let s := { s with dispatched := s.dispatched ++ [(s.currentHead, buff)] }
  let isResponse := s.oponentProtocolVer == 1 && (s.currentHead.flags &&& levinPacketResponse) != 0
  if isResponse then
    match s.invokeResponseHandlers with
    | h :: rest =>
      let c := h.cancelTimer
      if c.1 then
        -- popped, then handle(): the timer is cancelled, so it calls back and finishes the call
        (true, { s with invokeResponseHandlers := rest,
                        callbacks := s.callbacks ++ [CallbackCall.response h.cb s.currentHead.returnCode buff] }
          |>.finishOuterCall)
      else (true, { s with invokeResponseHandlers := c.2 :: rest })
    | [] =>
      -- "no active invoke when response came"; the synchronous invoke's buffer is left out
      if s.waitCount == 0 && !s.closeCalled then (false, s) else (true, s)
  else if s.currentHead.haveToReturnData then
    let r := cmds.invoke s.currentHead.command buff s.node
    let head : BucketHead2 :=
      { s.currentHead with returnCode := r.1, cb := r.2.1.data.length.toUInt64,
                           haveToReturnData := false, protocolVersion := levinProtocolVer1,
                           flags := levinPacketResponse }
    let s := { s with node := r.2.2, currentHead := head, answered := s.answered ++ [(r.1, r.2.1.data)] }
    match s.doSend (head.toBytes ++ r.2.1.data) with
    | some s => (true, { s with sentPackets := s.sentPackets ++ [(head, r.2.1.data)] })
    | none => (false, s)
  else (true, { s with node := cmds.notify s.currentHead.command buff s.node })

end LevinState

/-- One pass of the while loop of handle_recv over the buffer `b`. In the body state it waits for
m_cb bytes and dispatches them; in the head state it waits for a whole header, failing early on a
wrong signature, and fails on a header whose m_cb exceeds the packet limit. -/
def recvStep {τ κ : Type} (maxPacketSize : Nat) (cmds : LevinCommandsHandler τ) (s : LevinState τ κ)
    (b : List UInt8) : Drain.Outcome (LevinState τ κ) :=
  match s.state with
  | .body =>
    if b.length < s.currentHead.cb.toNat then .wait
    else
      let r := s.handlePacket cmds (b.take s.currentHead.cb.toNat)
      if r.1 then .next { r.2 with state := .head } s.currentHead.cb.toNat
      else .fail r.2 s.currentHead.cb.toNat
  | .head =>
    if b.length < bucketHead2Size then
      if 8 ≤ b.length ∧ ofBytesLE (b.take 8) ≠ levinSignature.toNat then .fail s 0 else .wait
    else
      let phead := BucketHead2.ofBytes (b.take bucketHead2Size)
      if levinSignature ≠ phead.signature then .fail s 0
      else
        let s := { s with currentHead := phead, state := .body,
                          oponentProtocolVer := phead.protocolVersion.toInt32 }
        if phead.cb.toNat > maxPacketSize then .fail s bucketHead2Size
        else .next s bucketHead2Size

/-- What bounds the loop: the bytes left, twice, and one more in the body state. -/
def recvMeasure {τ κ : Type} (s : LevinState τ κ) (b : List UInt8) : Nat :=
  2 * b.length + if s.state = .body then 1 else 0

/-- async_protocol_handler: its state and m_cache_in_buffer. -/
structure AsyncProtocolHandler (τ κ : Type) where
  core : LevinState τ κ
  cacheInBuffer : List UInt8

namespace AsyncProtocolHandler

variable {τ κ : Type}

/-- handle_recv: refused after close or past the packet limit; otherwise the bytes join the
buffer and the loop runs until it waits for more or fails. The commands handler is always set
here. -/
def handleRecv (maxPacketSize : Nat) (cmds : LevinCommandsHandler τ) (e : AsyncProtocolHandler τ κ)
    (chunk : List UInt8) : Bool × AsyncProtocolHandler τ κ :=
  if e.core.closeCalled then (false, e)
  else if e.cacheInBuffer.length + chunk.length > maxPacketSize then (false, e)
  else
    let r := Drain.run (recvStep maxPacketSize cmds) recvMeasure e.core (e.cacheInBuffer ++ chunk)
    (r.1, { core := r.2.1, cacheInBuffer := r.2.2 })

/-- The request header async_invoke and notify send. -/
def requestHead (command : UInt32) (inBuff : Span) (haveToReturnData : Bool) : BucketHead2 :=
  { signature := levinSignature, cb := inBuff.data.length.toUInt64, haveToReturnData, command,
    returnCode := 0, flags := levinPacketRequest, protocolVersion := levinProtocolVer1 }

/-- The body of async_invoke, between the outer call its caller started and the one its scope
exit finishes: the request's header and body, then the response handler. The error code it
ends with, if any, goes to the callback. -/
def asyncInvokeBody (s : LevinState τ κ) (command : UInt32) (inBuff : Span) (cb : κ) :
    Int32 × LevinState τ κ :=
  let head := requestHead command inBuff true
  match s.doSend head.toBytes with
  | none => (levinErrorConnection, s)
  | some s =>
    match s.doSend inBuff.data with
    | none => (levinErrorConnection, s)
    | some s =>
      let s := { s with sentPackets := s.sentPackets ++ [(head, inBuff.data)],
                        invokes := s.invokes ++ [(cb, command, inBuff.data)] }
      let r := s.addInvokeResponseHandler cb command
      if r.1 then (levinOk, r.2) else (levinErrorConnectionDestroyed, r.2)

/-- async_protocol_handler_config::invoke_async: find_and_lock_connection, then async_invoke,
which returns whether it queued the request (as 1 or 0). -/
def invokeAsync (e : AsyncProtocolHandler τ κ) (command : UInt32) (inBuff : Span) (cb : κ) :
    Int32 × AsyncProtocolHandler τ κ :=
  match e.core.startOuterCall with
  | none => (levinErrorConnectionDestroyed, e)
  | some s =>
    let r := asyncInvokeBody s command inBuff cb
    let s := r.2.finishOuterCall
    if r.1 ≠ levinOk then
      (0, { e with core := { s with callbacks := s.callbacks ++ [CallbackCall.error cb r.1] } })
    else (1, { e with core := s })

/-- async_protocol_handler_config::notify: find_and_lock_connection, then notify. -/
def notify (e : AsyncProtocolHandler τ κ) (command : UInt32) (inBuff : Span) :
    Int32 × AsyncProtocolHandler τ κ :=
  match e.core.startOuterCall with
  | none => (levinErrorConnectionDestroyed, e)
  | some s =>
    let head := requestHead command inBuff false
    let r : Int32 × LevinState τ κ :=
      match s.doSend head.toBytes with
      | none => (-1, s)
      | some s =>
        match s.doSend inBuff.data with
        | none => (-1, s)
        | some s => (1, { s with sentPackets := s.sentPackets ++ [(head, inBuff.data)] })
    (r.1, { e with core := r.2.finishOuterCall })

/-- async_protocol_handler::close: m_close_called, and the connection shut down. -/
def close (e : AsyncProtocolHandler τ κ) : AsyncProtocolHandler τ κ :=
  { e with core := { e.core with closeCalled := true }.shutdown }

/-- The wait of the `i`-th response handler's timer completes. If it was not cancelled, the
callback gets LEVIN_ERROR_CONNECTION_TIMEDOUT and the connection is closed. -/
def timerExpires (e : AsyncProtocolHandler τ κ) (i : Nat) : AsyncProtocolHandler τ κ :=
  match e.core.invokeResponseHandlers[i]? with
  | some h =>
    if h.timerPending then
      let s := { e.core with
        invokeResponseHandlers := e.core.invokeResponseHandlers.set i { h with timerPending := false },
        callbacks := e.core.callbacks ++ [CallbackCall.error h.cb levinErrorConnectionTimedout] }
      let e := close { e with core := s }
      { e with core := e.core.finishOuterCall }
    else e
  | none => e

end AsyncProtocolHandler

end PepePrivate.Net
