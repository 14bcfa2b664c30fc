import PgReplica.Rpc.Server

/-! # The client's end of a connection

A `Connection` keeps at most one stream between calls. A call takes it out, writes
its request and reads a response; only an exchange that has come to its end puts a
stream back. The handler of each stream runs on the server meanwhile. Streams
deliver bytes in order, and each byte of a request is marked with the call that
wrote it, which neither end can see.
-/

namespace PgReplica

variable {Req Res : Rpc → Type}

/-- Where `handle_conn` awaits. A frame that is dispatched is kept with the marks of
its bytes. -/
inductive HandlerStage where
  | reading
  | dispatching (frame : List (UInt8 × Nat)) (payload : List UInt8)
  | writing (rest : List UInt8)
  | closed

/-- A stream with its handler: the bytes written at either end and not yet read. -/
structure Socket where
  up : List (UInt8 × Nat)
  handler : HandlerStage
  down : List UInt8

/-- Where `call` awaits. An exchange on the stream that was kept is followed by one
on a new stream if it fails. -/
inductive CallStage where
  | writing (socket : Nat) (kept : Bool) (rest : List UInt8)
  | reading (socket : Nat) (kept : Bool) (got : List UInt8)
  | connecting

structure Call (Req : Rpc → Type) where
  rpc : Rpc
  req : Req rpc
  payload : List UInt8
  stage : CallStage

/-- A request that the Raft node has answered: the bytes of its frame with their
marks, and the slot that answered. -/
structure Dispatched (Req Res : Rpc → Type) where
  frame : List (UInt8 × Nat)
  slot : Option (Answers Req Res)
  resp : List UInt8

/-- A decoded response and the call that returned it. -/
structure Returned (Req Res : Rpc → Type) where
  call : Nat
  rpc : Rpc
  req : Req rpc
  res : Res rpc

/-- A connection with the streams it has opened and their handlers. The call that
runs is number `begun`. -/
structure Connection (Req Res : Rpc → Type) where
  stream : Option Nat
  call : Option (Call Req)
  begun : Nat
  opened : Nat
  sockets : Nat → Socket
  dispatched : List (Dispatched Req Res)
  returned : List (Returned Req Res)

inductive ConnectionEvent (Req Res : Rpc → Type) where
  | begin (rpc : Rpc) (req : Req rpc)
  | write (n : Nat)
  | flush
  | read (n : Nat)
  | fail
  | connect
  | unreachable
  | cancel
  | receive (socket : Nat)
  | dispatch (socket : Nat) (slot : Option (Answers Req Res))
  | respond (socket : Nat) (n : Nat)
  | close (socket : Nat)

namespace Socket

variable (k : Socket)

def fresh : Socket :=
  ⟨[], .reading, []⟩

/-- The handler reads a frame once all of it has arrived. -/
def receive (voters : List Nat) : Option Socket :=
  match k.handler with
  | .reading =>
      match readFrame [k.up.map Prod.fst] with
      | .ok (frame, _) =>
          let left := k.up.drop (4 + frame.length)
          match handleFrame voters frame with
          | .forward _ _ | .skip => some { k with up := left }
          | .dispatch payload =>
              let marked := (k.up.drop 4).take frame.length
              some { k with up := left, handler := .dispatching marked payload }
          | .close => some { k with up := left, handler := .closed }
      | .error .tooLarge => some { k with handler := .closed }
      | .error .unexpectedEof => none
  | _ => none

/-- The stream accepts some bytes of a response. -/
def respond (n : Nat) : Option Socket :=
  match k.handler with
  | .writing rest =>
      if n ≤ rest.length then
        some
          { k with
            down := k.down ++ rest.take n
            handler := if n < rest.length then .writing (rest.drop n) else .reading }
      else none
  | _ => none

/-- The handler ends, with an error of the stream or with the server. -/
def close : Socket :=
  { k with handler := .closed }

end Socket

namespace Connection

def start : Connection Req Res :=
  ⟨none, none, 0, 0, fun _ => .fresh, [], []⟩

variable (json : RaftJson Req Res) (voters : List Nat) (s : Connection Req Res)

def setSocket (socket : Nat) (k : Socket) : Connection Req Res :=
  { s with sockets := fun i => if i = socket then k else s.sockets i }

/-- The call goes on from `stage`. -/
def goOn (call : Call Req) (stage : CallStage) : Connection Req Res :=
  { s with call := some { call with stage } }

/-- `call` up to its first await: it takes the stream out. A request that cannot be
serialized ends it. -/
def begin (rpc : Rpc) (req : Req rpc) : Option (Connection Req Res) :=
  match s.call with
  | some _ => none
  | none =>
      let s := { s with begun := s.begun + 1 }
      match json.encodeReq rpc req with
      | none => some s
      | some body =>
          let payload := [kindRaft, rpc.byte] ++ body
          let stage :=
            match s.stream with
            | some socket => .writing socket true (writeFrame payload)
            | none => .connecting
          some { s with stream := none, call := some ⟨rpc, req, payload, stage⟩ }

/-- `exchange` has failed or timed out, and its stream is dropped. -/
def exchangeFailed (call : Call Req) (kept : Bool) : Connection Req Res :=
  if kept then s.goOn call .connecting else { s with call := none }

/-- `exchange` has returned a response: the stream is put back, then `decode` decides
what the call returns. -/
def exchanged (call : Call Req) (socket : Nat) (resp : List UInt8) : Connection Req Res :=
  { s with
    stream := some socket
    call := none
    returned :=
      match json.decodeRes call.rpc resp with
      | some res => ⟨s.begun, call.rpc, call.req, res⟩ :: s.returned
      | none => s.returned }

/-- A read of `n` more bytes in the `read_frame` of `exchange`. -/
def readSome (call : Call Req) (socket : Nat) (kept : Bool) (got : List UInt8) (n : Nat) :
    Option (Connection Req Res) :=
  let k := s.sockets socket
  if 0 < n ∧ n ≤ missing got ∧ n ≤ k.down.length then
    let got := got ++ k.down.take n
    let s := s.setSocket socket { k with down := k.down.drop n }
    match readFrame [got] with
    | .ok (resp, _) => some (s.exchanged json call socket resp)
    | .error .tooLarge => some (s.exchangeFailed call kept)
    | .error .unexpectedEof => some (s.goOn call (.reading socket kept got))
  else none

/-- The steps of the client while a call runs. -/
def advance (call : Call Req) (e : ConnectionEvent Req Res) : Option (Connection Req Res) :=
  match e, call.stage with
  | .write n, .writing socket kept rest =>
      let k := s.sockets socket
      let marked := (rest.take n).map fun byte => (byte, s.begun)
      some ((s.setSocket socket { k with up := k.up ++ marked }).goOn call
        (.writing socket kept (rest.drop n)))
  | .flush, .writing socket kept [] => some (s.goOn call (.reading socket kept []))
  | .read n, .reading socket kept got => s.readSome json call socket kept got n
  | .fail, .writing _ kept _ => some (s.exchangeFailed call kept)
  | .fail, .reading _ kept _ => some (s.exchangeFailed call kept)
  | .connect, .connecting =>
      let stage := .writing s.opened false (writeFrame call.payload)
      some { (s.setSocket s.opened .fresh).goOn call stage with opened := s.opened + 1 }
  | .unreachable, .connecting => some { s with call := none }
  | .cancel, _ => some { s with call := none }
  | _, _ => none

/-- The Raft node answers a request, or rejects it. -/
def dispatch (socket : Nat) (slot : Option (Answers Req Res)) : Option (Connection Req Res) :=
  match (s.sockets socket).handler with
  | .dispatching frame payload =>
      match dispatchRaft json payload slot with
      | some resp =>
          some
            { s.setSocket socket
                { s.sockets socket with handler := .writing (writeFrame resp) } with
              dispatched := ⟨frame, slot, resp⟩ :: s.dispatched }
      | none => some (s.setSocket socket (s.sockets socket).close)
  | _ => none

def next (e : ConnectionEvent Req Res) : Option (Connection Req Res) :=
  match e with
  | .begin rpc req => s.begin json rpc req
  | .receive socket => ((s.sockets socket).receive voters).map (s.setSocket socket)
  | .dispatch socket slot => s.dispatch json socket slot
  | .respond socket n => ((s.sockets socket).respond n).map (s.setSocket socket)
  | .close socket => some (s.setSocket socket (s.sockets socket).close)
  | e => s.call.bind fun call => s.advance json call e

end Connection

end PgReplica
