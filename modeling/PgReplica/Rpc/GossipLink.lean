import PgReplica.Foundation.Run
import PgReplica.Rpc.Server

/-! # Gossip from one node to another

`spawn_gossip_sender` starts a task for each peer. The task takes the newest of the
frames that wait for it and writes it on the connection it holds or on a new one;
a frame whose write fails is not sent again. On the peer each connection has a handler,
and all handlers forward to one channel. Either end may be started again.
-/

namespace PgReplica

open Foundation

variable {Req Res : Rpc → Type}

/-- Where the task awaits, with the frame that it holds and has not begun to write. -/
inductive SenderStage where
  | waiting
  | taking (frame : List UInt8)
  | connecting (frame : List UInt8)
  | writing
deriving DecidableEq

/-- A connection: the frames that are written on it, how many of their bytes the
stream has accepted, and the pieces that the handler has read. -/
structure GossipStream where
  frames : List (List UInt8)
  accepted : Nat
  received : Chunks
  handled : Bool

/-- The task of one peer with the connections it has opened. A tag tells which
connection something was forwarded from. -/
structure GossipLink where
  broadcasts : List (List UInt8)
  queue : List (List UInt8)
  stage : SenderStage
  conn : Option Nat
  streams : List GossipStream
  forwarded : List (Nat × Nat × List UInt8)

inductive LinkEvent where
  | broadcast (payload : List UInt8) (hfits : 9 + payload.length ≤ maxFrame)
  | recv
  | tryRecv
  | empty
  | connect
  | connectFailed
  | accept (n : Nat)
  | written
  | writeFailed
  | read (stream n : Nat)
  | senderRestarts
  | receiverRestarts

namespace GossipStream

variable (k : GossipStream)

def bytes : List UInt8 :=
  (k.frames.map writeFrame).flatten

def fresh : GossipStream :=
  ⟨[], 0, [], true⟩

def begin (frame : List UInt8) : GossipStream :=
  { k with frames := k.frames ++ [frame] }

def accept (n : Nat) : GossipStream :=
  { k with accepted := k.accepted + n }

def close : GossipStream :=
  { k with handled := false }

/-- What the stream has accepted and the handler has not read. -/
def unread : List UInt8 :=
  (k.bytes.take k.accepted).drop k.received.flatten.length

def read (n : Nat) : GossipStream :=
  { k with received := k.received ++ [k.unread.take n] }

/-- What the handler has forwarded. -/
def forwarded (env : ConnEnv Req Res) : List (Nat × List UInt8) :=
  handleConn env 0 k.received

end GossipStream

namespace SenderStage

/-- The frame that the task has taken and has not begun to write. -/
def held : SenderStage → List (List UInt8)
  | .taking frame | .connecting frame => [frame]
  | .waiting | .writing => []

end SenderStage

namespace GossipLink

def start : GossipLink :=
  ⟨[], [], .waiting, none, [], []⟩

variable (env : ConnEnv Req Res) (sender : Nat) (s : GossipLink)

/-- `broadcast` puts a frame into the task's channel. -/
def enqueue (payload : List UInt8) : GossipLink :=
  let frame := broadcast sender payload
  { s with broadcasts := s.broadcasts ++ [frame], queue := s.queue ++ [frame] }

/-- A new sender has neither the queue nor the connection of the old one. -/
def restartSender : GossipLink :=
  { s with queue := [], stage := .waiting, conn := none }

/-- A new receiver has none of the handlers of the old one. -/
def restartReceiver : GossipLink :=
  { s with streams := s.streams.map .close }

/-- `write_frame` on a connection, up to its first await. -/
def beginWrite (stream : Nat) (frame : List UInt8) : GossipLink :=
  { s with
    stage := .writing
    conn := some stream
    streams := s.streams.modify stream (·.begin frame) }

/-- What the handler of a connection forwards when it reads `n` more bytes. -/
def forwards (stream n : Nat) : List (Nat × List UInt8) :=
  match s.streams[stream]? with
  | none => []
  | some k => ((k.read n).forwarded env).drop (k.forwarded env).length

/-- What an event leads to, and `none` where it cannot happen. Connecting and writing
may fail or time out at any moment. -/
def after : LinkEvent → Option GossipLink
  | .broadcast payload _ => some (s.enqueue sender payload)
  | .recv =>
      match s.stage, s.queue with
      | .waiting, frame :: rest => some { s with queue := rest, stage := .taking frame }
      | _, _ => none
  | .tryRecv =>
      match s.stage, s.queue with
      | .taking _, newer :: rest => some { s with queue := rest, stage := .taking newer }
      | _, _ => none
  | .empty =>
      match s.stage, s.queue with
      | .taking frame, [] =>
          match s.conn with
          | some stream => some (s.beginWrite stream frame)
          | none => some { s with stage := .connecting frame }
      | _, _ => none
  | .connect =>
      match s.stage with
      | .connecting frame =>
          let opened : GossipLink := { s with streams := s.streams ++ [.fresh] }
          some (opened.beginWrite s.streams.length frame)
      | _ => none
  | .connectFailed =>
      match s.stage with
      | .connecting _ => some { s with stage := .waiting }
      | _ => none
  | .accept n =>
      match s.stage, s.conn with
      | .writing, some stream =>
          (s.streams[stream]?).bind fun k =>
            if k.accepted + n ≤ k.bytes.length then
              some { s with streams := s.streams.set stream (k.accept n) }
            else none
      | _, _ => none
  | .written =>
      match s.stage, s.conn with
      | .writing, some stream =>
          (s.streams[stream]?).bind fun k =>
            if k.accepted = k.bytes.length then some { s with stage := .waiting } else none
      | _, _ => none
  | .writeFailed =>
      match s.stage with
      | .writing => some { s with stage := .waiting, conn := none }
      | _ => none
  | .read stream n =>
      (s.streams[stream]?).bind fun k =>
        if k.handled = true ∧ 0 < n ∧ n ≤ k.unread.length then
          some
            { s with
              streams := s.streams.set stream (k.read n)
              forwarded := s.forwarded ++ (s.forwards env stream n).map (stream, ·) }
        else none
  | .senderRestarts => some s.restartSender
  | .receiverRestarts => some s.restartReceiver

def Step (s : GossipLink) (e : LinkEvent) (s' : GossipLink) : Prop :=
  s.after env sender e = some s'

def Reachable (s : GossipLink) : Prop :=
  Foundation.Reachable (· = start) (Step env sender) s

theorem exists_reachable (events : List LinkEvent) (p : GossipLink → Bool)
    (heval : (events.foldlM (after env sender) start).any p = true) :
    ∃ s, Reachable env sender s ∧ p s = true := by
  obtain ⟨s, hfold, hend⟩ := (Option.any_eq_true _ _).mp heval
  exact ⟨s, ⟨start, events, rfl, Run.of_foldlM hfold⟩, hend⟩

/-- A write that fails after three bytes, two broadcasts of which the newer one is
written on a new connection, and a handler that reads both connections. -/
def failedThenSent : List LinkEvent :=
  [.broadcast [7] (by decide), .recv, .empty, .connect, .accept 3, .writeFailed,
    .broadcast [8] (by decide), .broadcast [9] (by decide), .recv, .tryRecv, .empty, .connect,
    .accept 14, .written, .read 1 5, .read 0 3, .read 1 9]

/-- The moves of a link, each with what it requires. -/
inductive Moves (s : GossipLink) : LinkEvent → GossipLink → Prop
  | broadcast {payload : List UInt8} {hfits : 9 + payload.length ≤ maxFrame} :
      Moves s (.broadcast payload hfits) (s.enqueue sender payload)
  | recv {frame : List UInt8} {rest : List (List UInt8)} (hstage : s.stage = .waiting)
      (hqueue : s.queue = frame :: rest) :
      Moves s .recv { s with queue := rest, stage := .taking frame }
  | tryRecv {frame newer : List UInt8} {rest : List (List UInt8)}
      (hstage : s.stage = .taking frame) (hqueue : s.queue = newer :: rest) :
      Moves s .tryRecv { s with queue := rest, stage := .taking newer }
  | reuse {frame : List UInt8} {stream : Nat} (hstage : s.stage = .taking frame)
      (hqueue : s.queue = []) (hconn : s.conn = some stream) :
      Moves s .empty (s.beginWrite stream frame)
  | dial {frame : List UInt8} (hstage : s.stage = .taking frame) (hqueue : s.queue = [])
      (hconn : s.conn = none) : Moves s .empty { s with stage := .connecting frame }
  | connect {frame : List UInt8} (hstage : s.stage = .connecting frame) :
      Moves s .connect
        (beginWrite { s with streams := s.streams ++ [.fresh] } s.streams.length frame)
  | connectFailed {frame : List UInt8} (hstage : s.stage = .connecting frame) :
      Moves s .connectFailed { s with stage := .waiting }
  | accept {stream n : Nat} {k : GossipStream} (hstage : s.stage = .writing)
      (hconn : s.conn = some stream) (hk : s.streams[stream]? = some k)
      (hle : k.accepted + n ≤ k.bytes.length) :
      Moves s (.accept n) { s with streams := s.streams.set stream (k.accept n) }
  | written {stream : Nat} {k : GossipStream} (hstage : s.stage = .writing)
      (hconn : s.conn = some stream) (hk : s.streams[stream]? = some k)
      (hall : k.accepted = k.bytes.length) : Moves s .written { s with stage := .waiting }
  | writeFailed (hstage : s.stage = .writing) :
      Moves s .writeFailed { s with stage := .waiting, conn := none }
  | read {stream n : Nat} {k : GossipStream} (hk : s.streams[stream]? = some k)
      (hhandled : k.handled = true) (hpos : 0 < n) (hle : n ≤ k.unread.length) :
      Moves s (.read stream n)
        { s with
          streams := s.streams.set stream (k.read n)
          forwarded := s.forwarded ++ (s.forwards env stream n).map (stream, ·) }
  | senderRestarts : Moves s .senderRestarts s.restartSender
  | receiverRestarts : Moves s .receiverRestarts s.restartReceiver

variable {env sender s} {s' : GossipLink} {e : LinkEvent}

theorem moves_of_step (hstep : Step env sender s e s') : Moves env sender s e s' := by
  unfold Step at hstep
  cases e with
  | broadcast payload hfits =>
      cases hstep
      exact .broadcast
  | recv =>
      simp only [after] at hstep
      split at hstep
      next hstage hqueue =>
        cases hstep
        exact .recv hstage hqueue
      next => cases hstep
  | tryRecv =>
      simp only [after] at hstep
      split at hstep
      next hstage hqueue =>
        cases hstep
        exact .tryRecv hstage hqueue
      next => cases hstep
  | empty =>
      simp only [after] at hstep
      split at hstep
      next hstage hqueue =>
        split at hstep
        next hconn =>
          cases hstep
          exact .reuse hstage hqueue hconn
        next hconn =>
          cases hstep
          exact .dial hstage hqueue hconn
      next => cases hstep
  | connect =>
      simp only [after] at hstep
      split at hstep
      next hstage =>
        cases hstep
        exact .connect hstage
      next => cases hstep
  | connectFailed =>
      simp only [after] at hstep
      split at hstep
      next hstage =>
        cases hstep
        exact .connectFailed hstage
      next => cases hstep
  | accept n =>
      simp only [after] at hstep
      split at hstep
      next hstage hconn =>
        obtain ⟨k, hk, hif⟩ := Option.bind_eq_some_iff.mp hstep
        obtain ⟨hle, hsome⟩ := Option.ite_none_right_eq_some.mp hif
        cases hsome
        exact .accept hstage hconn hk hle
      next => cases hstep
  | written =>
      simp only [after] at hstep
      split at hstep
      next hstage hconn =>
        obtain ⟨k, hk, hif⟩ := Option.bind_eq_some_iff.mp hstep
        obtain ⟨hall, hsome⟩ := Option.ite_none_right_eq_some.mp hif
        cases hsome
        exact .written hstage hconn hk hall
      next => cases hstep
  | writeFailed =>
      simp only [after] at hstep
      split at hstep
      next hstage =>
        cases hstep
        exact .writeFailed hstage
      next => cases hstep
  | read stream n =>
      obtain ⟨k, hk, hif⟩ := Option.bind_eq_some_iff.mp hstep
      obtain ⟨⟨hhandled, hpos, hle⟩, hsome⟩ := Option.ite_none_right_eq_some.mp hif
      cases hsome
      exact .read hk hhandled hpos hle
  | senderRestarts =>
      cases hstep
      exact .senderRestarts
  | receiverRestarts =>
      cases hstep
      exact .receiverRestarts

end GossipLink

end PgReplica
