import Mathlib.Data.List.Perm.Subperm
import PgReplica.Foundation.Indexed
import PgReplica.Rpc.GossipLink

/-! # What a peer hears of the broadcasts

No broadcast is forwarded twice, whatever fails and whoever is started again, and the
frames of one connection keep their order. A sender that has come to rest on a
connection has written its newest broadcast there.
-/

namespace PgReplica

open Foundation

variable {Req Res : Rpc → Type}

/-! ## What a handler reads of a stream of gossip -/

/-- A frame of gossip that a reader accepts. -/
def GossipFrame (sender : Nat) (frame : List UInt8) : Prop :=
  ∃ payload, 9 + payload.length ≤ maxFrame ∧ frame = broadcast sender payload

theorem length_broadcast (sender : Nat) (payload : List UInt8) :
    (broadcast sender payload).length = 9 + payload.length := by
  simp only [broadcast, List.length_cons, List.length_append, length_toBeBytes]
  omega

/-- A voter's broadcast is forwarded. -/
theorem gossipOf_broadcast {voters : List Nat} {sender : Nat} (hsender : sender < 2 ^ 64)
    (hvoter : sender ∈ voters) (payload : List UInt8) :
    gossipOf voters (broadcast sender payload) = some (sender, payload) := by
  have hlength : 9 ≤ (broadcast sender payload).length := by
    rw [length_broadcast]
    omega
  have hread : fromBeBytes (((broadcast sender payload).drop 1).take 8) = sender := by
    simp [broadcast, fromBeBytes_toBeBytes hsender]
  have hpayload : (broadcast sender payload).drop 9 = payload := by
    simp [broadcast]
  rw [gossipOf, hread, hpayload, if_pos ⟨rfl, hlength, hvoter⟩]

namespace ConnEnv

variable {env : ConnEnv Req Res} {sender i : Nat}

/-- The frames of a longer stream begin with those of a shorter one. -/
theorem Passed.prefix_of_append {bytes more : List UInt8} {frames frames' : List (List UInt8)}
    (hpassed : env.Passed i bytes frames) (hpassed' : env.Passed i (bytes ++ more) frames') :
    frames <+: frames' := by
  induction hpassed generalizing frames' with
  | stop => exact List.nil_prefix
  | @pass i frame left frames hmax hpass _ ih =>
      rw [List.append_assoc] at hpassed'
      generalize hbytes : writeFrame frame ++ (left ++ more) = bytes at hpassed'
      cases hpassed' with
      | stop hstop => exact absurd (hbytes ▸ hstop) (hpass.not_stopsAt hmax _)
      | pass hmax' _ hrest =>
          obtain ⟨rfl, rfl⟩ := writeFrame_append_inj hmax hmax' hbytes
          exact List.cons_prefix_cons.mpr ⟨rfl, ih hrest⟩

/-- Gossip frames pass, and the connection stops at the end of the stream. -/
theorem passed_of_gossip {frames : List (List UInt8)}
    (hgossip : ∀ frame ∈ frames, GossipFrame sender frame) :
    env.Passed i (frames.map writeFrame).flatten frames := by
  induction frames generalizing i with
  | nil => exact .stop (.ends (by simp))
  | cons frame rest ih =>
      obtain ⟨payload, hfits, rfl⟩ := hgossip frame List.mem_cons_self
      rw [List.map_cons, List.flatten_cons]
      refine .pass ?_ (.gossip _) (ih fun frame hframe => hgossip frame (.tail _ hframe))
      rwa [length_broadcast]

end ConnEnv

/-- A handler that reads on forwards on. -/
theorem handleConn_mono (env : ConnEnv Req Res) {i : Nat} {chunks chunks' : Chunks}
    (hinitial : chunks.flatten <+: chunks'.flatten) :
    handleConn env i chunks <+: handleConn env i chunks' := by
  obtain ⟨more, hmore⟩ := hinitial
  obtain ⟨frames, hpassed⟩ := env.exists_passed i chunks.flatten
  obtain ⟨frames', hpassed'⟩ := env.exists_passed i chunks'.flatten
  rw [handleConn_of_passed hpassed rfl, handleConn_of_passed hpassed' rfl]
  exact (hpassed.prefix_of_append (hmore ▸ hpassed')).filterMap _

namespace GossipStream

variable {k : GossipStream} {sender : Nat} {frame : List UInt8}

/-- The handler has read a part of what the stream has accepted, which is a part of
the frames. -/
structure Sound (k : GossipStream) (sender : Nat) : Prop where
  gossip : ∀ frame ∈ k.frames, GossipFrame sender frame
  accepted_le : k.accepted ≤ k.bytes.length
  received : k.received.flatten <+: k.bytes.take k.accepted

theorem bytes_begin : (k.begin frame).bytes = k.bytes ++ writeFrame frame := by
  simp [bytes, begin]

theorem Sound.flatten_append_unread (hsound : k.Sound sender) :
    k.received.flatten ++ k.unread = k.bytes.take k.accepted := by
  obtain ⟨rest, hrest⟩ := hsound.received
  rw [unread, ← hrest, List.drop_left]

theorem Sound.received_initial (hsound : k.Sound sender) : k.received.flatten <+: k.bytes :=
  hsound.received.trans (List.take_prefix _ _)

theorem sound_fresh : fresh.Sound sender :=
  ⟨fun _ hmem => absurd hmem List.not_mem_nil, Nat.zero_le _, List.nil_prefix⟩

theorem Sound.begin (hsound : k.Sound sender) (hframe : GossipFrame sender frame) :
    (k.begin frame).Sound sender := by
  have haccepted : k.accepted ≤ k.bytes.length := hsound.accepted_le
  refine ⟨fun other hother => ?_, ?_, ?_⟩
  · rcases List.mem_append.mp hother with hold | hnew
    · exact hsound.gossip other hold
    · rwa [List.mem_singleton.mp hnew]
  · rw [bytes_begin, List.length_append]
    exact Nat.le_add_right_of_le haccepted
  · rw [bytes_begin]
    change k.received.flatten <+: (k.bytes ++ writeFrame frame).take k.accepted
    rw [List.take_append_of_le_length haccepted]
    exact hsound.received

theorem Sound.accept (hsound : k.Sound sender) {n : Nat}
    (hle : k.accepted + n ≤ k.bytes.length) : (k.accept n).Sound sender :=
  ⟨hsound.gossip, hle, hsound.received.trans (List.take_prefix_take_left (Nat.le_add_right _ _))⟩

theorem Sound.read (hsound : k.Sound sender) (n : Nat) : (k.read n).Sound sender := by
  refine ⟨hsound.gossip, hsound.accepted_le, ?_⟩
  change (k.received ++ [k.unread.take n]).flatten <+: k.bytes.take k.accepted
  rw [List.flatten_append, List.flatten_singleton, ← hsound.flatten_append_unread]
  exact List.prefix_append_right_inj _ |>.mpr (List.take_prefix _ _)

theorem Sound.close (hsound : k.Sound sender) : k.close.Sound sender :=
  ⟨hsound.gossip, hsound.accepted_le, hsound.received⟩

/-- What has been forwarded is the gossip of the first frames. -/
theorem Sound.exists_forwarded (hsound : k.Sound sender) (env : ConnEnv Req Res) :
    ∃ passed, passed <+: k.frames ∧
      k.forwarded env = passed.filterMap (gossipOf env.voters) := by
  obtain ⟨passed, hpassed⟩ := env.exists_passed 0 k.received.flatten
  obtain ⟨more, hmore⟩ := hsound.received_initial
  have hall : env.Passed 0 (k.received.flatten ++ more) k.frames :=
    hmore ▸ ConnEnv.passed_of_gossip hsound.gossip
  exact ⟨passed, hpassed.prefix_of_append hall, handleConn_of_passed hpassed rfl⟩

/-- A handler that has read everything has forwarded everything. -/
theorem Sound.forwarded_eq (hsound : k.Sound sender) (env : ConnEnv Req Res)
    (hread : k.received.flatten = k.bytes) :
    k.forwarded env = k.frames.filterMap (gossipOf env.voters) :=
  handleConn_of_passed (ConnEnv.passed_of_gossip hsound.gossip) hread

theorem forwarded_read (env : ConnEnv Req Res) (n : Nat) :
    k.forwarded env ++ ((k.read n).forwarded env).drop (k.forwarded env).length =
      (k.read n).forwarded env := by
  refine List.prefix_iff_eq_append.mp (handleConn_mono env ⟨k.unread.take n, ?_⟩)
  simp [read]

end GossipStream

namespace GossipLink

variable {env : ConnEnv Req Res} {sender : Nat} {s s' : GossipLink} {e : LinkEvent}

/-! ## What the task takes and writes -/

/-- The frames that have been begun on some connection, in order. -/
def begun (s : GossipLink) : List (List UInt8) :=
  s.streams.flatMap GossipStream.frames

/-- The frames that the task has not begun to write. -/
def unwritten (s : GossipLink) : List (List UInt8) :=
  s.stage.held ++ s.queue

theorem broadcasts_enqueue (payload : List UInt8) : (s.enqueue sender payload).broadcasts =
    s.broadcasts ++ [broadcast sender payload] := rfl

theorem unwritten_enqueue (payload : List UInt8) : (s.enqueue sender payload).unwritten =
    s.unwritten ++ [broadcast sender payload] :=
  (List.append_assoc ..).symm

/-- The task holds its newest connection, and what it has not begun to write ends with
the newest broadcast. -/
structure Tasked (sender : Nat) (s : GossipLink) : Prop where
  conn : ∀ stream, s.conn = some stream → stream + 1 = s.streams.length
  connecting : ∀ frame, s.stage = .connecting frame → s.conn = none
  gossip : ∀ frame ∈ s.broadcasts, GossipFrame sender frame
  nonempty : ∀ k ∈ s.streams, k.frames ≠ []
  order : (s.begun ++ s.unwritten).Sublist s.broadcasts
  newest : ∀ frame, s.unwritten.getLast? = some frame → s.broadcasts.getLast? = some frame
  newestBegun : s.conn.isSome → s.unwritten = [] → s.begun.getLast? = s.broadcasts.getLast?

theorem tasked_start : Tasked sender start :=
  ⟨by rintro _ ⟨⟩, by rintro _ ⟨⟩, by rintro _ ⟨⟩, by rintro _ ⟨⟩, List.nil_sublist _,
    by rintro _ ⟨⟩, by rintro ⟨⟩⟩

theorem begun_beginWrite {stream : Nat} {frame : List UInt8}
    (hlast : stream + 1 = s.streams.length) :
    (s.beginWrite stream frame).begun = s.begun ++ [frame] := by
  obtain ⟨init, k, hstreams, rfl⟩ := exists_eq_append_of_last hlast
  rw [begun, begun, beginWrite]
  simp only [hstreams, modify_append_singleton, List.flatMap_append, List.flatMap_singleton,
    GossipStream.begin, List.append_assoc]

/-- The frame that the task holds has been begun on the last connection. -/
theorem Tasked.begin {t : GossipLink} (htasked : Tasked sender s) (frame : List UInt8)
    (hlast : ∀ stream, t.conn = some stream → stream + 1 = t.streams.length)
    (hstage : t.stage = .writing) (hbroadcasts : t.broadcasts = s.broadcasts)
    (hqueue : t.queue = s.queue) (hunwritten : s.unwritten = frame :: s.queue)
    (hbegun : t.begun = s.begun ++ [frame]) (hnonempty : ∀ k ∈ t.streams, k.frames ≠ []) :
    Tasked sender t := by
  have hleft : t.unwritten = s.queue := by
    rw [unwritten, hstage, hqueue]
    rfl
  refine ⟨hlast, ?_, ?_, hnonempty, ?_, ?_, ?_⟩
  · intro other hother
    rw [hstage] at hother
    cases hother
  · rw [hbroadcasts]
    exact htasked.gossip
  · have horder := htasked.order
    rw [hunwritten, List.append_cons] at horder
    rwa [hbroadcasts, hbegun, hleft]
  · intro other hother
    rw [hleft] at hother
    rw [hbroadcasts]
    refine htasked.newest other ?_
    rw [hunwritten, List.getLast?_cons, hother]
    rfl
  · intro _ hempty
    rw [hleft] at hempty
    rw [hbroadcasts, hbegun, List.getLast?_concat]
    refine (htasked.newest frame ?_).symm
    rw [hunwritten, hempty]
    rfl

/-- A step that begins no frame keeps what is known of the streams. -/
theorem Tasked.keep {t : GossipLink} (htasked : Tasked sender s)
    (hconn : t.conn = none ∨ t.conn = s.conn) (hlength : t.streams.length = s.streams.length)
    (hconnecting : ∀ frame, t.stage = .connecting frame → t.conn = none)
    (hbroadcasts : t.broadcasts = s.broadcasts)
    (hframes : t.streams.map GossipStream.frames = s.streams.map GossipStream.frames)
    (hunwritten : t.unwritten <:+ s.unwritten)
    (hheld : t.conn.isSome → t.unwritten = [] → s.unwritten = []) : Tasked sender t := by
  have hbegun : t.begun = s.begun := by
    rw [begun, begun, List.flatMap_def, List.flatMap_def, hframes]
  have hconnEq : t.conn.isSome → t.conn = s.conn := by
    intro hsome
    rcases hconn with hnone | hsame
    · rw [hnone] at hsome
      cases hsome
    · exact hsame
  refine ⟨?_, hconnecting, ?_, ?_, ?_, ?_, ?_⟩
  · intro stream hstream
    rw [hlength]
    exact htasked.conn stream (hconnEq (by rw [hstream]; rfl) ▸ hstream)
  · rw [hbroadcasts]
    exact htasked.gossip
  · intro k hk hnil
    have hmem : ([] : List (List UInt8)) ∈ s.streams.map GossipStream.frames := by
      rw [← hframes, ← hnil]
      exact List.mem_map_of_mem hk
    obtain ⟨k', hk', hnil'⟩ := List.mem_map.mp hmem
    exact htasked.nonempty k' hk' hnil'
  · rw [hbroadcasts, hbegun]
    exact (hunwritten.sublist.append_left _).trans htasked.order
  · intro frame hframe
    rw [hbroadcasts]
    obtain ⟨before, hbefore⟩ := hunwritten
    refine htasked.newest frame ?_
    rw [← hbefore, List.getLast?_append, hframe]
    rfl
  · intro hsome hempty
    rw [hbroadcasts, hbegun]
    exact htasked.newestBegun (hconnEq hsome ▸ hsome) (hheld hsome hempty)

theorem map_frames_set {stream : Nat} {k k' : GossipStream} (hk : s.streams[stream]? = some k)
    (hframes : k'.frames = k.frames) :
    (s.streams.set stream k').map GossipStream.frames = s.streams.map GossipStream.frames := by
  obtain ⟨hlt, rfl⟩ := List.getElem?_eq_some_iff.mp hk
  have hlt' : stream < (s.streams.map GossipStream.frames).length := by rwa [List.length_map]
  have hget : (s.streams.map GossipStream.frames)[stream] = s.streams[stream].frames :=
    List.getElem_map _
  rw [List.map_set, hframes, ← hget, List.set_getElem_self]

theorem tasked_of_step (htasked : Tasked sender s) (hstep : Step env sender s e s') :
    Tasked sender s' := by
  cases moves_of_step hstep with
  | @broadcast payload hfits =>
      refine ⟨htasked.conn, htasked.connecting, ?_, htasked.nonempty, ?_, ?_, ?_⟩
      · intro frame hframe
        rcases List.mem_append.mp hframe with hold | hnew
        · exact htasked.gossip frame hold
        · exact ⟨payload, hfits, List.mem_singleton.mp hnew⟩
      · rw [unwritten_enqueue, ← List.append_assoc]
        exact htasked.order.append (List.Sublist.refl _)
      · intro frame hframe
        rw [unwritten_enqueue, List.getLast?_concat] at hframe
        rw [broadcasts_enqueue, List.getLast?_concat, hframe]
      · intro _ hempty
        rw [unwritten_enqueue] at hempty
        exact absurd hempty (List.append_ne_nil_of_right_ne_nil _ (List.cons_ne_nil _ _))
  | recv hstage hqueue =>
      have hsame : s.unwritten = s.queue := by rw [unwritten, hstage]; rfl
      exact htasked.keep (.inr rfl) rfl (by rintro _ ⟨⟩) rfl rfl
        (by rw [hsame, hqueue]; exact List.suffix_rfl) (by rintro _ ⟨⟩)
  | @tryRecv frame newer rest hstage hqueue =>
      have hlonger : s.unwritten = [frame] ++ (newer :: rest) := by
        rw [unwritten, hstage, hqueue]; rfl
      exact htasked.keep (.inr rfl) rfl (by rintro _ ⟨⟩) rfl rfl
        (by rw [hlonger]; exact List.suffix_append _ _) (by rintro _ ⟨⟩)
  | @reuse frame stream hstage hqueue hconn =>
      have hlast := htasked.conn stream hconn
      obtain ⟨init, k, hstreams, rfl⟩ := exists_eq_append_of_last hlast
      refine htasked.begin frame ?_ rfl rfl rfl ?_ (begun_beginWrite hlast) fun k' hk' => ?_
      · rintro other ⟨⟩
        rwa [beginWrite, List.length_modify]
      · rw [unwritten, hstage]
        rfl
      · rw [beginWrite, hstreams, modify_append_singleton] at hk'
        rcases List.mem_append.mp hk' with hold | hnew
        · exact htasked.nonempty k' (hstreams ▸ List.mem_append_left _ hold)
        · rw [List.mem_singleton.mp hnew]
          exact List.append_ne_nil_of_right_ne_nil _ (List.cons_ne_nil _ _)
  | @dial frame hstage hqueue hconn =>
      have hsame : s.unwritten = [frame] := by rw [unwritten, hstage, hqueue]; rfl
      exact htasked.keep (.inr rfl) rfl (fun _ _ => hconn) rfl rfl
        (by rw [hsame, unwritten, hqueue]; exact List.suffix_rfl) (by rw [hconn]; rintro ⟨⟩)
  | @connect frame hstage =>
      have hstreams : (beginWrite { s with streams := s.streams ++ [.fresh] } s.streams.length
          frame).streams = s.streams ++ [GossipStream.fresh.begin frame] := by
        rw [beginWrite, modify_append_singleton]
      refine htasked.begin frame ?_ rfl rfl rfl ?_ ?_ fun k hk => ?_
      · rintro other ⟨⟩
        rw [hstreams, List.length_append]
        rfl
      · rw [unwritten, hstage]
        rfl
      · rw [begun, begun, hstreams, List.flatMap_append, List.flatMap_singleton]
        rfl
      · rw [hstreams] at hk
        rcases List.mem_append.mp hk with hold | hnew
        · exact htasked.nonempty k hold
        · rw [List.mem_singleton.mp hnew]
          exact List.cons_ne_nil _ _
  | connectFailed hstage =>
      have hnone := htasked.connecting _ hstage
      exact htasked.keep (.inr rfl) rfl (by rintro _ ⟨⟩) rfl rfl
        (List.suffix_append _ _) (by rw [hnone]; rintro ⟨⟩)
  | accept hstage hconn hk hle =>
      exact htasked.keep (.inr rfl) (List.length_set ..) htasked.connecting rfl
        (map_frames_set hk rfl) List.suffix_rfl fun _ hempty => hempty
  | written hstage hconn hk hall =>
      exact htasked.keep (.inr rfl) rfl (by rintro _ ⟨⟩) rfl rfl
        (by rw [unwritten, unwritten, hstage]; exact List.suffix_rfl)
        (fun _ hempty => by rw [unwritten, hstage]; exact hempty)
  | writeFailed hstage =>
      exact htasked.keep (.inl rfl) rfl (by rintro _ ⟨⟩) rfl rfl
        (by rw [unwritten, unwritten, hstage]; exact List.suffix_rfl) (by rintro ⟨⟩)
  | read hk hhandled hpos hle =>
      exact htasked.keep (.inr rfl) (List.length_set ..) htasked.connecting rfl
        (map_frames_set hk rfl) List.suffix_rfl fun _ hempty => hempty
  | senderRestarts =>
      exact htasked.keep (.inl rfl) rfl (by rintro _ ⟨⟩) rfl rfl
        List.nil_suffix (by rintro ⟨⟩)
  | receiverRestarts =>
      exact htasked.keep (.inr rfl) (List.length_map ..) htasked.connecting rfl
        (by rw [restartReceiver, List.map_map]; rfl) List.suffix_rfl fun _ hempty => hempty

theorem Tasked.gossip_held {frame : List UInt8} (htasked : Tasked sender s)
    (hheld : s.stage.held = [frame]) : GossipFrame sender frame := by
  refine htasked.gossip frame (htasked.order.subset ?_)
  rw [unwritten, hheld]
  exact List.mem_append_right _ List.mem_cons_self

/-! ## What the handlers forward -/

/-- What an event puts on the channel, each entry with its connection. -/
def emitted (env : ConnEnv Req Res) (s : GossipLink) : LinkEvent → List (Nat × Nat × List UInt8)
  | .read stream n => (s.forwards env stream n).map (stream, ·)
  | _ => []

def forwardedFrom (s : GossipLink) (stream : Nat) : List (Nat × List UInt8) :=
  (s.forwarded.filter (·.1 == stream)).map Prod.snd

theorem forwarded_of_step (hstep : Step env sender s e s') :
    s'.forwarded = s.forwarded ++ s.emitted env e := by
  cases moves_of_step hstep with
  | read => rfl
  | _ => exact (List.append_nil _).symm

/-- What a step does to one connection. -/
inductive StreamMoves (s : GossipLink) (e : LinkEvent) (stream : Nat) : GossipStream → Prop
  | kept {k : GossipStream} (hk : s.streams[stream]? = some k)
      (hother : ∀ n, e ≠ .read stream n) : StreamMoves s e stream k
  | began {k : GossipStream} {frame : List UInt8} (hk : s.streams[stream]? = some k)
      (hheld : s.stage.held = [frame]) (hother : ∀ i n, e ≠ .read i n) :
      StreamMoves s e stream (k.begin frame)
  | opened {frame : List UInt8} (hnew : stream = s.streams.length)
      (hheld : s.stage.held = [frame]) (hother : ∀ i n, e ≠ .read i n) :
      StreamMoves s e stream (GossipStream.fresh.begin frame)
  | accepted {k : GossipStream} {n : Nat} (hk : s.streams[stream]? = some k)
      (hle : k.accepted + n ≤ k.bytes.length) (hother : ∀ i n, e ≠ .read i n) :
      StreamMoves s e stream (k.accept n)
  | read {k : GossipStream} {n : Nat} (hk : s.streams[stream]? = some k)
      (he : e = .read stream n) : StreamMoves s e stream (k.read n)
  | closed {k : GossipStream} (hk : s.streams[stream]? = some k)
      (hother : ∀ i n, e ≠ .read i n) : StreamMoves s e stream k.close

theorem streamMoves_of_step (hstep : Step env sender s e s') {stream : Nat} {k : GossipStream}
    (hk : s'.streams[stream]? = some k) : StreamMoves s e stream k := by
  cases moves_of_step hstep with
  | @reuse frame conn hstage hqueue hconn =>
      rcases getElem?_modify_cases hk with ⟨old, rfl, hold, rfl⟩ | ⟨-, hkept⟩
      · exact .began hold (by rw [hstage]; rfl) (by rintro i n ⟨⟩)
      · exact .kept hkept (by rintro n ⟨⟩)
  | @connect frame hstage =>
      rw [beginWrite, modify_append_singleton] at hk
      rcases getElem?_concat_cases hk with hkept | ⟨hnew, rfl⟩
      · exact .kept hkept (by rintro n ⟨⟩)
      · exact .opened hnew (by rw [hstage]; rfl) (by rintro i n ⟨⟩)
  | accept hstage hconn hold hle =>
      rcases getElem?_set_cases hk with ⟨rfl, rfl⟩ | ⟨-, hkept⟩
      · exact .accepted hold hle (by rintro i n ⟨⟩)
      · exact .kept hkept (by rintro n ⟨⟩)
  | @read i n old hold hhandled hpos hle =>
      rcases getElem?_set_cases hk with ⟨rfl, rfl⟩ | ⟨hne, hkept⟩
      · exact .read hold rfl
      · exact .kept hkept (by rintro m ⟨⟩; exact hne rfl)
  | receiverRestarts =>
      rw [restartReceiver, List.getElem?_map] at hk
      obtain ⟨old, hold, rfl⟩ := Option.map_eq_some_iff.mp hk
      exact .closed hold (by rintro i n ⟨⟩)
  | _ => exact .kept hk (by rintro n ⟨⟩)

/-- Every connection carries its frames, and what was forwarded from it is what its
handler has made of the pieces it has read. -/
structure Delivered (env : ConnEnv Req Res) (sender : Nat) (s : GossipLink) : Prop where
  sound : ∀ (stream : Nat) k, s.streams[stream]? = some k → k.Sound sender
  forwarded : ∀ stream k, s.streams[stream]? = some k → s.forwardedFrom stream = k.forwarded env
  forwarded_lt : ∀ out ∈ s.forwarded, out.1 < s.streams.length

theorem forwardedFrom_of_step {stream : Nat} (hother : ∀ n, e ≠ .read stream n)
    (hstep : Step env sender s e s') : s'.forwardedFrom stream = s.forwardedFrom stream := by
  rw [forwardedFrom, forwarded_of_step hstep, List.filter_append, List.map_append]
  have hnone : (s.emitted env e).filter (·.1 == stream) = [] := by
    rw [List.filter_eq_nil_iff]
    intro out hout
    cases e with
    | read i n =>
        obtain ⟨_, -, rfl⟩ := List.mem_map.mp hout
        simpa using fun heq : i = stream => hother n (heq ▸ rfl)
    | _ => cases hout
  rw [hnone]
  exact List.append_nil _

theorem forwardedFrom_read {stream n : Nat} {k : GossipStream}
    (hk : s.streams[stream]? = some k) (hstep : Step env sender s (.read stream n) s') :
    s'.forwardedFrom stream =
      s.forwardedFrom stream ++ ((k.read n).forwarded env).drop (k.forwarded env).length := by
  have hforwards : s.forwards env stream n =
      ((k.read n).forwarded env).drop (k.forwarded env).length := by
    rw [forwards, hk]
  rw [forwardedFrom, forwarded_of_step hstep, List.filter_append, List.map_append, emitted,
    hforwards, List.filter_map, List.map_map]
  congr 1
  simp [Function.comp_def]

theorem length_streams_of_step (hstep : Step env sender s e s') :
    s.streams.length ≤ s'.streams.length := by
  cases moves_of_step hstep with
  | reuse => exact Nat.le_of_eq (List.length_modify ..).symm
  | connect =>
      rw [beginWrite, List.length_modify, List.length_append]
      exact Nat.le_add_right _ _
  | accept => exact Nat.le_of_eq List.length_set.symm
  | read => exact Nat.le_of_eq List.length_set.symm
  | receiverRestarts => exact Nat.le_of_eq (List.length_map _).symm
  | _ => exact Nat.le_refl _

theorem delivered_of_step (htasked : Tasked sender s) (hdelivered : Delivered env sender s)
    (hstep : Step env sender s e s') : Delivered env sender s' := by
  refine ⟨fun stream k hk => ?_, fun stream k hk => ?_, fun out hout => ?_⟩
  · cases streamMoves_of_step hstep hk with
    | kept hold => exact hdelivered.sound stream k hold
    | began hold hheld => exact (hdelivered.sound stream _ hold).begin (htasked.gossip_held hheld)
    | opened hnew hheld => exact GossipStream.sound_fresh.begin (htasked.gossip_held hheld)
    | accepted hold hle => exact (hdelivered.sound stream _ hold).accept hle
    | read hold he => exact (hdelivered.sound stream _ hold).read _
    | closed hold => exact (hdelivered.sound stream _ hold).close
  · cases streamMoves_of_step hstep hk with
    | kept hold hother =>
        rw [forwardedFrom_of_step hother hstep]
        exact hdelivered.forwarded stream k hold
    | began hold hheld hother =>
        rw [forwardedFrom_of_step (hother stream) hstep]
        exact (hdelivered.forwarded stream _ hold).trans rfl
    | opened hnew hheld hother =>
        rw [forwardedFrom_of_step (hother stream) hstep, forwardedFrom]
        have hnone : s.forwarded.filter (·.1 == stream) = [] := by
          rw [List.filter_eq_nil_iff]
          intro out hout
          have hlt := hdelivered.forwarded_lt out hout
          simp only [beq_iff_eq]
          omega
        rw [hnone]
        change [] = handleConn env 0 []
        exact (handleConn_of_error (readFrame_of_short (by decide))).symm
    | accepted hold hle hother =>
        rw [forwardedFrom_of_step (hother stream) hstep]
        exact (hdelivered.forwarded stream _ hold).trans rfl
    | read hold he =>
        subst he
        rw [forwardedFrom_read hold hstep, hdelivered.forwarded stream _ hold,
          GossipStream.forwarded_read]
    | closed hold hother =>
        rw [forwardedFrom_of_step (hother stream) hstep]
        exact (hdelivered.forwarded stream _ hold).trans rfl
  · rw [forwarded_of_step hstep] at hout
    rcases List.mem_append.mp hout with hold | hnew
    · exact Nat.lt_of_lt_of_le (hdelivered.forwarded_lt out hold) (length_streams_of_step hstep)
    · cases moves_of_step hstep with
      | read hk =>
          obtain ⟨_, -, rfl⟩ := List.mem_map.mp hnew
          rw [List.length_set]
          exact (List.getElem?_eq_some_iff.mp hk).1
      | _ => cases hnew

theorem delivered_start : Delivered env sender start :=
  ⟨by rintro _ _ ⟨⟩, by rintro _ _ ⟨⟩, by rintro _ ⟨⟩⟩

theorem Reachable.accounted (hreach : Reachable env sender s) :
    Tasked sender s ∧ Delivered env sender s := by
  refine hreach.invariant (I := fun s => Tasked sender s ∧ Delivered env sender s) ?_
    fun s e s' hs hstep => ⟨tasked_of_step hs.1 hstep, delivered_of_step hs.1 hs.2 hstep⟩
  rintro _ rfl
  exact ⟨tasked_start, delivered_start⟩

theorem Delivered.exists_passed (hdelivered : Delivered env sender s) {stream : Nat}
    {k : GossipStream} (hk : s.streams[stream]? = some k) :
    ∃ passed, passed <+: k.frames ∧
      s.forwardedFrom stream = passed.filterMap (gossipOf env.voters) := by
  rw [hdelivered.forwarded stream k hk]
  exact (hdelivered.sound stream k hk).exists_forwarded env

theorem Tasked.begun_sublist (htasked : Tasked sender s) : s.begun.Sublist s.broadcasts :=
  (List.sublist_append_left _ _).trans htasked.order

/-- What has been forwarded was broadcast, each broadcast at most once. -/
theorem Delivered.subperm (htasked : Tasked sender s) (hdelivered : Delivered env sender s) :
    (s.forwarded.map Prod.snd).Subperm (s.broadcasts.filterMap (gossipOf env.voters)) := by
  have hmerged : (s.forwarded.map Prod.snd).Perm
      ((List.range s.streams.length).flatMap s.forwardedFrom) := by
    have hperm := (perm_flatMap_filter hdelivered.forwarded_lt).map Prod.snd
    rwa [List.map_flatMap] at hperm
  have hparts : ((List.range s.streams.length).flatMap s.forwardedFrom).Sublist
      (s.streams.flatMap fun k => k.frames.filterMap (gossipOf env.voters)) := by
    refine flatMap_range_sublist fun stream k hk => ?_
    obtain ⟨passed, hinitial, hpassed⟩ := hdelivered.exists_passed hk
    rw [hpassed]
    exact hinitial.sublist.filterMap _
  have hwhole : (s.streams.flatMap fun k => k.frames.filterMap (gossipOf env.voters)) =
      s.begun.filterMap (gossipOf env.voters) := by
    rw [begun, List.filterMap_flatMap]
  rw [hwhole] at hparts
  exact hmerged.subperm.trans (hparts.trans (htasked.begun_sublist.filterMap _)).subperm

/-- Whatever fails and whoever is started again, no broadcast is forwarded twice and
nothing is forwarded that was not broadcast. Each connection forwards the gossip of its
first frames, in order; frames are begun in the order of their broadcasts. -/
theorem forwarded_once (hreach : Reachable env sender s) :
    s.begun.Sublist s.broadcasts ∧
    (∀ (stream : Nat) k, s.streams[stream]? = some k → ∃ passed, passed <+: k.frames ∧
      s.forwardedFrom stream = passed.filterMap (gossipOf env.voters)) ∧
    (s.forwarded.map Prod.snd).Subperm (s.broadcasts.filterMap (gossipOf env.voters)) := by
  obtain ⟨htasked, hdelivered⟩ := hreach.accounted
  exact ⟨htasked.begun_sublist, fun stream k hk => hdelivered.exists_passed hk,
    hdelivered.subperm htasked⟩

theorem forwarded_once_three_voters : ∃ s, Reachable threeVoters 1 s ∧ s.broadcasts.length = 3 ∧
    s.begun.length = 2 ∧
      (s.forwarded.map Prod.snd).Subperm (s.broadcasts.filterMap (gossipOf [1, 2, 3])) := by
  obtain ⟨s, hreach, hend⟩ := exists_reachable threeVoters 1 failedThenSent
    (fun s => decide (s.broadcasts.length = 3 ∧ s.begun.length = 2)) (by decide)
  obtain ⟨hbroadcasts, hbegun⟩ := of_decide_eq_true hend
  exact ⟨s, hreach, hbroadcasts, hbegun, (forwarded_once hreach).2.2⟩

/-! ## The newest broadcast -/

/-- A task that does not write has written its connection's frames in full. -/
def Idle (s : GossipLink) : Prop :=
  s.stage ≠ .writing → ∀ (stream : Nat) k, s.conn = some stream → s.streams[stream]? = some k →
    k.accepted = k.bytes.length

theorem idle_of_step (hidle : s.Idle) (hstep : Step env sender s e s') : s'.Idle := by
  cases moves_of_step hstep with
  | broadcast => exact hidle
  | recv hstage | tryRecv hstage | dial hstage | connectFailed hstage =>
      exact fun _ => hidle (by rw [hstage]; rintro ⟨⟩)
  | reuse | connect => exact fun hnot => absurd rfl hnot
  | accept hstage => exact fun hnot => absurd hstage hnot
  | written hstage hconn hk hall =>
      intro _ stream k hstream hget
      obtain rfl := Option.some.inj (hconn.symm.trans hstream)
      obtain rfl := Option.some.inj (hk.symm.trans hget)
      exact hall
  | writeFailed | senderRestarts => rintro _ _ _ ⟨⟩
  | @read i n old hold =>
      intro hnot stream k hconn hk
      rcases getElem?_set_cases hk with ⟨rfl, rfl⟩ | ⟨-, hkept⟩
      · exact (hidle hnot i old hconn hold :)
      · exact hidle hnot stream k hconn hkept
  | receiverRestarts =>
      intro hnot stream k hconn hk
      rw [restartReceiver, List.getElem?_map] at hk
      obtain ⟨old, hold, rfl⟩ := Option.map_eq_some_iff.mp hk
      exact (hidle hnot stream old hconn hold :)

theorem Reachable.idle (hreach : Reachable env sender s) : s.Idle := by
  refine hreach.invariant ?_ fun s e s' hs hstep => idle_of_step hs hstep
  rintro _ rfl _ _ _ ⟨⟩

/-- The task waits, and no broadcast waits for it. -/
structure AtRest (s : GossipLink) : Prop where
  stage : s.stage = .waiting
  queue : s.queue = []

theorem AtRest.unwritten (hrest : s.AtRest) : s.unwritten = [] := by
  rw [GossipLink.unwritten, hrest.stage, hrest.queue]
  rfl

/-- The connection that the task holds carries the newest broadcast. -/
theorem Tasked.getLast?_frames (htasked : Tasked sender s) (hrest : s.AtRest) {stream : Nat}
    {k : GossipStream} (hconn : s.conn = some stream) (hk : s.streams[stream]? = some k) :
    k.frames.getLast? = s.broadcasts.getLast? := by
  obtain ⟨init, last, hstreams, rfl⟩ := exists_eq_append_of_last (htasked.conn stream hconn)
  obtain rfl : last = k := by
    rw [hstreams, List.getElem?_concat_length] at hk
    exact Option.some.inj hk
  have hbegun := htasked.newestBegun (by rw [hconn]; rfl) hrest.unwritten
  have hne : last.frames ≠ [] :=
    htasked.nonempty last (hstreams ▸ List.mem_append_right _ List.mem_cons_self)
  rw [← hbegun, begun, hstreams, List.flatMap_append, List.flatMap_singleton,
    List.getLast?_append_of_ne_nil _ hne]

/-- The newest broadcast has reached the channel: it is what the connection forwarded
last. -/
theorem newest_of_atRest (hsender : sender < 2 ^ 64) (hvoter : sender ∈ env.voters)
    (hreach : Reachable env sender s) (hrest : s.AtRest) {stream : Nat} {k : GossipStream}
    (hconn : s.conn = some stream) (hk : s.streams[stream]? = some k) (hread : k.unread = []) :
    ∃ payload, s.broadcasts.getLast? = some (broadcast sender payload) ∧
      (s.forwardedFrom stream).getLast? = some (sender, payload) := by
  obtain ⟨htasked, hdelivered⟩ := hreach.accounted
  have hsound := hdelivered.sound stream k hk
  have hlast := htasked.getLast?_frames hrest hconn hk
  have hnotWriting : s.stage ≠ .writing := by
    rw [hrest.stage]
    rintro ⟨⟩
  have hall : k.received.flatten = k.bytes := by
    have hsplit := hsound.flatten_append_unread
    rwa [hread, List.append_nil, hreach.idle hnotWriting stream k hconn hk,
      List.take_length] at hsplit
  obtain ⟨init, frame, hframes⟩ : ∃ init frame, k.frames = init ++ [frame] :=
    ⟨_, _, (List.dropLast_concat_getLast (htasked.nonempty k (List.mem_of_getElem? hk))).symm⟩
  have hframe : frame ∈ k.frames := by
    rw [hframes]
    exact List.mem_append_right _ List.mem_cons_self
  obtain ⟨payload, -, rfl⟩ := hsound.gossip frame hframe
  refine ⟨payload, ?_, ?_⟩
  · rw [← hlast, hframes, List.getLast?_concat]
  · rw [hdelivered.forwarded stream k hk, hsound.forwarded_eq env hall, hframes,
      List.filterMap_append, List.filterMap_cons, gossipOf_broadcast hsender hvoter,
      List.filterMap_nil, List.getLast?_concat]

/-- No attempt of the task fails and the sender is not started again. -/
def Works : LinkEvent → Prop
  | .connectFailed | .writeFailed | .senderRestarts => False
  | _ => True

instance : ∀ e, Decidable (Works e)
  | .connectFailed | .writeFailed | .senderRestarts => isFalse id
  | .broadcast _ _ | .recv | .tryRecv | .empty | .connect | .accept _ | .written | .read _ _
  | .receiverRestarts => isTrue trivial

/-- The task has opened its only connection, or it has not yet taken a broadcast that
it does not hold. -/
def Single (s : GossipLink) : Prop :=
  (s.conn = some 0 ∧ s.streams.length = 1) ∨
    (s.conn = none ∧ s.streams = [] ∧ s.stage ≠ .writing ∧
      (s.stage = .waiting → s.queue = s.broadcasts))

theorem single_of_step (htasked : Tasked sender s) (hsingle : s.Single) (hworks : Works e)
    (hstep : Step env sender s e s') : s'.Single := by
  rcases hsingle with ⟨hconn, hlength⟩ | ⟨hconn, hstreams, hnot, hqueue⟩
  · cases moves_of_step hstep with
    | reuse hstage hq hold =>
        obtain rfl := Option.some.inj (hold.symm.trans hconn)
        exact .inl ⟨rfl, (List.length_modify ..).trans hlength⟩
    | dial hstage hq hold => rw [hconn] at hold; cases hold
    | accept hstage hold hk => exact .inl ⟨hconn, List.length_set.trans hlength⟩
    | read hk => exact .inl ⟨hconn, List.length_set.trans hlength⟩
    | receiverRestarts => exact .inl ⟨hconn, (List.length_map _).trans hlength⟩
    | connect hstage =>
        have hnone := htasked.connecting _ hstage
        rw [hconn] at hnone
        cases hnone
    | connectFailed | writeFailed | senderRestarts => exact hworks.elim
    | _ => exact .inl ⟨hconn, hlength⟩
  · cases moves_of_step hstep with
    | broadcast => exact .inr ⟨hconn, hstreams, hnot, fun hstage => by rw [enqueue, hqueue hstage]⟩
    | recv | tryRecv | dial => exact .inr ⟨hconn, hstreams, by rintro ⟨⟩, by rintro ⟨⟩⟩
    | reuse hstage hq hold => rw [hconn] at hold; cases hold
    | connect hstage =>
        refine .inl ⟨?_, ?_⟩
        · rw [beginWrite, hstreams]
          rfl
        · rw [beginWrite, hstreams]
          rfl
    | accept hstage | written hstage => exact absurd hstage hnot
    | read hk => rw [hstreams] at hk; cases hk
    | receiverRestarts => exact .inr ⟨hconn, by rw [restartReceiver, hstreams]; rfl, hnot, hqueue⟩
    | connectFailed | writeFailed | senderRestarts => exact hworks.elim

/-- With one connection at most, gossip is forwarded in the order of its broadcasts. -/
theorem Delivered.sublist_of_single (htasked : Tasked sender s)
    (hdelivered : Delivered env sender s) (hsingle : s.streams.length ≤ 1) :
    (s.forwarded.map Prod.snd).Sublist (s.broadcasts.filterMap (gossipOf env.voters)) := by
  have hall : s.forwarded.map Prod.snd = s.forwardedFrom 0 := by
    rw [forwardedFrom, List.filter_eq_self.mpr]
    intro out hout
    have hlt := hdelivered.forwarded_lt out hout
    simp only [beq_iff_eq]
    omega
  rw [hall]
  have hbegun := htasked.begun_sublist
  cases hstreams : s.streams with
  | nil =>
      have hnone : s.forwarded = [] := by
        refine List.eq_nil_iff_forall_not_mem.mpr fun out hout => ?_
        have hlt := hdelivered.forwarded_lt out hout
        rw [hstreams] at hlt
        exact Nat.not_lt_zero _ hlt
      rw [forwardedFrom, hnone]
      exact List.nil_sublist _
  | cons k rest =>
      have hk : s.streams[0]? = some k := by rw [hstreams]; rfl
      obtain ⟨passed, hinitial, hpassed⟩ := hdelivered.exists_passed hk
      have hframes : k.frames.Sublist s.begun := by
        rw [begun, hstreams, List.flatMap_cons]
        exact List.sublist_append_left _ _
      rw [hpassed]
      exact ((hinitial.sublist.trans hframes).trans hbegun).filterMap _

/-- A sender at rest whose connection has been read has got its newest broadcast
through, whatever happened before. As long as no attempt fails there is such a
connection, and what is forwarded keeps the order of the broadcasts. -/
theorem newest_forwarded (env : ConnEnv Req Res) (hsender : sender < 2 ^ 64)
    (hvoter : sender ∈ env.voters) :
    (∀ s, Reachable env sender s → s.AtRest → ∀ (stream : Nat) k, s.conn = some stream →
      s.streams[stream]? = some k → k.unread = [] →
        ∃ payload, s.broadcasts.getLast? = some (broadcast sender payload) ∧
          (s.forwardedFrom stream).getLast? = some (sender, payload)) ∧
    ∀ labels s, Run (fun s e s' => Step env sender s e s' ∧ Works e) start labels s →
      (s.AtRest → s.broadcasts ≠ [] → s.conn = some 0) ∧
      (s.forwarded.map Prod.snd).Sublist (s.broadcasts.filterMap (gossipOf env.voters)) := by
  refine ⟨fun s hreach hrest stream k hconn hk hread =>
    newest_of_atRest hsender hvoter hreach hrest hconn hk hread, fun labels s hrun => ?_⟩
  have hreach : Reachable env sender s :=
    ⟨start, labels, rfl, hrun.imp fun _ _ _ hstep => hstep.1⟩
  have hsingle : Tasked sender s ∧ s.Single := by
    exact hrun.invariant (I := fun s => Tasked sender s ∧ s.Single)
      (fun s e s' hs hstep =>
        ⟨tasked_of_step hs.1 hstep.1, single_of_step hs.1 hs.2 hstep.2 hstep.1⟩)
      ⟨tasked_start, .inr ⟨rfl, rfl, by rintro ⟨⟩, fun _ => rfl⟩⟩
  obtain ⟨htasked, hdelivered⟩ := hreach.accounted
  rcases hsingle with ⟨-, ⟨hconn, hlength⟩ | ⟨hconn, hstreams, -, hqueue⟩⟩
  · exact ⟨fun _ _ => hconn, hdelivered.sublist_of_single htasked (Nat.le_of_eq hlength)⟩
  · refine ⟨fun hrest hsome => ?_, hdelivered.sublist_of_single htasked (by simp [hstreams])⟩
    exact absurd ((hqueue hrest.stage).symm.trans hrest.queue) hsome

theorem newest_forwarded_three_voters :
    ∃ s, Reachable threeVoters 1 s ∧ s.broadcasts.length = 3 ∧
      (s.forwardedFrom 1).getLast? = some (1, [9]) := by
  obtain ⟨s, hreach, hend⟩ := exists_reachable threeVoters 1 failedThenSent
    (fun s => decide (s.stage = .waiting ∧ s.queue = [] ∧ s.conn = some 1 ∧
      s.broadcasts = [broadcast 1 [7], broadcast 1 [8], broadcast 1 [9]] ∧
      (s.streams[1]?).map GossipStream.unread = some [])) (by decide)
  obtain ⟨hstage, hqueue, hconn, hbroadcasts, hunread⟩ := of_decide_eq_true hend
  obtain ⟨k, hk, hread⟩ := Option.map_eq_some_iff.mp hunread
  obtain ⟨payload, hlast, hforwarded⟩ := (newest_forwarded threeVoters (by decide) (by decide)).1
    s hreach ⟨hstage, hqueue⟩ 1 k hconn hk hread
  rw [hbroadcasts] at hlast
  obtain rfl : payload = [9] := by simpa [broadcast] using hlast.symm
  exact ⟨s, hreach, by rw [hbroadcasts]; rfl, hforwarded⟩

end GossipLink

end PgReplica
