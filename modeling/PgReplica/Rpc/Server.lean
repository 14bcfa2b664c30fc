import PgReplica.Rpc.Frame

/-! # The server's end of a connection

`handle_conn` reads frames until one of them closes the connection. A Raft frame
is dispatched to the Raft node and answered; a gossip frame is forwarded to the
supervisor if its sender is a voter, and skipped otherwise.
-/

namespace PgReplica

def kindRaft : UInt8 := 0

def kindGossip : UInt8 := 1

/-- The calls that peers make on a Raft node. -/
inductive Rpc where
  | append
  | vote
  | snapshot
deriving DecidableEq

/-- `RPC_APPEND`, `RPC_VOTE` and `RPC_SNAPSHOT`. -/
def Rpc.byte : Rpc → UInt8
  | .append => 0
  | .vote => 1
  | .snapshot => 2

/-- How a call number is matched by `dispatch_raft`. -/
def Rpc.ofByte (byte : UInt8) : Option Rpc :=
  [Rpc.append, .vote, .snapshot].find? (·.byte == byte)

/-- The requests and results of the calls as JSON. A result carries the error of the
Raft node when there is one. -/
structure RaftJson (Req Res : Rpc → Type) where
  encodeReq : ∀ rpc, Req rpc → Option (List UInt8)
  decodeReq : ∀ rpc, List UInt8 → Option (Req rpc)
  encodeRes : ∀ rpc, Res rpc → Option (List UInt8)
  decodeRes : ∀ rpc, List UInt8 → Option (Res rpc)

/-- What the Raft node would answer to each request at one moment. -/
abbrev Answers (Req Res : Rpc → Type) :=
  ∀ rpc, Req rpc → Res rpc

variable {Req Res : Rpc → Type}

/-- The slot is empty until the Raft node has started. -/
def dispatchRaft (json : RaftJson Req Res) (payload : List UInt8)
    (slot : Option (Answers Req Res)) : Option (List UInt8) :=
  match payload with
  | [] => none
  | byte :: body => do
      let answer ← slot
      let rpc ← Rpc.ofByte byte
      let req ← json.decodeReq rpc body
      json.encodeRes rpc (answer rpc req)

inductive FrameAction where
  | forward (sender : Nat) (payload : List UInt8)
  | skip
  | dispatch (payload : List UInt8)
  | close

/-- What a frame makes `handle_conn` do. -/
def handleFrame (voters : List Nat) (frame : List UInt8) : FrameAction :=
  match frame with
  | [] => .close
  | kind :: body =>
      if kind = kindGossip then
        if 9 ≤ frame.length then
          let sender := fromBeBytes (body.take 8)
          if sender ∈ voters then .forward sender (body.drop 8) else .skip
        else .skip
      else if kind = kindRaft then .dispatch body
      else .close

/-- What a connection meets on the server: the Raft slot when its `i`-th frame is
dispatched, and whether the response to that frame can be written. Neither the
dispatch nor the write waits forever. -/
structure ConnEnv (Req Res : Rpc → Type) where
  json : RaftJson Req Res
  voters : List Nat
  slot : Nat → Option (Answers Req Res)
  written : Nat → Bool

theorem length_lt_of_readFrame {chunks rest : Chunks} {frame : List UInt8}
    (hread : readFrame chunks = .ok (frame, rest)) :
    rest.flatten.length < chunks.flatten.length := by
  rw [(eq_writeFrame_of_readFrame hread).2, List.length_append, length_writeFrame]
  omega

/-- The gossip that `handle_conn` forwards from its `i`-th frame on. -/
def handleConn (env : ConnEnv Req Res) (i : Nat) (chunks : Chunks) :
    List (Nat × List UInt8) :=
  match _hread : readFrame chunks with
  | .error _ => []
  | .ok (frame, rest) =>
      match handleFrame env.voters frame with
      | .forward sender payload => (sender, payload) :: handleConn env (i + 1) rest
      | .skip => handleConn env (i + 1) rest
      | .dispatch payload =>
          match dispatchRaft env.json payload (env.slot i) with
          | some _ => if env.written i then handleConn env (i + 1) rest else []
          | none => []
      | .close => []
termination_by chunks.flatten.length
decreasing_by all_goals exact length_lt_of_readFrame _hread

/-- `GossipHandle::broadcast`. -/
def broadcast (sender : Nat) (payload : List UInt8) : List UInt8 :=
  kindGossip :: (toBeBytes sender ++ payload)

/-- What a voter announces to its peers. -/
structure Announcement where
  sender : UInt64
  lsn : UInt64
  inRecovery : Bool
  reconfirm : Bool
  seq : UInt64

namespace Announcement

variable (a : Announcement)

def frame : List UInt8 :=
  broadcast a.sender.toNat (encodeGossip a.lsn.toNat a.inRecovery a.reconfirm a.seq.toNat)

def gossip : Gossip :=
  ⟨a.lsn.toNat, a.inRecovery, a.reconfirm, a.seq.toNat⟩

end Announcement

/-! ## The frames of a stream -/

namespace ConnEnv

variable (env : ConnEnv Req Res)

/-- The `i`-th frame leaves the connection open. -/
inductive Passes (i : Nat) : List UInt8 → Prop
  | gossip (body : List UInt8) : Passes i (kindGossip :: body)
  | raft {payload resp : List UInt8}
      (hanswered : dispatchRaft env.json payload (env.slot i) = some resp)
      (hwritten : env.written i = true) : Passes i (kindRaft :: payload)

/-- A connection that has passed `i` frames reads no further than the start of
these bytes. -/
inductive StopsAt (i : Nat) : List UInt8 → Prop
  | ends {bytes : List UInt8} (hshort : bytes.length < 4) : StopsAt i bytes
  | cutOff {bytes : List UInt8} (hmax : fromBeBytes (bytes.take 4) ≤ maxFrame)
      (hshort : bytes.length < 4 + fromBeBytes (bytes.take 4)) : StopsAt i bytes
  | tooLarge {bytes : List UInt8} (hheader : 4 ≤ bytes.length)
      (hlarge : maxFrame < fromBeBytes (bytes.take 4)) : StopsAt i bytes
  | empty (left : List UInt8) : StopsAt i (writeFrame [] ++ left)
  | unknownKind {kind : UInt8} {body left : List UInt8}
      (hmax : (kind :: body).length ≤ maxFrame) (hgossip : kind ≠ kindGossip)
      (hraft : kind ≠ kindRaft) : StopsAt i (writeFrame (kind :: body) ++ left)
  | rejected {payload left : List UInt8} (hmax : (kindRaft :: payload).length ≤ maxFrame)
      (hrejected : dispatchRaft env.json payload (env.slot i) = none) :
      StopsAt i (writeFrame (kindRaft :: payload) ++ left)
  | unwritten {payload resp left : List UInt8}
      (hmax : (kindRaft :: payload).length ≤ maxFrame)
      (hanswered : dispatchRaft env.json payload (env.slot i) = some resp)
      (hunwritten : env.written i = false) :
      StopsAt i (writeFrame (kindRaft :: payload) ++ left)

/-- The complete frames of a stream before the first point where the connection
stops, the first of them being the `i`-th on the connection. -/
inductive Passed : Nat → List UInt8 → List (List UInt8) → Prop
  | stop {i : Nat} {bytes : List UInt8} (hstop : env.StopsAt i bytes) : Passed i bytes []
  | pass {i : Nat} {frame left : List UInt8} {frames : List (List UInt8)}
      (hmax : frame.length ≤ maxFrame) (hpass : env.Passes i frame)
      (hrest : Passed (i + 1) left frames) :
      Passed i (writeFrame frame ++ left) (frame :: frames)

end ConnEnv

/-- The sender and the payload of a gossip frame from a voter. -/
def gossipOf (voters : List Nat) (frame : List UInt8) : Option (Nat × List UInt8) :=
  let sender := fromBeBytes ((frame.drop 1).take 8)
  if frame.head? = some kindGossip ∧ 9 ≤ frame.length ∧ sender ∈ voters then
    some (sender, frame.drop 9)
  else none

/-! ## Forwarding -/

theorem handleFrame_gossip (voters : List Nat) (body : List UInt8) :
    handleFrame voters (kindGossip :: body) =
      match gossipOf voters (kindGossip :: body) with
      | some (sender, payload) => .forward sender payload
      | none => .skip := by
  by_cases hlength : 8 ≤ body.length
  · by_cases hvoter : fromBeBytes (body.take 8) ∈ voters
    · simp [handleFrame, gossipOf, hlength, hvoter]
    · simp [handleFrame, gossipOf, hvoter]
  · simp [handleFrame, gossipOf, hlength]

theorem handleFrame_raft (voters : List Nat) (payload : List UInt8) :
    handleFrame voters (kindRaft :: payload) = .dispatch payload := by
  simp [handleFrame, kindRaft, kindGossip]

theorem gossipOf_raft (voters : List Nat) (payload : List UInt8) :
    gossipOf voters (kindRaft :: payload) = none := by
  simp [gossipOf, kindRaft, kindGossip]

section Conn

variable {env : ConnEnv Req Res} {i : Nat} {chunks rest : Chunks} {frame : List UInt8}

theorem handleConn_of_error {e : FrameError} (hread : readFrame chunks = .error e) :
    handleConn env i chunks = [] := by
  rw [handleConn]
  split
  next => rfl
  next hother => rw [hread] at hother; cases hother

theorem handleConn_of_ok (hread : readFrame chunks = .ok (frame, rest)) :
    handleConn env i chunks =
      match handleFrame env.voters frame with
      | .forward sender payload => (sender, payload) :: handleConn env (i + 1) rest
      | .skip => handleConn env (i + 1) rest
      | .dispatch payload =>
          match dispatchRaft env.json payload (env.slot i) with
          | some _ => if env.written i then handleConn env (i + 1) rest else []
          | none => []
      | .close => [] := by
  conv_lhs => rw [handleConn]
  split
  next hother => rw [hread] at hother; cases hother
  next hother =>
    rw [hread] at hother
    cases hother
    rfl

/-- A frame that passes is forwarded if it is gossip of a voter. -/
theorem handleConn_of_passes (hread : readFrame chunks = .ok (frame, rest))
    (hpass : env.Passes i frame) :
    handleConn env i chunks =
      (gossipOf env.voters frame).toList ++ handleConn env (i + 1) rest := by
  rw [handleConn_of_ok hread]
  cases hpass with
  | gossip body =>
      rw [handleFrame_gossip]
      cases gossipOf env.voters (kindGossip :: body) <;> rfl
  | raft hanswered hwritten =>
      simp only [handleFrame_raft, hanswered, hwritten, gossipOf_raft, if_true]
      rfl

/-- Where the connection stops, nothing more is forwarded. -/
theorem handleConn_of_stopsAt (hstop : env.StopsAt i chunks.flatten) :
    handleConn env i chunks = [] := by
  -- a complete frame is read before the connection closes on it
  have hclosed : ∀ frame left, chunks.flatten = writeFrame frame ++ left →
      frame.length ≤ maxFrame →
        (∀ rest : Chunks, readFrame chunks = .ok (frame, rest) → handleConn env i chunks = []) →
          handleConn env i chunks = [] := by
    intro frame left hstream hmax hclose
    obtain ⟨rest, hread, -⟩ := readFrame_writeFrame hmax hstream
    exact hclose rest hread
  generalize hbytes : chunks.flatten = bytes at hstop hclosed
  cases hstop with
  | ends hshort => exact handleConn_of_error (readFrame_of_short (hbytes ▸ hshort))
  | cutOff hmax hshort =>
      subst hbytes
      exact handleConn_of_error (readFrame_of_cutOff hmax hshort)
  | tooLarge hheader hlarge =>
      subst hbytes
      exact handleConn_of_error (readFrame_of_tooLarge hheader hlarge)
  | empty left =>
      refine hclosed [] left rfl (Nat.zero_le _) fun rest hread => ?_
      rw [handleConn_of_ok hread]
      rfl
  | @unknownKind kind body left hmax hgossip hraft =>
      refine hclosed (kind :: body) left rfl hmax fun rest hread => ?_
      rw [handleConn_of_ok hread]
      simp only [handleFrame, if_neg hgossip, if_neg hraft]
  | @rejected payload left hmax hrejected =>
      refine hclosed (kindRaft :: payload) left rfl hmax fun rest hread => ?_
      rw [handleConn_of_ok hread]
      simp only [handleFrame_raft, hrejected]
  | @unwritten payload resp left hmax hanswered hunwritten =>
      refine hclosed (kindRaft :: payload) left rfl hmax fun rest hread => ?_
      rw [handleConn_of_ok hread]
      simp [handleFrame_raft, hanswered, hunwritten]

/-- The gossip that is forwarded is that of the frames that pass. -/
theorem handleConn_of_passed {bytes : List UInt8} {frames : List (List UInt8)}
    (hpassed : env.Passed i bytes frames) {chunks : Chunks} (hbytes : chunks.flatten = bytes) :
    handleConn env i chunks = frames.filterMap (gossipOf env.voters) := by
  induction hpassed generalizing chunks with
  | stop hstop =>
      subst hbytes
      exact handleConn_of_stopsAt hstop
  | pass hmax hpass _ ih =>
      obtain ⟨rest, hread, hrest⟩ := readFrame_writeFrame hmax hbytes
      rw [handleConn_of_passes hread hpass, ih hrest, List.filterMap_cons]
      cases gossipOf env.voters _ <;> rfl

end Conn

namespace ConnEnv

variable (env : ConnEnv Req Res)

/-- A complete frame passes, or the connection stops there. -/
theorem passes_or_stopsAt (i : Nat) {frame : List UInt8} (hmax : frame.length ≤ maxFrame)
    (left : List UInt8) : env.Passes i frame ∨ env.StopsAt i (writeFrame frame ++ left) := by
  cases frame with
  | nil => exact .inr (.empty left)
  | cons kind body =>
      by_cases hgossip : kind = kindGossip
      · subst hgossip
        exact .inl (.gossip body)
      · by_cases hraft : kind = kindRaft
        · subst hraft
          cases hdispatch : dispatchRaft env.json body (env.slot i) with
          | none => exact .inr (.rejected hmax hdispatch)
          | some resp =>
              cases hwritten : env.written i with
              | false => exact .inr (.unwritten hmax hdispatch hwritten)
              | true => exact .inl (.raft hdispatch hwritten)
        · exact .inr (.unknownKind hmax hgossip hraft)

/-- Every stream has a first point where the connection stops. -/
theorem exists_passed (i : Nat) (bytes : List UInt8) : ∃ frames, env.Passed i bytes frames := by
  induction hlength : bytes.length using Nat.strongRecOn generalizing i bytes with
  | ind n ih =>
      by_cases hheader : bytes.length < 4
      · exact ⟨[], .stop (.ends hheader)⟩
      by_cases hlarge : maxFrame < fromBeBytes (bytes.take 4)
      · exact ⟨[], .stop (.tooLarge (Nat.not_lt.mp hheader) hlarge)⟩
      by_cases hshort : bytes.length < 4 + fromBeBytes (bytes.take 4)
      · exact ⟨[], .stop (.cutOff (Nat.not_lt.mp hlarge) hshort)⟩
      obtain ⟨frame, left, hmax, rfl⟩ :=
        exists_eq_writeFrame_append (Nat.not_lt.mp hlarge) (Nat.not_lt.mp hshort)
      obtain hpass | hstop := env.passes_or_stopsAt i hmax left
      · have hless : left.length < n := by
          rw [← hlength, List.length_append, length_writeFrame]
          omega
        obtain ⟨frames, hframes⟩ := ih left.length hless (i + 1) left rfl
        exact ⟨frame :: frames, .pass hmax hpass hframes⟩
      · exact ⟨[], .stop hstop⟩

variable {env} {i : Nat}

/-- A connection does not stop at a frame that passes. -/
theorem Passes.not_stopsAt {frame : List UInt8} (hpass : env.Passes i frame)
    (hmax : frame.length ≤ maxFrame) (left : List UInt8) :
    ¬ env.StopsAt i (writeFrame frame ++ left) := by
  intro hstop
  obtain ⟨rest, hread, -⟩ :=
    readFrame_writeFrame hmax (List.flatten_singleton (l := writeFrame frame ++ left))
  generalize hbytes : writeFrame frame ++ left = bytes at hread hstop
  have hstream : ([bytes] : Chunks).flatten = bytes := List.flatten_singleton
  cases hstop with
  | ends hshort =>
      rw [readFrame_of_short (by rwa [hstream])] at hread
      cases hread
  | cutOff hmax hshort =>
      rw [readFrame_of_cutOff (by rwa [hstream]) (by rwa [hstream])] at hread
      cases hread
  | tooLarge hheader hlarge =>
      rw [readFrame_of_tooLarge (by rwa [hstream]) (by rwa [hstream])] at hread
      cases hread
  | empty left' =>
      obtain ⟨rfl, -⟩ := writeFrame_append_inj hmax (Nat.zero_le _) hbytes
      cases hpass
  | unknownKind hmax' hgossip hraft =>
      obtain ⟨rfl, -⟩ := writeFrame_append_inj hmax hmax' hbytes
      cases hpass with
      | gossip => exact hgossip rfl
      | raft => exact hraft rfl
  | rejected hmax' hrejected =>
      obtain ⟨rfl, -⟩ := writeFrame_append_inj hmax hmax' hbytes
      cases hpass with
      | raft hanswered _ => simp [hrejected] at hanswered
  | unwritten hmax' _ hunwritten =>
      obtain ⟨rfl, -⟩ := writeFrame_append_inj hmax hmax' hbytes
      cases hpass with
      | raft _ hwritten => simp [hunwritten] at hwritten

/-- The frames that a connection passes are determined by the stream. -/
theorem Passed.unique {bytes : List UInt8} {frames frames' : List (List UInt8)}
    (hpassed : env.Passed i bytes frames) (hpassed' : env.Passed i bytes frames') :
    frames = frames' := by
  induction hpassed generalizing frames' with
  | stop hstop =>
      cases hpassed' with
      | stop => rfl
      | pass hmax hpass _ => exact absurd hstop (hpass.not_stopsAt hmax _)
  | @pass i frame left frames hmax hpass _ ih =>
      generalize hbytes : writeFrame frame ++ left = bytes at hpassed'
      cases hpassed' with
      | stop hstop => exact absurd (hbytes ▸ hstop) (hpass.not_stopsAt hmax _)
      | pass hmax' _ hrest =>
          obtain ⟨rfl, rfl⟩ := writeFrame_append_inj hmax hmax' hbytes
          rw [ih hrest]

end ConnEnv

/-! ## Announcements -/

namespace Announcement

variable (a : Announcement)

theorem length_frame : a.frame.length = 27 := by
  simp [frame, broadcast, length_encodeGossip]

theorem gossipOf_frame {voters : List Nat} (hvoter : a.sender.toNat ∈ voters) :
    gossipOf voters a.frame = some (a.sender.toNat,
      encodeGossip a.lsn.toNat a.inRecovery a.reconfirm a.seq.toNat) := by
  have hlength : 9 ≤ a.frame.length := by
    rw [length_frame]
    omega
  have hsender : fromBeBytes ((a.frame.drop 1).take 8) = a.sender.toNat := by
    simp [frame, broadcast, fromBeBytes_toBeBytes a.sender.toNat_lt]
  have hpayload : a.frame.drop 9 =
      encodeGossip a.lsn.toNat a.inRecovery a.reconfirm a.seq.toNat := by
    simp [frame, broadcast]
  rw [gossipOf, hsender, hpayload, if_pos ⟨rfl, hlength, hvoter⟩]

theorem decodeGossip_payload :
    decodeGossip (encodeGossip a.lsn.toNat a.inRecovery a.reconfirm a.seq.toNat) =
      some a.gossip :=
  decodeGossip_encodeGossip a.lsn.toNat_lt a.seq.toNat_lt

/-- Announcements pass, and the connection stops at the end of the stream. -/
theorem passed (env : ConnEnv Req Res) (announcements : List Announcement) (i : Nat) :
    env.Passed i (announcements.map (writeFrame ·.frame)).flatten
      (announcements.map Announcement.frame) := by
  induction announcements generalizing i with
  | nil => exact .stop (.ends (by simp))
  | cons a rest ih =>
      have hmax : a.frame.length ≤ maxFrame := by
        rw [length_frame]
        decide
      rw [List.map_cons, List.flatten_cons]
      exact .pass hmax (.gossip _) (ih (i + 1))

end Announcement

/-- The gossip of a connection is forwarded exactly: for every stream, however it is
split, that of the voters' frames before the connection stops, in order. So what
voters announce is what the supervisor decodes. -/
theorem handleConn_exact (env : ConnEnv Req Res) :
    (∀ bytes, (∃! frames, env.Passed 0 bytes frames) ∧
      ∀ frames (chunks : Chunks), env.Passed 0 bytes frames → chunks.flatten = bytes →
        handleConn env 0 chunks = frames.filterMap (gossipOf env.voters)) ∧
    ∀ (announcements : List Announcement) (chunks : Chunks),
      (∀ a ∈ announcements, a.sender.toNat ∈ env.voters) →
        chunks.flatten = (announcements.map (writeFrame ·.frame)).flatten →
          (handleConn env 0 chunks).map (fun out => (out.1, decodeGossip out.2)) =
            announcements.map fun a => (a.sender.toNat, some a.gossip) := by
  refine ⟨fun bytes => ⟨?_, fun _ _ hpassed hbytes => handleConn_of_passed hpassed hbytes⟩, ?_⟩
  · obtain ⟨frames, hpassed⟩ := env.exists_passed 0 bytes
    exact ⟨frames, hpassed, fun other hother => hother.unique hpassed⟩
  · intro announcements chunks hvoters hbytes
    rw [handleConn_of_passed (Announcement.passed env announcements 0) hbytes, List.filterMap_map,
      List.map_filterMap]
    rw [← List.filterMap_eq_map]
    refine List.filterMap_congr fun a ha => ?_
    simp only [Function.comp_apply, a.gossipOf_frame (hvoters a ha), Option.map_some,
      a.decodeGossip_payload]

/-- Every request and every result is an empty object. -/
def unitJson : RaftJson (fun _ => Unit) (fun _ => Unit) where
  encodeReq _ _ := some [123, 125]
  decodeReq _ bytes := if bytes = [123, 125] then some () else none
  encodeRes _ _ := some [123, 125]
  decodeRes _ bytes := if bytes = [123, 125] then some () else none

/-- A server of three voters whose Raft node has started. -/
def threeVoters : ConnEnv (fun _ => Unit) (fun _ => Unit) :=
  ⟨unitJson, [1, 2, 3], fun _ => some fun _ _ => (), fun _ => true⟩

/-- Gossip of a voter, gossip that is too short, gossip of no voter, a vote and an
empty frame, in two pieces; and two announcements in one. -/
theorem handleConn_exact_three_voters :
    handleConn threeVoters 0
        [[0, 0, 0, 10, 1, 0, 0, 0, 0, 0, 0, 0, 2, 7, 0, 0, 0, 2, 1],
          [5, 0, 0, 0, 9, 1, 0, 0, 0, 0, 0, 0, 0, 9, 0, 0, 0, 4, 0, 1, 123, 125, 0, 0, 0, 0]] =
      [(2, [7])] ∧
    (handleConn threeVoters 0
        [writeFrame (Announcement.mk 1 5 false true 3).frame ++
          writeFrame (Announcement.mk 3 6 true false 4).frame]).map
        (fun out => (out.1, decodeGossip out.2)) =
      [(1, some ⟨5, false, true, 3⟩), (3, some ⟨6, true, false, 4⟩)] := by
  constructor
  · have hpassed : threeVoters.Passed 0 _
        [[1, 0, 0, 0, 0, 0, 0, 0, 2, 7], [1, 5], [1, 0, 0, 0, 0, 0, 0, 0, 9], [0, 1, 123, 125]] :=
      .pass (by decide) (.gossip _) <| .pass (by decide) (.gossip _) <|
        .pass (by decide) (.gossip _) <| .pass (by decide) (.raft rfl rfl) <| .stop (.empty [])
    exact ((handleConn_exact threeVoters).1 _).2 _ _ hpassed (by decide)
  · exact (handleConn_exact threeVoters).2 [⟨1, 5, false, true, 3⟩, ⟨3, 6, true, false, 4⟩] _
      (by decide) (by simp)

end PgReplica
