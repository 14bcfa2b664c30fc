import PgReplica.Foundation.Run
import PgReplica.Rpc.Connection

/-! # Responses answer their own requests

An exchange is followed from the first byte of its request to the last byte of its
response. A stream is put back only at the end of one, when nothing is left on it.
-/

namespace PgReplica

open Foundation

variable {Req Res : Rpc → Type}

/-- The serialization the exchanges rely on. A request is a JSON object, so no part of
it parses alone; a result is far shorter than the lengths that a frame can carry. -/
structure RaftJson.Lawful (json : RaftJson Req Res) : Prop where
  prefix_rejected : ∀ {rpc req body part}, json.encodeReq rpc req = some body →
    part <+: body → part ≠ body → json.decodeReq rpc part = none
  result_fits : ∀ {rpc res bytes}, json.encodeRes rpc res = some bytes → bytes.length < 2 ^ 32

/-- The payload that asks for a call. -/
def RaftJson.Encodes (json : RaftJson Req Res) (rpc : Rpc) (req : Req rpc)
    (request : List UInt8) : Prop :=
  ∃ body, json.encodeReq rpc req = some body ∧ request = rpc.byte :: body

/-- Bytes that a call has written. -/
def markedBy (call : Nat) (bytes : List UInt8) : List (UInt8 × Nat) :=
  bytes.map fun byte => (byte, call)

/-- The response was produced by the dispatch of the call's own request. -/
def Returned.Matched (json : RaftJson Req Res) (log : List (Dispatched Req Res))
    (r : Returned Req Res) : Prop :=
  ∃ request, json.Encodes r.rpc r.req request ∧
    ∃ d ∈ log, d.frame = markedBy r.call (kindRaft :: request) ∧
      dispatchRaft json request d.slot = some d.resp ∧ json.decodeRes r.rpc d.resp = some r.res

/-- Nothing is left on the stream and nothing will come. -/
structure Socket.Quiet (k : Socket) : Prop where
  up : k.up = []
  down : k.down = []
  handler : k.handler = .reading ∨ k.handler = .closed

/-- The bytes of a response that the handler has still to write. -/
inductive HandlerStage.Owes : HandlerStage → List UInt8 → Prop
  | writing {todo : List UInt8} (htodo : todo ≠ []) : Owes (.writing todo) todo
  | reading : Owes .reading []
  | closed (todo : List UInt8) : Owes .closed todo

/-- How far the exchange of a request is, with `rest` still to be written and `got`
read. A frame whose length overflowed ends before the request does, and is rejected. -/
inductive Exchange (json : RaftJson Req Res) (log : List (Dispatched Req Res)) (call : Nat)
    (request : List UInt8) : Socket → List UInt8 → List UInt8 → Prop
  | sending {sent rest : List UInt8} (hsent : sent ++ rest = writeFrame (kindRaft :: request)) :
      Exchange json log call request ⟨markedBy call sent, .reading, []⟩ rest []
  | received :
      Exchange json log call request
        ⟨[], .dispatching (markedBy call (kindRaft :: request)) request, []⟩ [] []
  | doomed {up frame : List (UInt8 × Nat)} {part rest : List UInt8}
      (hdoomed : ∀ slot, dispatchRaft json part slot = none) :
      Exchange json log call request ⟨up, .dispatching frame part, []⟩ rest []
  | closed (up : List (UInt8 × Nat)) (rest : List UInt8) :
      Exchange json log call request ⟨up, .closed, []⟩ rest []
  | answered {d : Dispatched Req Res} {handler : HandlerStage} {down got todo : List UInt8}
      (hd : d ∈ log) (hframe : d.frame = markedBy call (kindRaft :: request))
      (hanswer : dispatchRaft json request d.slot = some d.resp) (howes : handler.Owes todo)
      (hresp : got ++ (down ++ todo) = writeFrame d.resp) :
      Exchange json log call request ⟨[], handler, down⟩ [] got

@[simp] theorem Rpc.ofByte_byte (rpc : Rpc) : Rpc.ofByte rpc.byte = some rpc := by
  cases rpc <;> rfl

theorem length_markedBy (call : Nat) (bytes : List UInt8) :
    (markedBy call bytes).length = bytes.length :=
  List.length_map _

theorem map_fst_markedBy (call : Nat) (bytes : List UInt8) :
    (markedBy call bytes).map Prod.fst = bytes := by
  simp [markedBy, Function.comp_def]

theorem frame_of_markedBy (call : Nat) (frame : List UInt8) :
    ((markedBy call (writeFrame frame)).drop 4).take frame.length = markedBy call frame := by
  rw [markedBy, ← List.map_drop, drop_writeFrame]
  exact List.take_of_length_le (Nat.le_of_eq (length_markedBy call frame))

theorem left_of_markedBy (call : Nat) (frame : List UInt8) :
    (markedBy call (writeFrame frame)).drop (4 + frame.length) = [] := by
  have hlength : (markedBy call (writeFrame frame)).length = 4 + frame.length := by
    rw [length_markedBy, length_writeFrame]
  exact List.drop_eq_nil_of_le (Nat.le_of_eq hlength)

namespace RaftJson

variable {json : RaftJson Req Res} (hjson : json.Lawful)
include hjson

/-- Only the whole of a request is answered. -/
theorem Lawful.dispatchRaft_prefix {rpc : Rpc} {req : Req rpc} {request part : List UInt8}
    (hrequest : json.Encodes rpc req request) (hpart : part <+: request) (hne : part ≠ request)
    (slot : Option (Answers Req Res)) : dispatchRaft json part slot = none := by
  obtain ⟨body, hbody, rfl⟩ := hrequest
  cases part with
  | nil => rfl
  | cons byte part =>
      obtain ⟨rfl, hprefix⟩ := List.cons_prefix_cons.mp hpart
      have hrejected : json.decodeReq rpc part = none :=
        hjson.prefix_rejected hbody hprefix fun heq => hne (heq ▸ rfl)
      cases slot with
      | none => rfl
      | some answer => simp [dispatchRaft, hrejected]

theorem Lawful.length_lt_of_dispatchRaft {request resp : List UInt8}
    {slot : Option (Answers Req Res)} (hanswer : dispatchRaft json request slot = some resp) :
    resp.length < 2 ^ 32 := by
  cases request with
  | nil => cases hanswer
  | cons byte body =>
      simp only [dispatchRaft, Option.bind_eq_bind, Option.bind_eq_some_iff] at hanswer
      obtain ⟨answer, -, rpc, -, req, -, hencode⟩ := hanswer
      exact hjson.result_fits hencode

end RaftJson

/-! ## The exchange of one request -/

namespace Exchange

variable {json : RaftJson Req Res} {log : List (Dispatched Req Res)} {call : Nat}
variable {request rest got : List UInt8} {k k' : Socket}

theorem mono {log' : List (Dispatched Req Res)} (hlog : log ⊆ log')
    (hexchange : Exchange json log call request k rest got) :
    Exchange json log' call request k rest got := by
  cases hexchange with
  | sending hsent => exact .sending hsent
  | received => exact .received
  | doomed hdoomed => exact .doomed hdoomed
  | closed up rest => exact .closed up rest
  | answered hd hframe hanswer howes hresp =>
      exact .answered (hlog hd) hframe hanswer howes hresp

/-- On a fresh stream, or one that nothing is left on, the request is all to be sent. -/
theorem of_quiet (hquiet : k.Quiet) :
    Exchange json log call request k (writeFrame (kindRaft :: request)) [] := by
  obtain ⟨up, handler, down⟩ := k
  obtain ⟨rfl, rfl, rfl | rfl⟩ := hquiet
  · exact .sending (List.nil_append _)
  · exact .closed [] _

/-- The bytes of the request that go out join those on the stream. -/
theorem write (hexchange : Exchange json log call request k rest []) (n : Nat) :
    Exchange json log call request
      { k with up := k.up ++ (rest.take n).map fun byte => (byte, call) } (rest.drop n) [] := by
  cases hexchange with
  | @sending sent rest hsent =>
      have hup : markedBy call sent ++ (rest.take n).map (fun byte => (byte, call)) =
          markedBy call (sent ++ rest.take n) := List.map_append.symm
      rw [hup]
      refine .sending ?_
      rw [List.append_assoc, List.take_append_drop, hsent]
  | received => simpa using .received
  | doomed hdoomed => exact .doomed hdoomed
  | closed up rest => exact .closed _ _
  | answered hd hframe hanswer howes hresp =>
      simpa using .answered hd hframe hanswer howes hresp

theorem close (hexchange : Exchange json log call request k rest got) :
    Exchange json log call request k.close rest got := by
  cases hexchange with
  | sending _ => exact .closed _ _
  | received => exact .closed _ _
  | doomed _ => exact .closed _ _
  | closed up rest => exact .closed _ _
  | answered hd hframe hanswer _ hresp =>
      exact .answered hd hframe hanswer (.closed _) hresp

/-- Only an answer goes down the stream. -/
theorem respond (hexchange : Exchange json log call request k rest got) {n : Nat}
    (hrespond : k.respond n = some k') : Exchange json log call request k' rest got := by
  cases hexchange with
  | sending _ => cases hrespond
  | received => cases hrespond
  | doomed _ => cases hrespond
  | closed up rest => cases hrespond
  | @answered d handler down got todo hd hframe hanswer howes hresp =>
      cases howes with
      | reading => cases hrespond
      | closed => cases hrespond
      | writing htodo =>
          simp only [Socket.respond, Option.ite_none_right_eq_some, Option.some.injEq] at hrespond
          obtain ⟨hn, rfl⟩ := hrespond
          have howes : HandlerStage.Owes
              (if n < todo.length then .writing (todo.drop n) else .reading) (todo.drop n) := by
            split
            next hlt => exact .writing (by simpa using hlt)
            next hge =>
              rw [List.drop_eq_nil_of_le (Nat.not_lt.mp hge)]
              exact .reading
          refine .answered hd hframe hanswer howes ?_
          rw [List.append_assoc, List.take_append_drop, hresp]

/-- The frame that the handler finds in what was sent begins the request. -/
theorem request_of_readFrame {sent frame : List UInt8} {left : Chunks}
    (hsent : sent ++ rest = writeFrame (kindRaft :: request))
    (hread : readFrame [sent] = .ok (frame, left)) :
    sent = writeFrame frame ++ left.flatten ∧
      kindRaft :: request = frame ++ (left.flatten ++ rest) := by
  obtain ⟨hmax, hstream⟩ := eq_writeFrame_of_readFrame hread
  rw [List.flatten_singleton] at hstream
  have hwritten : writeFrame (kindRaft :: request) =
      writeFrame frame ++ (left.flatten ++ rest) := by
    rw [← hsent, hstream, List.append_assoc]
  exact ⟨hstream, (writeFrame_eq_append hmax hwritten).1⟩

/-- The handler takes the whole request, or closes. -/
theorem receive (hjson : json.Lawful) {rpc : Rpc} {req : Req rpc}
    (hrequest : json.Encodes rpc req request) {voters : List Nat}
    (hexchange : Exchange json log call request k rest got)
    (hreceive : k.receive voters = some k') : Exchange json log call request k' rest got := by
  cases hexchange with
  | received => cases hreceive
  | doomed _ => cases hreceive
  | closed up rest => cases hreceive
  | @answered d handler down got todo hd hframe hanswer howes hresp =>
      -- nothing has been sent after the request
      cases howes with
      | writing => cases hreceive
      | closed => cases hreceive
      | reading => cases hreceive
  | @sending sent rest hsent =>
      rw [Socket.receive, map_fst_markedBy] at hreceive
      cases hread : readFrame [sent] with
      | error e =>
          cases e with
          | unexpectedEof => simp [hread] at hreceive
          | tooLarge =>
              obtain rfl : _ = k' := by simpa [hread] using hreceive
              exact .closed _ _
      | ok out =>
          obtain ⟨frame, left⟩ := out
          obtain ⟨hstream, hpayload⟩ := request_of_readFrame hsent hread
          simp only [hread] at hreceive
          cases frame with
          | nil =>
              obtain rfl : _ = k' := by simpa [handleFrame] using hreceive
              exact .closed _ _
          | cons kind part =>
              rw [List.cons_append, List.cons.injEq] at hpayload
              obtain ⟨rfl, hparts⟩ := hpayload
              rw [handleFrame_raft] at hreceive
              obtain rfl := Option.some.inj hreceive
              by_cases hwhole : left.flatten ++ rest = []
              · obtain ⟨hleft, rfl⟩ := List.append_eq_nil_iff.mp hwhole
                rw [hwhole, List.append_nil] at hparts
                rw [hleft, List.append_nil] at hstream
                subst hparts hstream
                rw [frame_of_markedBy, left_of_markedBy]
                exact .received
              · have hprefix : part <+: request := hparts ▸ List.prefix_append _ _
                have hne : part ≠ request := fun heq =>
                  hwhole (List.self_eq_append_right.mp (heq.trans hparts))
                exact .doomed (hjson.dispatchRaft_prefix hrequest hprefix hne)

/-- Only an answer is read. -/
theorem read (hexchange : Exchange json log call request k [] got) {n : Nat} (hpos : 0 < n)
    (hn : n ≤ k.down.length) :
    Exchange json log call request { k with down := k.down.drop n } [] (got ++ k.down.take n) := by
  cases hexchange with
  | sending _ => exact absurd hn (Nat.not_le.mpr hpos)
  | received => exact absurd hn (Nat.not_le.mpr hpos)
  | doomed _ => exact absurd hn (Nat.not_le.mpr hpos)
  | closed up rest => exact absurd hn (Nat.not_le.mpr hpos)
  | @answered d handler down got todo hd hframe hanswer howes hresp =>
      refine .answered hd hframe hanswer howes ?_
      rw [List.append_assoc, ← List.append_assoc (down.take n), List.take_append_drop, hresp]

/-- When a frame has been read it is the answer, and nothing is left on the stream. -/
theorem complete (hjson : json.Lawful) (hexchange : Exchange json log call request k [] got)
    {resp : List UInt8} {left : Chunks} (hread : readFrame [got] = .ok (resp, left)) :
    k.Quiet ∧ ∃ d ∈ log, d.frame = markedBy call (kindRaft :: request) ∧
      dispatchRaft json request d.slot = some d.resp ∧ d.resp = resp := by
  cases hexchange with
  | sending _ => cases hread
  | received => cases hread
  | doomed _ => cases hread
  | closed up rest => cases hread
  | @answered d handler down got todo hd hframe hanswer howes hresp =>
      obtain ⟨hmax, hstream⟩ := eq_writeFrame_of_readFrame hread
      rw [List.flatten_singleton] at hstream
      have hwritten : writeFrame d.resp =
          writeFrame resp ++ (left.flatten ++ (down ++ todo)) := by
        rw [← hresp, hstream, List.append_assoc]
      obtain ⟨hall, hnothing⟩ := writeFrame_eq_append hmax hwritten
      have hleft := hnothing (hjson.length_lt_of_dispatchRaft hanswer)
      obtain ⟨-, hrest⟩ := List.append_eq_nil_iff.mp hleft
      obtain ⟨rfl, rfl⟩ := List.append_eq_nil_iff.mp hrest
      refine ⟨⟨rfl, rfl, ?_⟩, d, hd, hframe, hanswer, by rw [hall, hleft, List.append_nil]⟩
      cases howes with
      | writing htodo => exact absurd rfl htodo
      | reading => exact .inl rfl
      | closed => exact .inr rfl

end Exchange

/-! ## Streams with nothing left on them -/

namespace Socket

variable {k : Socket}

theorem fresh_quiet : fresh.Quiet :=
  ⟨rfl, rfl, .inl rfl⟩

namespace Quiet

variable (hquiet : k.Quiet)
include hquiet

theorem close : k.close.Quiet :=
  ⟨hquiet.up, hquiet.down, .inr rfl⟩

/-- Its handler waits for a frame that has not been sent. -/
theorem receive_eq_none (voters : List Nat) : k.receive voters = none := by
  obtain ⟨up, handler, down⟩ := k
  obtain ⟨rfl, -, rfl | rfl⟩ := hquiet <;> rfl

theorem respond_eq_none (n : Nat) : k.respond n = none := by
  obtain ⟨up, handler, down⟩ := k
  obtain ⟨-, -, rfl | rfl⟩ := hquiet <;> rfl

end Quiet

end Socket

/-! ## The invariant -/

namespace Connection

variable {json : RaftJson Req Res} {voters : List Nat} {s t : Connection Req Res}

/-- The exchange of the running call, wherever it is. -/
def OnTrack (json : RaftJson Req Res) (s : Connection Req Res) (request : List UInt8) :
    CallStage → Prop
  | .writing socket _ rest =>
      Exchange json s.dispatched s.begun request (s.sockets socket) rest []
  | .reading socket _ got =>
      Exchange json s.dispatched s.begun request (s.sockets socket) [] got
  | .connecting => True

/-- The running call has taken the stream out, and its exchange is on track. -/
structure Running (json : RaftJson Req Res) (s : Connection Req Res) (call : Call Req) : Prop where
  taken : s.stream = none
  sends : ∃ request, json.Encodes call.rpc call.req request ∧
    call.payload = kindRaft :: request ∧ s.OnTrack json request call.stage

structure Inv (json : RaftJson Req Res) (s : Connection Req Res) : Prop where
  matched : ∀ r ∈ s.returned, r.Matched json s.dispatched
  quiet : ∀ socket, s.stream = some socket → (s.sockets socket).Quiet
  running : ∀ call, s.call = some call → s.Running json call

@[simp] theorem setSocket_self (socket : Nat) (k : Socket) :
    (s.setSocket socket k).sockets socket = k :=
  if_pos rfl

theorem setSocket_ne {socket other : Nat} (hne : other ≠ socket) (k : Socket) :
    (s.setSocket socket k).sockets other = s.sockets other :=
  if_neg hne

@[simp] theorem setSocket_dispatched (socket : Nat) (k : Socket) :
    (s.setSocket socket k).dispatched = s.dispatched :=
  rfl

@[simp] theorem setSocket_begun (socket : Nat) (k : Socket) :
    (s.setSocket socket k).begun = s.begun :=
  rfl

theorem inv_start : (start : Connection Req Res).Inv json where
  matched := by simp [start]
  quiet := by simp [start]
  running := by simp [start]

/-- A step of a handler that takes quiet streams to quiet ones and keeps exchanges on
track preserves the invariant. -/
theorem Inv.of_handler (hs : s.Inv json) {socket : Nat} {k : Socket}
    {log : List (Dispatched Req Res)} (hlog : s.dispatched ⊆ log)
    (hquiet : (s.sockets socket).Quiet → k.Quiet)
    (htrack : ∀ {rpc : Rpc} {req : Req rpc} {request rest got : List UInt8},
      json.Encodes rpc req request →
        Exchange json s.dispatched s.begun request (s.sockets socket) rest got →
          Exchange json log s.begun request k rest got) :
    ({ s.setSocket socket k with dispatched := log } : Connection Req Res).Inv json where
  matched r hr := by
    obtain ⟨request, hencodes, d, hd, hanswer⟩ := hs.matched r hr
    exact ⟨request, hencodes, d, hlog hd, hanswer⟩
  quiet other hother := by
    by_cases hsame : other = socket
    · subst hsame
      simpa using hquiet (hs.quiet other hother)
    · simpa [setSocket_ne hsame] using hs.quiet other hother
  running call hcall := by
    obtain ⟨htaken, request, hencodes, hpayload, hstage⟩ := hs.running call hcall
    refine ⟨htaken, request, hencodes, hpayload, ?_⟩
    have hexchange : ∀ other rest got,
        Exchange json s.dispatched s.begun request (s.sockets other) rest got →
          Exchange json log s.begun request ((s.setSocket socket k).sockets other) rest got := by
      intro other rest got hbefore
      by_cases hsame : other = socket
      · subst hsame
        simpa using htrack hencodes hbefore
      · rw [setSocket_ne hsame]
        exact hbefore.mono hlog
    cases hat : call.stage with
    | writing other kept rest =>
        rw [hat] at hstage
        exact hexchange other rest [] hstage
    | reading other kept got =>
        rw [hat] at hstage
        exact hexchange other [] got hstage
    | connecting => trivial

theorem Inv.receive (hjson : json.Lawful) (hs : s.Inv json) {socket : Nat} {k : Socket}
    (hreceive : (s.sockets socket).receive voters = some k) : (s.setSocket socket k).Inv json := by
  refine hs.of_handler (List.Subset.refl _) ?_ ?_
  · intro hquiet
    rw [hquiet.receive_eq_none] at hreceive
    cases hreceive
  · intro rpc req request rest got hencodes hexchange
    exact hexchange.receive hjson hencodes hreceive

theorem Inv.respond (hs : s.Inv json) {socket n : Nat} {k : Socket}
    (hrespond : (s.sockets socket).respond n = some k) : (s.setSocket socket k).Inv json := by
  refine hs.of_handler (List.Subset.refl _) ?_ ?_
  · intro hquiet
    rw [hquiet.respond_eq_none] at hrespond
    cases hrespond
  · intro rpc req request rest got _ hexchange
    exact hexchange.respond hrespond

theorem Inv.close (hs : s.Inv json) (socket : Nat) :
    (s.setSocket socket (s.sockets socket).close).Inv json :=
  hs.of_handler (List.Subset.refl _) Socket.Quiet.close fun _ hexchange => hexchange.close

/-- An answer is that of the request that was received. -/
theorem Inv.dispatch (hs : s.Inv json) {socket : Nat} {slot : Option (Answers Req Res)}
    (hdispatch : s.dispatch json socket slot = some t) : t.Inv json := by
  unfold Connection.dispatch at hdispatch
  split at hdispatch
  next frame payload hat =>
    split at hdispatch
    next resp hanswer =>
      obtain rfl := Option.some.inj hdispatch
      refine hs.of_handler (List.subset_cons_self _ _) ?_ ?_
      · rintro ⟨-, -, hreading | hclosed⟩
        · rw [hat] at hreading
          cases hreading
        · rw [hat] at hclosed
          cases hclosed
      · intro rpc req request rest got _ hexchange
        generalize s.sockets socket = k at hat hexchange
        cases hexchange with
        | sending _ => cases hat
        | closed _ _ => cases hat
        | received =>
            cases hat
            exact .answered (List.mem_cons_self ..) rfl hanswer
              (.writing (by simp [writeFrame, toBeBytes32])) rfl
        | doomed hdoomed =>
            cases hat
            rw [hdoomed slot] at hanswer
            cases hanswer
        | answered _ _ _ howes _ =>
            cases hat
            cases howes
    next =>
      obtain rfl := Option.some.inj hdispatch
      exact hs.close socket
  next => cases hdispatch

/-- While no stream is kept, the running call is all that has to be followed. -/
theorem Inv.of_taken (hmatched : ∀ r ∈ t.returned, r.Matched json t.dispatched)
    (htaken : t.stream = none)
    (hsends : ∀ call, t.call = some call → ∃ request, json.Encodes call.rpc call.req request ∧
      call.payload = kindRaft :: request ∧ t.OnTrack json request call.stage) :
    t.Inv json where
  matched := hmatched
  quiet := by simp [htaken]
  running call hcall := ⟨htaken, hsends call hcall⟩

/-- The running call goes on from a stage in which its exchange is on track. -/
theorem Inv.goOn {call : Call Req} {request : List UInt8} {stage : CallStage}
    (hmatched : ∀ r ∈ t.returned, r.Matched json t.dispatched) (htaken : t.stream = none)
    (hencodes : json.Encodes call.rpc call.req request)
    (hpayload : call.payload = kindRaft :: request) (htrack : t.OnTrack json request stage) :
    (t.goOn call stage).Inv json := by
  refine .of_taken hmatched htaken ?_
  rintro _ ⟨⟩
  exact ⟨request, hencodes, hpayload, htrack⟩

theorem Inv.begin (hs : s.Inv json) {rpc : Rpc} {req : Req rpc}
    (hbegin : s.begin json rpc req = some t) : t.Inv json := by
  unfold Connection.begin at hbegin
  split at hbegin
  next => cases hbegin
  next hidle =>
    split at hbegin
    next =>
      obtain rfl := Option.some.inj hbegin
      exact ⟨hs.matched, hs.quiet, by simp [hidle]⟩
    next body hbody =>
      obtain rfl := Option.some.inj hbegin
      refine .of_taken hs.matched rfl ?_
      rintro _ ⟨⟩
      refine ⟨rpc.byte :: body, ⟨body, hbody, rfl⟩, rfl, ?_⟩
      -- a stream that was kept has nothing left on it
      cases hstream : s.stream with
      | none => trivial
      | some socket => exact .of_quiet (hs.quiet socket hstream)

theorem Inv.exchangeFailed {call : Call Req} {request : List UInt8}
    (hmatched : ∀ r ∈ t.returned, r.Matched json t.dispatched) (htaken : t.stream = none)
    (hencodes : json.Encodes call.rpc call.req request)
    (hpayload : call.payload = kindRaft :: request) (kept : Bool) :
    (t.exchangeFailed call kept).Inv json := by
  cases kept with
  | false => exact .of_taken hmatched htaken (by simp [Connection.exchangeFailed])
  | true => exact .goOn hmatched htaken hencodes hpayload trivial

/-- A stream is put back at the end of its exchange. -/
theorem Inv.exchanged {call : Call Req} {socket : Nat} {request resp : List UInt8}
    (hmatched : ∀ r ∈ s.returned, r.Matched json s.dispatched)
    (hencodes : json.Encodes call.rpc call.req request) (hquiet : (s.sockets socket).Quiet)
    (hanswer : ∃ d ∈ s.dispatched, d.frame = markedBy s.begun (kindRaft :: request) ∧
      dispatchRaft json request d.slot = some d.resp ∧ d.resp = resp) :
    (s.exchanged json call socket resp).Inv json where
  matched r hr := by
    obtain ⟨d, hd, hframe, hdispatch, rfl⟩ := hanswer
    unfold Connection.exchanged at hr
    dsimp only at hr
    split at hr
    next res hres =>
      obtain rfl | hr := List.mem_cons.mp hr
      · exact ⟨request, hencodes, d, hd, hframe, hdispatch, hres⟩
      · exact hmatched r hr
    next => exact hmatched r hr
  quiet other hother := by
    obtain rfl := Option.some.inj hother
    exact hquiet
  running := by simp [Connection.exchanged]

theorem Inv.readSome (hjson : json.Lawful) (hs : s.Inv json) {call : Call Req}
    (hcall : s.call = some call) {socket n : Nat} {kept : Bool} {got : List UInt8}
    (hstage : call.stage = .reading socket kept got)
    (hread : s.readSome json call socket kept got n = some t) : t.Inv json := by
  obtain ⟨htaken, request, hencodes, hpayload, htrack⟩ := hs.running call hcall
  rw [hstage] at htrack
  simp only [Connection.readSome, Option.ite_none_right_eq_some] at hread
  obtain ⟨⟨hpos, -, hn⟩, hread⟩ := hread
  have hexchange := Exchange.read htrack hpos hn
  split at hread
  next resp left hframe =>
    obtain rfl := Option.some.inj hread
    obtain ⟨hquiet, hanswer⟩ := hexchange.complete hjson hframe
    refine .exchanged hs.matched hencodes ?_ hanswer
    rwa [setSocket_self]
  next =>
    obtain rfl := Option.some.inj hread
    exact .exchangeFailed (t := s.setSocket socket _) hs.matched htaken hencodes hpayload kept
  next =>
    obtain rfl := Option.some.inj hread
    refine .goOn (t := s.setSocket socket _) hs.matched htaken hencodes hpayload ?_
    simpa only [OnTrack, setSocket_self, setSocket_dispatched, setSocket_begun] using hexchange

/-- A step of the running call. -/
theorem Inv.advance (hjson : json.Lawful) (hs : s.Inv json) {call : Call Req}
    (hcall : s.call = some call) {e : ConnectionEvent Req Res}
    (hadvance : s.advance json call e = some t) : t.Inv json := by
  obtain ⟨htaken, request, hencodes, hpayload, htrack⟩ := hs.running call hcall
  unfold Connection.advance at hadvance
  split at hadvance
  next n socket kept rest hstage =>
    obtain rfl := Option.some.inj hadvance
    rw [hstage] at htrack
    refine .goOn (t := s.setSocket socket _) hs.matched htaken hencodes hpayload ?_
    simpa only [OnTrack, setSocket_self, setSocket_dispatched, setSocket_begun] using
      Exchange.write htrack n
  next socket kept hstage =>
    obtain rfl := Option.some.inj hadvance
    rw [hstage] at htrack
    exact .goOn hs.matched htaken hencodes hpayload htrack
  next n socket kept got hstage => exact hs.readSome hjson hcall hstage hadvance
  next socket kept rest hstage =>
    obtain rfl := Option.some.inj hadvance
    exact .exchangeFailed hs.matched htaken hencodes hpayload kept
  next socket kept got hstage =>
    obtain rfl := Option.some.inj hadvance
    exact .exchangeFailed hs.matched htaken hencodes hpayload kept
  next hstage =>
    obtain rfl := Option.some.inj hadvance
    refine .goOn (t := { s.setSocket s.opened .fresh with opened := s.opened + 1 }) hs.matched
      htaken hencodes hpayload ?_
    simpa only [OnTrack, setSocket_self, setSocket_dispatched, setSocket_begun, hpayload] using
      Exchange.of_quiet Socket.fresh_quiet
  next hstage =>
    obtain rfl := Option.some.inj hadvance
    exact .of_taken hs.matched htaken (by simp)
  next =>
    obtain rfl := Option.some.inj hadvance
    exact .of_taken hs.matched htaken (by simp)
  next => cases hadvance

theorem Inv.next (hjson : json.Lawful) (hs : s.Inv json) {e : ConnectionEvent Req Res}
    (hnext : s.next json voters e = some t) : t.Inv json := by
  unfold Connection.next at hnext
  split at hnext
  next rpc req => exact hs.begin hnext
  next socket =>
    obtain ⟨k, hreceive, rfl⟩ := Option.map_eq_some_iff.mp hnext
    exact hs.receive hjson hreceive
  next socket slot => exact hs.dispatch hnext
  next socket n =>
    obtain ⟨k, hrespond, rfl⟩ := Option.map_eq_some_iff.mp hnext
    exact hs.respond hrespond
  next socket =>
    obtain rfl := Option.some.inj hnext
    exact hs.close socket
  next =>
    obtain ⟨call, hcall, hadvance⟩ := Option.bind_eq_some_iff.mp hnext
    exact hs.advance hjson hcall hadvance

/-- Responses are never mismatched, however calls are interrupted: what a call returns
was produced by the dispatch of its own request, and nothing is left on a stream that
is kept. -/
theorem responses_matched (json : RaftJson Req Res) (voters : List Nat) (hjson : json.Lawful)
    {s : Connection Req Res}
    (hreach : Reachable (fun s => s = start) (fun s e t => s.next json voters e = some t) s) :
    (∀ r ∈ s.returned, r.Matched json s.dispatched) ∧
      ∀ socket, s.stream = some socket → (s.sockets socket).Quiet := by
  have hinv : s.Inv json := by
    refine hreach.invariant ?_ ?_
    · rintro s rfl
      exact inv_start
    · intro s e t hs hnext
      exact hs.next hjson hnext
  exact ⟨hinv.matched, hinv.quiet⟩

/-- The handler of a stream answers the request on it. -/
def serve (socket : Nat) : List (ConnectionEvent (fun _ => Unit) (fun _ => Unit)) :=
  [.receive socket, .dispatch socket (some fun _ _ => ()), .respond socket 6]

/-- A vote that is answered after it has timed out, an append, and a snapshot that is
sent again after the handler of the kept stream has closed it. -/
def threeCalls : List (ConnectionEvent (fun _ => Unit) (fun _ => Unit)) :=
  [.begin .vote (), .connect, .write 8, .flush, .fail] ++ serve 0 ++
    [.begin .append (), .connect, .write 8, .flush] ++ serve 1 ++ [.read 4, .read 2] ++
    [.begin .snapshot (), .write 3, .close 1, .fail, .connect, .write 5, .write 3, .flush] ++
    serve 2 ++ [.read 4, .read 1, .read 1]

theorem unitJson_lawful : unitJson.Lawful where
  prefix_rejected := by
    intro rpc req body part hbody _ hne
    obtain rfl := Option.some.inj hbody
    exact if_neg hne
  result_fits := by
    intro rpc res bytes hbytes
    obtain rfl := Option.some.inj hbytes
    decide

/-- The last two of three calls return their responses. -/
theorem responses_matched_three_calls : ∃ s : Connection (fun _ => Unit) (fun _ => Unit),
    s.returned.map (fun r => (r.call, r.rpc)) = [(3, .snapshot), (2, .append)] ∧
      (∀ r ∈ s.returned, r.Matched unitJson s.dispatched) ∧ (s.sockets 2).Quiet := by
  have heval : ((threeCalls.foldlM (Connection.next unitJson []) start).any fun s =>
      decide (s.stream = some 2 ∧
        s.returned.map (fun r => (r.call, r.rpc)) = [(3, .snapshot), (2, .append)])) = true := by
    decide
  obtain ⟨s, hfold, hend⟩ := (Option.any_eq_true _ _).mp heval
  obtain ⟨hstream, hreturned⟩ := of_decide_eq_true hend
  obtain ⟨hmatched, hquiet⟩ := responses_matched unitJson [] unitJson_lawful
    ⟨start, threeCalls, rfl, Run.of_foldlM hfold⟩
  exact ⟨s, hreturned, hmatched, hquiet 2 hstream⟩

end Connection

end PgReplica
