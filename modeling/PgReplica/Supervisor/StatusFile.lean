import Mathlib.Data.List.NodupEquivFin
import PgReplica.Foundation.Publication
import PgReplica.Foundation.Text
import PgReplica.Supervisor.Tick

/-! # The status and the heartbeat of a node

The supervisor publishes two files: at the top of its loop the time of day, and at the end
one line about the node where that line has changed. `replica.status()` reads the line in
another process, and the watchdog reads the time, both at any moment.
-/

namespace PgReplica

open Foundation

/-! ## The line -/

inductive ServerState where
  | leader
  | follower
  | candidate
  | learner
  | shutdown

def ServerState.roleName : ServerState → String
  | leader => "leader"
  | follower => "follower"
  | candidate => "candidate"
  | learner => "learner"
  | shutdown => "shutdown"

/-- What openraft tells about itself. -/
structure RaftMetrics where
  state : ServerState
  currentTerm : Nat
  currentLeader : Option Nat

def RaftMetrics.leaderId (metrics : RaftMetrics) : Nat :=
  metrics.currentLeader.getD 0

def Supervisor.repl (s : Supervisor) (cfg : Config) : String :=
  if s.decidedPrimary = cfg.nodeId then "primary"
  else if s.decidedPrimary ≠ 0 then
    match cfg.findMember s.decidedPrimary with
    | some member => "standby<-" ++ member.addr
    | none => "standby<-?"
  else "bootstrap"

/-- `snapshot` at the end of a tick. The quorum is the one that the branches have used. -/
def Node.statusLine (node : Node) (cfg : Config) (inp : TickInput) (metrics : RaftMetrics) :
    String :=
  let lead := node.sup.lead cfg inp
  let applied := (node.tick cfg inp).sup
  metrics.state.roleName ++ " term=" ++ toString metrics.currentTerm ++ " leader=" ++
    toString metrics.leaderId ++ " decided_primary=" ++ toString lead.decidedPrimary ++ " seq=" ++
    toString lead.decidedSeq ++ " quorum=" ++ toString (lead.quorumOk cfg inp.contactNow) ++
    " read_only=" ++ toString (applied.appliedReadOnly == some true) ++ " reconfirm=" ++
    toString applied.reconfirmPending ++ " | repl=" ++ lead.repl cfg ++ " in_recovery=" ++
    toString inp.inRecovery

/-! ## Texts as bytes -/

def encodeText (text : String) : List UInt8 :=
  text.toUTF8.data.toList

/-- `read_to_string`. -/
def decodeText (bytes : List UInt8) : Option String :=
  String.fromUTF8? ⟨bytes.toArray⟩

@[simp] theorem decodeText_encodeText (text : String) :
    decodeText (encodeText text) = some text := by
  have hbytes : (⟨(encodeText text).toArray⟩ : ByteArray) = text.toByteArray := by
    simp [encodeText]
  rw [decodeText, hbytes, String.fromUTF8?, dif_pos text.isValidUTF8]
  rfl

/-- `state::read`. -/
def readState (content : Option (List UInt8)) : Option String :=
  (content.bind decodeText).map fun text => String.ofList (trim text.toList)

/-- What `replica.status()` tells about the supervisor. -/
def liveStatus (content : Option (List UInt8)) : String :=
  (readState content).getD "consensus not started"

theorem liveStatus_encodeText {line : String} (htrim : trim line.toList = line.toList) :
    liveStatus (some (encodeText line)) = line := by
  simp [liveStatus, readState, htrim]

/-! ## The supervisor with its files and a client -/

inductive NodeFile where
  | status
  | heartbeat
deriving DecidableEq

/-- Where the loop is: before the heartbeat, after it, or at its end. -/
inductive LoopStage where
  | top
  | body
  | stopped

/-- `shown` are the texts of each file's occasions so far: a heartbeat for each turn of the
loop, and a line for each tick and for the end. -/
structure ReportingNode where
  node : Node
  last : String
  stage : LoopStage
  files : PublicFiles NodeFile
  shown : NodeFile → List String

inductive ReportEvent where
  | beat (millis : Nat)
  | tick (inp : TickInput) (metrics : RaftMetrics)
  | stop
  | restart (current : Option Decision) (now : Nat)
  | call (file : NodeFile) (outcome : CallOutcome)
  | openFile
  | readPiece (max : Nat)
  | abandon

namespace ReportingNode

variable (cfg : Config) (file : NodeFile) (r : ReportingNode)

/-- The loop does nothing beside a publication. -/
def idle : Bool :=
  [NodeFile.status, .heartbeat].all fun f => (r.files.calls f).all fun call => call.todo.isEmpty

/-- The text comes to be published. -/
def showing (f : NodeFile) (text : String) : NodeFile → List String :=
  Function.update r.shown f (r.shown f ++ [text])

def withFiles (files : PublicFiles NodeFile) : ReportingNode :=
  { r with files }

/-- The node after a step, and `none` where the step cannot come next. The client reads one
of the files, and a restart may come at any moment. -/
def after : ReportEvent → Option ReportingNode
  | .beat millis =>
      match r.stage, r.idle with
      | .top, true =>
          (r.files.after file (.publish .heartbeat (encodeText (toString millis)))).map fun files =>
            { r with stage := .body, files, shown := r.showing .heartbeat (toString millis) }
      | _, _ => none
  | .tick inp metrics =>
      match r.stage, r.idle with
      | .body, true =>
          let line := r.node.statusLine cfg inp metrics
          (if line ≠ r.last then r.files.after file (.publish .status (encodeText line))
            else some r.files).map fun files =>
              ⟨r.node.tick cfg inp, line, .top, files, r.showing .status line⟩
      | _, _ => none
  | .stop =>
      match r.stage, r.idle with
      | .top, true =>
          (r.files.after file (.publish .status (encodeText "stopped"))).map fun files =>
            { r with stage := .stopped, files, shown := r.showing .status "stopped" }
      | _, _ => none
  | .restart current now =>
      (r.files.after file .die).map fun files =>
        ⟨⟨Supervisor.start current now, r.node.settings⟩, "", .top, files, r.shown⟩
  | .call f outcome => (r.files.after file (.call f outcome)).map r.withFiles
  | .openFile => (r.files.after file .openFile).map r.withFiles
  | .readPiece max => (r.files.after file (.readPiece max)).map r.withFiles
  | .abandon => (r.files.after file .abandon).map r.withFiles

def Step (e : ReportEvent) (r' : ReportingNode) : Prop :=
  r.after cfg file e = some r'

/-- A first start, on a directory with nothing in it. -/
structure Started : Prop where
  node : r.node.Started
  last : r.last = ""
  stage : r.stage = .top
  files : r.files.Started
  current : ∀ name, r.files.disk.current name = none
  shown : ∀ f, r.shown f = []

end ReportingNode

/-! ## Lines keep their ends -/

theorem ServerState.toList_roleName (state : ServerState) :
    ∃ c rest, state.roleName.toList = c :: rest ∧ isWhitespace c = false := by
  cases state <;> exact ⟨_, _, rfl, rfl⟩

theorem toList_toString_bool (b : Bool) :
    ∃ rest c, (toString b).toList = rest ++ [c] ∧ isWhitespace c = false := by
  cases b
  · exact ⟨"fals".toList, 'e', rfl, rfl⟩
  · exact ⟨"tru".toList, 'e', rfl, rfl⟩

/-- What a text begins with it still begins with when it goes on. -/
theorem prefix_append_text {first : List Char} {text more : String}
    (hbegins : first <+: text.toList) : first <+: (text ++ more).toList := by
  rw [String.toList_append]
  exact hbegins.trans (List.prefix_append _ _)

theorem roleName_prefix_statusLine (node : Node) (cfg : Config) (inp : TickInput)
    (metrics : RaftMetrics) :
    metrics.state.roleName.toList <+: (node.statusLine cfg inp metrics).toList := by
  unfold Node.statusLine
  iterate 18 apply prefix_append_text
  exact List.prefix_refl _

theorem inRecovery_suffix_statusLine (node : Node) (cfg : Config) (inp : TickInput)
    (metrics : RaftMetrics) :
    (toString inp.inRecovery).toList <:+ (node.statusLine cfg inp metrics).toList := by
  unfold Node.statusLine
  rw [String.toList_append]
  exact List.suffix_append _ _

theorem trim_statusLine (node : Node) (cfg : Config) (inp : TickInput) (metrics : RaftMetrics) :
    trim (node.statusLine cfg inp metrics).toList = (node.statusLine cfg inp metrics).toList := by
  obtain ⟨first, rest, hfirst, hfirstBlank⟩ := metrics.state.toList_roleName
  obtain ⟨init, last, hlast, hlastBlank⟩ := toList_toString_bool inp.inRecovery
  have hbegins := roleName_prefix_statusLine node cfg inp metrics
  have hsuffix := inRecovery_suffix_statusLine node cfg inp metrics
  rw [hfirst] at hbegins
  rw [hlast] at hsuffix
  generalize (node.statusLine cfg inp metrics).toList = line at hbegins hsuffix ⊢
  apply trim_eq_self
  · obtain ⟨more, rfl⟩ := hbegins
    rintro c ⟨⟩
    exact hfirstBlank
  · obtain ⟨before, rfl⟩ := hsuffix
    intro c hc
    rw [← List.append_assoc, List.getLast?_append] at hc
    cases hc
    exact hlastBlank

/-! ## What holds whatever happens -/

/-- The files follow what was to be shown. -/
structure FilesReport (file : NodeFile) (files : PublicFiles NodeFile)
    (shown : NodeFile → List String) : Prop where
  ordered : files.InOrder file
  history : ∀ f, ∃ rest, files.history f = none :: rest ∧
    rest.Sublist ((shown f).map fun text => some (encodeText text))
  latest : ∀ f call, files.calls f = some call →
    (shown f).getLast?.map encodeText = some call.bytes

namespace FilesReport

variable {file : NodeFile} {files files' : PublicFiles NodeFile} {shown : NodeFile → List String}

theorem publish (hreport : FilesReport file files shown) {g : NodeFile} {text : String}
    (hstep : files.after file (.publish g (encodeText text)) = some files') :
    FilesReport file files' (Function.update shown g (shown g ++ [text])) := by
  refine ⟨hreport.ordered.step hstep, fun f => ?_, fun f call hcall => ?_⟩
  · obtain rfl := Option.some.inj hstep
    obtain ⟨rest, hhistory, hsublist⟩ := hreport.history f
    by_cases heq : f = g
    · subst heq
      refine ⟨rest ++ [some (encodeText text)], by simp [hhistory], ?_⟩
      rw [Function.update_self, List.map_append]
      exact hsublist.append (List.Sublist.refl _)
    · exact ⟨rest, by simp [Function.update_of_ne heq, hhistory],
        by rwa [Function.update_of_ne heq]⟩
  · obtain rfl := Option.some.inj hstep
    by_cases heq : f = g
    · subst heq
      simp only [Function.update_self, Option.some.injEq] at hcall
      simp [← hcall]
    · simp only [Function.update_of_ne heq] at hcall ⊢
      exact hreport.latest f call hcall

/-- What was to be shown last is to be shown again. -/
theorem again (hreport : FilesReport file files shown) {g : NodeFile} {text : String}
    (hlast : ∀ call, files.calls g = some call → (shown g).getLast? = some text) :
    FilesReport file files (Function.update shown g (shown g ++ [text])) := by
  refine ⟨hreport.ordered, fun f => ?_, fun f call hcall => ?_⟩
  · obtain ⟨rest, hhistory, hsublist⟩ := hreport.history f
    refine ⟨rest, hhistory, ?_⟩
    by_cases heq : f = g
    · subst heq
      rw [Function.update_self, List.map_append]
      exact hsublist.trans (List.sublist_append_left _ _)
    · rwa [Function.update_of_ne heq]
  · have hlatest := hreport.latest f call hcall
    by_cases heq : f = g
    · subst heq
      rw [hlast call hcall] at hlatest
      simpa using hlatest
    · rwa [Function.update_of_ne heq]

/-- A step that publishes nothing. -/
theorem of_frame (hreport : FilesReport file files shown) {e : PublishEvent NodeFile}
    (hquiet : ∀ f bytes, e ≠ .publish f bytes) (hstep : files.after file e = some files') :
    FilesReport file files' shown := by
  obtain ⟨hhistory, hcalls⟩ := PublicFiles.frame_of_after hquiet hstep
  refine ⟨hreport.ordered.step hstep, fun f => ?_, fun f call hcall => ?_⟩
  · rw [hhistory]
    exact hreport.history f
  · obtain ⟨before, hbefore, hbytes⟩ := hcalls f call hcall
    rw [← hbytes]
    exact hreport.latest f before hbefore

/-- Where each reading comes in what was to be shown. -/
theorem places (hreport : FilesReport file files shown) :
    ∃ places : List Nat, places.Pairwise (· ≤ ·) ∧ List.Forall₂ (fun p reading =>
      (none :: (shown file).map fun text => some (encodeText text))[p]? = some reading) places
        files.readings := by
  obtain ⟨rest, hhistory, hsublist⟩ := hreport.history file
  obtain ⟨-, places, -, hsorted, hplaces, -⟩ := hreport.ordered.reads
  rw [hhistory] at hplaces
  obtain ⟨embed, hembed⟩ :=
    List.sublist_iff_exists_orderEmbedding_getElem?_eq.mp (hsublist.cons_cons none)
  refine ⟨places.map embed, ?_, ?_⟩
  · exact List.pairwise_map.mpr (hsorted.imp fun hle => embed.monotone hle)
  · rw [List.forall₂_map_left_iff]
    exact hplaces.imp fun p reading hplace => (hembed p).symm.trans hplace

end FilesReport

namespace ReportingNode

variable {cfg : Config} {file : NodeFile} {r r' : ReportingNode}

/-- The files follow what was to be shown, and a finished line is the one that the next is
compared with. -/
structure Reports (file : NodeFile) (r : ReportingNode) : Prop where
  files : FilesReport file r.files r.shown
  trimmed : ∀ line ∈ r.shown .status, trim line.toList = line.toList
  last : ∀ call, r.files.calls .status = some call → r.stage ≠ .stopped →
    (r.shown .status).getLast? = some r.last

theorem Reports.of_started (hstarted : r.Started) : r.Reports file where
  files := by
    refine ⟨.of_started hstarted.files file, fun f => ⟨[], ?_, List.nil_sublist _⟩, ?_⟩
    · rw [hstarted.files.history f, Disk.read, hstarted.current]
      rfl
    · intro f call hcall
      rw [hstarted.files.calls f] at hcall
      cases hcall
  trimmed := by simp [hstarted.shown]
  last := by
    intro call hcall
    rw [hstarted.files.calls] at hcall
    cases hcall

theorem Reports.trimmed_showing (hreports : r.Reports file) {text : String}
    (htext : trim text.toList = text.toList) :
    ∀ line ∈ r.showing .status text .status, trim line.toList = line.toList := by
  intro line hline
  rw [showing, Function.update_self] at hline
  rcases List.mem_append.mp hline with hold | hnew
  · exact hreports.trimmed line hold
  · rwa [List.mem_singleton.mp hnew]

/-- A step that only concerns the files. -/
theorem Reports.of_frame (hreports : r.Reports file) {e : PublishEvent NodeFile}
    (hquiet : ∀ f bytes, e ≠ .publish f bytes)
    (hstep : (r.files.after file e).map r.withFiles = some r') : r'.Reports file := by
  obtain ⟨files, hfiles, rfl⟩ := Option.map_eq_some_iff.mp hstep
  refine ⟨hreports.files.of_frame hquiet hfiles, hreports.trimmed, fun call hcall => ?_⟩
  obtain ⟨-, hcalls⟩ := PublicFiles.frame_of_after hquiet hfiles
  obtain ⟨before, hbefore, -⟩ := hcalls _ call hcall
  exact hreports.last before hbefore

theorem Reports.step (hreports : r.Reports file) {e : ReportEvent}
    (hstep : r.Step cfg file e r') : r'.Reports file := by
  rw [Step, after.eq_def] at hstep
  cases e with
  | beat millis =>
      simp only at hstep
      split at hstep
      next hstage hidle =>
        obtain ⟨files, hfiles, rfl⟩ := Option.map_eq_some_iff.mp hstep
        have hshown : r.showing .heartbeat (toString millis) .status = r.shown .status :=
          Function.update_of_ne (by decide) _ _
        refine ⟨hreports.files.publish hfiles, ?_, fun call hcall _ => ?_⟩
        · change ∀ line ∈ r.showing .heartbeat (toString millis) .status, _
          rw [hshown]
          exact hreports.trimmed
        · obtain rfl := Option.some.inj hfiles
          simp only [Function.update_of_ne (show NodeFile.status ≠ .heartbeat by decide)] at hcall
          change (r.showing .heartbeat (toString millis) .status).getLast? = _
          rw [hshown]
          exact hreports.last call hcall (by rw [hstage]; exact fun h => by cases h)
      next => cases hstep
  | tick inp metrics =>
      simp only at hstep
      split at hstep
      next hstage hidle =>
        obtain ⟨files, hfiles, rfl⟩ := Option.map_eq_some_iff.mp hstep
        have hlatest : (r.showing .status (r.node.statusLine cfg inp metrics) .status).getLast? =
            some (r.node.statusLine cfg inp metrics) := by simp [showing]
        refine ⟨?_, hreports.trimmed_showing (trim_statusLine _ _ _ _), fun _ _ _ => hlatest⟩
        split at hfiles
        next => exact hreports.files.publish hfiles
        next hsame =>
          -- the line is the one that the file was given last
          obtain rfl := Option.some.inj hfiles
          refine hreports.files.again fun call hcall => ?_
          have hlast := hreports.last call hcall (by rw [hstage]; exact fun h => by cases h)
          rw [not_not.mp hsame, hlast]
      next => cases hstep
  | stop =>
      simp only at hstep
      split at hstep
      next =>
        obtain ⟨files, hfiles, rfl⟩ := Option.map_eq_some_iff.mp hstep
        exact ⟨hreports.files.publish hfiles, hreports.trimmed_showing rfl,
          fun _ _ h => absurd rfl h⟩
      next => cases hstep
  | restart current now =>
      obtain ⟨files, hfiles, rfl⟩ := Option.map_eq_some_iff.mp hstep
      refine ⟨hreports.files.of_frame (fun _ _ h => by cases h) hfiles, hreports.trimmed, ?_⟩
      intro call hcall
      obtain rfl := Option.some.inj hfiles
      cases hcall
  | call f outcome => exact hreports.of_frame (fun _ _ h => by cases h) hstep
  | openFile => exact hreports.of_frame (fun _ _ h => by cases h) hstep
  | readPiece max => exact hreports.of_frame (fun _ _ h => by cases h) hstep
  | abandon => exact hreports.of_frame (fun _ _ h => by cases h) hstep

theorem Reports.of_run (hreach : Reachable Started (Step cfg file) r) : r.Reports file :=
  hreach.invariant (fun _ hstarted => .of_started hstarted) fun _ _ _ hreports hstep =>
    hreports.step hstep

/-- What `replica.status()` gives, call after call: that nothing has started, and then
lines of ticks in the order of the ticks. When the supervisor has written a line without an
error, the file has the line of its last tick. -/
theorem statuses_in_order_of_run (hreach : Reachable Started (Step cfg .status) r) :
    (∃ places : List Nat, places.Pairwise (· ≤ ·) ∧ List.Forall₂ (fun p text =>
      ("consensus not started" :: r.shown .status)[p]? = some text) places
        (r.files.readings.map liveStatus)) ∧
      ∀ call, r.files.calls .status = some call → call.todo = [] →
        (r.shown .status).getLast? =
          some (liveStatus (r.files.disk.read (.final .status))) := by
  have hreports := Reports.of_run hreach
  constructor
  · obtain ⟨places, hsorted, hplaces⟩ := hreports.files.places
    refine ⟨places, hsorted, List.forall₂_map_right_iff.mpr (hplaces.imp ?_)⟩
    intro p reading hplace
    cases p with
    | zero =>
        obtain rfl := Option.some.inj hplace
        rfl
    | succ p =>
        rw [List.getElem?_cons_succ, List.getElem?_map] at hplace
        rw [List.getElem?_cons_succ]
        obtain ⟨line, hline, rfl⟩ := Option.map_eq_some_iff.mp hplace
        rw [hline, liveStatus_encodeText (hreports.trimmed line (List.mem_of_getElem? hline))]
  · intro call hcall hdone
    obtain ⟨line, hline, hbytes⟩ :=
      Option.map_eq_some_iff.mp (hreports.files.latest .status call hcall)
    rw [hreports.files.ordered.read_of_done hcall hdone, ← hbytes,
      liveStatus_encodeText (hreports.trimmed line (List.mem_of_getLast? hline)), hline]

/-! ## A line read while the next one is published -/

/-- A node at its first start. -/
def blankNode (settings : Settings) : ReportingNode where
  node := .firstPrimary settings
  last := ""
  stage := .top
  files :=
    { disk :=
        { content := fun _ => []
          synced := fun _ => true
          current := fun _ => none
          older := []
          fresh := 0
          lt_fresh := by simp
          inj := by simp }
      calls := fun _ => none
      history := fun _ => [none]
      opened := none
      readings := [] }
  shown := fun _ => []

theorem blankNode_started (settings : Settings) : (blankNode settings).Started where
  node := Node.firstPrimary_started settings
  last := rfl
  stage := rfl
  files := ⟨fun _ => rfl, fun _ => rfl, rfl, rfl⟩
  current := fun _ => rfl
  shown := fun _ => rfl

def write (f : NodeFile) : List ReportEvent :=
  List.replicate 3 (.call f .ok)

/-- A turn of the loop. -/
def turn (now term : Nat) : List ReportEvent :=
  [.beat now] ++ write .heartbeat ++
    [.tick (.plain now [] none) ⟨.leader, term, some 1⟩] ++ write .status

/-- The client looks before the first line, and again while the second one is published. -/
def overtakenReading : List ReportEvent :=
  [.openFile] ++ turn 100 1 ++ [.openFile, .readPiece 9] ++ turn 200 2 ++
    [.readPiece 999, .readPiece 999]

def linesRead : List String :=
  ["leader term=1 leader=1 decided_primary=1 seq=1 quorum=false read_only=true" ++
      " reconfirm=false | repl=primary in_recovery=false",
    "leader term=2 leader=1 decided_primary=1 seq=1 quorum=false read_only=true" ++
      " reconfirm=false | repl=primary in_recovery=false"]

/-- The client gets the whole first line. -/
theorem statuses_in_order_of_run_overtaken : ∃ (r : ReportingNode) (places : List Nat),
    Reachable Started (Step (Config.threeNodes 1 (by decide)) .status) r ∧
    r.shown .status = linesRead ∧
    r.files.readings.map liveStatus = "consensus not started" :: linesRead.take 1 ∧
    places.Pairwise (· ≤ ·) ∧ List.Forall₂ (fun p text =>
      ("consensus not started" :: r.shown .status)[p]? = some text) places
        (r.files.readings.map liveStatus) := by
  have hevents : (overtakenReading.foldlM (after (Config.threeNodes 1 (by decide)) .status)
      (blankNode ⟨false, "", ""⟩)).any (fun r => decide (r.shown .status = linesRead ∧
        r.files.readings.map liveStatus = "consensus not started" :: linesRead.take 1)) =
      true := by decide +kernel
  obtain ⟨r, hfold, hend⟩ := (Option.any_eq_true _ _).mp hevents
  obtain ⟨hshown, hreadings⟩ := of_decide_eq_true hend
  have hreach : Reachable Started (Step (Config.threeNodes 1 (by decide)) .status) r :=
    ⟨_, _, blankNode_started ⟨false, "", ""⟩, Run.of_foldlM hfold⟩
  obtain ⟨⟨places, hsorted, hplaces⟩, -⟩ := statuses_in_order_of_run hreach
  exact ⟨r, places, hreach, hshown, hreadings, hsorted, hplaces⟩

end ReportingNode

end PgReplica
