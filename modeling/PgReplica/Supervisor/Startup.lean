import PgReplica.Rpc.Peers

/-! # The checks before Raft starts

Between the text of the settings and a `Config` stand the parser and the checks on
what it returns. The majority is that of the parsed list.
-/

namespace PgReplica

open Foundation

/-- The settings that the supervisor reads before it starts Raft. -/
structure StartupSettings where
  nodeId : Nat
  peers : String
  pgAddrs : String
  raftDir : String
  synchronous : Bool
  rejoinScript : String
  passfile : String

/-- The members that `HashSet::insert` reports as present, one after the other. -/
def duplicatesFrom (seen : List Nat) : List Nat → List Nat
  | [] => []
  | id :: rest =>
      if id ∈ seen then id :: duplicatesFrom seen rest else duplicatesFrom (id :: seen) rest

theorem duplicatesFrom_eq_nil_iff {seen ids : List Nat} :
    duplicatesFrom seen ids = [] ↔ ids.Nodup ∧ ∀ id ∈ ids, id ∉ seen := by
  induction ids generalizing seen with
  | nil => simp [duplicatesFrom]
  | cons id rest ih =>
      rw [duplicatesFrom, List.nodup_cons, List.forall_mem_cons]
      split
      next hseen => simp [hseen]
      next hnew =>
        rw [ih]
        constructor
        · rintro ⟨hnodup, hfresh⟩
          refine ⟨⟨fun hmem => hfresh id hmem List.mem_cons_self, hnodup⟩, hnew, ?_⟩
          exact fun other hother hseen => hfresh other hother (List.mem_cons_of_mem id hseen)
        · rintro ⟨⟨hnot, hnodup⟩, -, hfresh⟩
          refine ⟨hnodup, fun other hother hseen => ?_⟩
          rcases List.mem_cons.mp hseen with rfl | hmem
          · exact hnot hother
          · exact hfresh other hother hmem

/-- One check of the list of errors. -/
def errorUnless (ok : Bool) (text : String) : List String :=
  if ok then [] else [text]

@[simp] theorem errorUnless_eq_nil_iff {ok : Bool} {text : String} :
    errorUnless ok text = [] ↔ ok = true := by
  cases ok <;> simp [errorUnless]

namespace StartupSettings

variable (settings : StartupSettings)

def voters : List Nat :=
  (parsePeers settings.peers).map Peer.id

def pgMembers : List Peer :=
  parsePeers settings.pgAddrs

/-- A node without an id or without peers is not configured. -/
def unconfigured : Bool :=
  settings.nodeId == 0 || settings.voters.isEmpty

def configErrors : List String :=
  ((duplicatesFrom [] settings.voters).map fun voter =>
    "duplicate node id " ++ toString voter ++ " in pg_replica.peers") ++
  ((duplicatesFrom [] (settings.pgMembers.map Peer.id)).map fun member =>
    "duplicate node id " ++ toString member ++ " in pg_replica.pg_addrs") ++
  errorUnless (settings.voters.contains settings.nodeId)
    ("pg_replica.peers has no entry for this node (node_id=" ++ toString settings.nodeId ++ ")") ++
  errorUnless (settings.pgMembers.any fun member => member.id == settings.nodeId)
    ("pg_replica.pg_addrs has no entry for this node (node_id=" ++ toString settings.nodeId ++
      ")") ++
  errorUnless (!settings.raftDir.isEmpty)
    ("pg_replica.raft_dir is unset; it must point at durable node-local storage outside " ++
      "the data directory (never /tmp)")

/-- The checks, as conditions on what was parsed. -/
theorem configErrors_eq_nil_iff : settings.configErrors = [] ↔
    settings.voters.Nodup ∧ (settings.pgMembers.map Peer.id).Nodup ∧
      settings.nodeId ∈ settings.voters ∧ settings.nodeId ∈ settings.pgMembers.map Peer.id ∧
      settings.raftDir.isEmpty = false := by
  simp only [configErrors, List.append_eq_nil_iff, List.map_eq_nil_iff, duplicatesFrom_eq_nil_iff,
    errorUnless_eq_nil_iff, List.contains_iff_mem, List.any_eq_true, beq_iff_eq,
    Bool.not_eq_eq_eq_not, Bool.not_true, List.mem_map, List.not_mem_nil, not_false_eq_true,
    implies_true, and_true, and_assoc]

/-- The configuration under which Raft is started; `none` where the supervisor idles. -/
def start : Option Config :=
  if hpass : settings.unconfigured = false ∧ settings.configErrors = [] then
    have hchecks := settings.configErrors_eq_nil_iff.mp hpass.2
    some
      { nodeId := settings.nodeId
        voters := settings.voters
        pgMembers := settings.pgMembers
        synchronous := settings.synchronous
        rejoinScript := settings.rejoinScript
        passfile := settings.passfile
        nodeId_ne_zero := by simpa [unconfigured] using (Bool.or_eq_false_iff.mp hpass.1).1
        voters_nodup := hchecks.1
        members_nodup := hchecks.2.1
        nodeId_mem_voters := hchecks.2.2.1
        nodeId_mem_members := hchecks.2.2.2.1 }
  else none

variable {settings} {cfg : Config}

theorem voters_of_start (hstart : settings.start = some cfg) : cfg.voters = settings.voters := by
  unfold start at hstart
  split at hstart
  next => exact (congrArg Config.voters (Option.some.inj hstart)).symm
  next => cases hstart

end StartupSettings

/-- The voters are the members of the list as it was written, and the majority is that of
the whole list. -/
structure WholeQuorum (cfg : Config) (peers : String) : Prop where
  nodup : cfg.voters.Nodup
  self_mem : cfg.nodeId ∈ cfg.voters
  produced : ((writtenEntries peers).map fun entry => (parsePeer entry).map Peer.id) =
    cfg.voters.map some
  majority : cfg.majority = (writtenEntries peers).length / 2 + 1

namespace StartupSettings

variable {settings : StartupSettings} {cfg : Config}

/-- A configuration that passes the checks counts the whole list exactly when every entry
that is written can be read. -/
theorem wholeQuorum_iff_wellFormed (hstart : settings.start = some cfg) :
    WholeQuorum cfg settings.peers ↔
      ∀ entry ∈ writtenEntries settings.peers, WellFormedEntry entry := by
  rw [← map_parsePeer_eq_iff, ← voters, ← voters_of_start hstart]
  constructor
  · exact fun hwhole => hwhole.produced
  · intro hproduced
    refine ⟨cfg.voters_nodup, cfg.nodeId_mem_voters, hproduced, ?_⟩
    have hlength := congrArg List.length hproduced
    rw [List.length_map, List.length_map] at hlength
    rw [Config.majority, hlength]

/-- Node 1 with a list of peers. -/
def nodeOne (peers : String) : StartupSettings where
  nodeId := 1
  peers := peers
  pgAddrs := "1@node1:5432"
  raftDir := "/var/lib/pg_replica"
  synchronous := true
  rejoinScript := ""
  passfile := ""

/-- White space, an empty entry and a plus sign do no harm. -/
theorem wholeQuorum_spaced :
    ∃ cfg, (nodeOne " 1@a:7400, 2@b:7400,,+3 @ c:7400 ").start = some cfg ∧ cfg.majority = 2 ∧
      WholeQuorum cfg (nodeOne " 1@a:7400, 2@b:7400,,+3 @ c:7400 ").peers := by
  refine ⟨_, rfl, by decide, (wholeQuorum_iff_wellFormed rfl).mpr fun entry hentry => ?_⟩
  rw [← parsePeer_isSome_iff]
  revert entry
  decide

/-- Four entries with a slip in the last one give three voters, of which two are a majority. -/
theorem not_wholeQuorum_of_slip :
    ¬ ∀ (settings : StartupSettings) (cfg : Config), settings.start = some cfg →
      WholeQuorum cfg settings.peers := by
  intro hwhole
  have hslip := hwhole (nodeOne "1@a:7400,2@b:7400,3@c:7400,4d:7400") _ rfl
  have hmajority := hslip.majority
  revert hmajority
  decide

end StartupSettings

end PgReplica
