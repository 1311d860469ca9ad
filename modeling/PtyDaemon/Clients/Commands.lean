import Mathlib.Data.Finset.Basic
import Mathlib.Data.Finset.Card
import PtyDaemon.Clients.Attach
import PtyDaemon.Server.Views
import PtyDaemon.Wire.Occurrences

/-!
# The other subcommands

`create`, `detach`, `list`, `kill`, `ping` and `shutdown` send one request each and print what the
response says. Whatever is in the daemon's table, `list` shows, and what it shows the others
understand.
-/

namespace PtyDaemon

inductive Subcommand
  | create (shell workingDir : Option String)
  | detach (id : Uuid)
  | list
  | kill (id : Uuid)
  | ping
  | shutdown
  deriving DecidableEq

/-- A line of `println!`. -/
def printed (text : String) : CliAct := .stdout (text ++ "\n").toByteArray.data.toList

/-- Left-aligned in `width` characters; what is longer is not cut. -/
def padRight (width : Nat) (text : String) : String :=
  text ++ String.ofList (List.replicate (width - text.length) ' ')

def tableHead : String :=
  padRight 36 "ID" ++ "  " ++ padRight 10 "STATE" ++ "  " ++ padRight 8 "PID" ++ "  " ++
    padRight 10 "SIZE" ++ "  " ++ padRight 6 "ALIVE" ++ "  AGE"

/-- What stands behind the id. -/
def tableColumns (s : SessionInfo) : String :=
  "  " ++ padRight 10 s.state ++ "  " ++ padRight 8 (toString s.childPid) ++ "  " ++
    toString s.cols.toNat ++ "x" ++ padRight 6 (toString s.rows.toNat) ++ "  " ++
    padRight 6 (toString s.childAlive) ++ "  " ++ toString s.createdSecsAgo ++ "s"

def tableRow (s : SessionInfo) : String := padRight 36 s.id.toText ++ tableColumns s

/-- The last `--shell` counts, and without a value it takes an earlier one back. -/
def shellOf : List String → Option String → Option String
  | [], shell => shell
  | [arg], shell => if arg = "--shell" then none else shell
  | arg :: value :: rest, shell =>
    if arg = "--shell" then shellOf rest (some value) else shellOf (value :: rest) shell

namespace Subcommand

def request : Subcommand → Request
  | .create shell workingDir => .create shell 80 24 workingDir none none
  | .detach id => .detach id 80 24 none
  | .list => .list
  | .kill id => .kill id
  | .ping => .ping
  | .shutdown => .shutdown

/-- The lines the command has for the response it hopes for. -/
def lines : Subcommand → Response → Option (List String)
  | .create .., .created sessionId => some [sessionId.toText]
  | .detach _, .detached sessionId => some ["detached " ++ sessionId.toText]
  | .list, .sessionList sessions =>
    some (if sessions.isEmpty then ["no sessions"] else tableHead :: sessions.map tableRow)
  | .kill _, .killed sessionId => some ["killed " ++ sessionId.toText]
  | .ping, .pong version sessionCount =>
    some ["pong v" ++ toString version.toNat ++ " sessions=" ++ toString sessionCount]
  | .shutdown, .shuttingDown => some ["daemon is shutting down"]
  | _, _ => none

/-- What follows the response; a response of another kind is printed, and the command has done. -/
def report (C : ClientTexts) (c : Subcommand) (response : Response) : List CliAct × Outcome :=
  match c.lines response, response with
  | some lines, _ => (lines.map printed, .done)
  | none, .error message => ([.stderr ("error: " ++ message ++ "\n")], .exit 1)
  | none, _ => ([unexpectedResponse C response], .done)

end Subcommand

/-- What a command is told on its way. -/
structure SubcommandAnswers where
  connectError : Option String
  /-- of the request -/
  writeError : Option String
  reads : List StreamRead

/-- One request and its response; `none`: the command waits for more of it. -/
def Subcommand.run (T : Serde) (C : ClientTexts) (socketPath : String) (c : Subcommand)
    (a : SubcommandAnswers) : Option (List CliAct × Outcome) :=
  match a.connectError, a.writeError with
  | some e, _ =>
    some ([], .failed ("cannot connect to daemon at " ++ socketPath ++ ": " ++ e ++
      "\nIs the daemon running?"))
  | none, some e => some ([.sent c.request], .failed e)
  | none, none =>
    (readResponse T [] a.reads).map fun p =>
      match p.1 with
      | .error e => ([.sent c.request], .failed e)
      | .ok response => (.sent c.request :: (c.report C response).1, (c.report C response).2)

/-- The first argument is the id of a session. -/
def withSession (C : ClientTexts) (name : String) (command : Uuid → Subcommand) :
    List String → Except (List CliAct × Outcome) Subcommand
  | [] => .error ([.stderr ("usage: pty-daemon " ++ name ++ " <session-id>\n")], .exit 1)
  | arg :: _ =>
    match C.parse arg with
    | none => .error ([], .failed "invalid uuid")
    | some id => .ok (command id)

def cmdCreate (workingDir : Option String) (args : List String) :
    Except (List CliAct × Outcome) Subcommand := .ok (.create (shellOf args none) workingDir)

def cmdDetach (C : ClientTexts) : List String → Except (List CliAct × Outcome) Subcommand :=
  withSession C "detach" .detach

def cmdList : Except (List CliAct × Outcome) Subcommand := .ok .list

def cmdKill (C : ClientTexts) : List String → Except (List CliAct × Outcome) Subcommand :=
  withSession C "kill" .kill

def cmdPing : Except (List CliAct × Outcome) Subcommand := .ok .ping

def cmdShutdown : Except (List CliAct × Outcome) Subcommand := .ok .shutdown

/-- What `main` is told: its process, what `cmd_daemon` returns where it returns, and what the clients
are told. -/
structure MainAnswers where
  pid : Pid
  workingDir : Option String
  daemon : Option (Except String Unit)
  attach : AttachAnswers
  command : SubcommandAnswers

def usageText : String :=
  "pty-daemon v0.1.0\n\nUsage:\n" ++
    "  pty-daemon daemon              Start daemon\n" ++
    "  pty-daemon create [--shell X]  Create session\n" ++
    "  pty-daemon attach <id>         Attach to session\n" ++
    "  pty-daemon detach <id>         Detach session\n" ++
    "  pty-daemon list                List sessions\n" ++
    "  pty-daemon kill <id>           Kill session\n" ++
    "  pty-daemon ping                Health check\n" ++
    "  pty-daemon shutdown            Gracefully shutdown daemon\n"

/-- The exit code; a command that fails has its error printed. -/
def finish : List CliAct × Outcome → List CliAct × Nat
  | (acts, .done) => (acts, 0)
  | (acts, .failed message) => (acts ++ [.stderr ("error: " ++ message ++ "\n")], 1)
  | (acts, .exit code) => (acts, code)

/-- A subcommand with the arguments behind its name. -/
def subcommand (T : Serde) (C : ClientTexts) (socketPath : String) (name : String)
    (args : List String) (a : MainAnswers) : Option (List CliAct × Outcome) :=
  let run : Except (List CliAct × Outcome) Subcommand → Option (List CliAct × Outcome)
    | .error early => some early
    | .ok command => command.run T C socketPath a.command
  match name with
  | "daemon" =>
    let banner := CliAct.stderr ("pty-daemon v0.1.0 (pid=" ++ toString a.pid ++ ")\n")
    a.daemon.map fun
      | .ok () => ([banner], .done)
      | .error e => ([banner], .failed e)
  | "create" => run (cmdCreate a.workingDir args)
  | "attach" => cmdAttach C socketPath args a.attach
  | "detach" => run (cmdDetach C args)
  | "list" => run cmdList
  | "kill" => run (cmdKill C args)
  | "ping" => run cmdPing
  | "shutdown" => run cmdShutdown
  | _ => some ([.stderr usageText], .exit 1)

/-- `main`, with the arguments behind the name of the program; `none`: it still runs. -/
def main (T : Serde) (C : ClientTexts) (socketPath : String) (args : List String)
    (a : MainAnswers) : Option (List CliAct × Nat) :=
  match args with
  | [] => some ([.stderr usageText], 1)
  | name :: rest => (subcommand T C socketPath name rest a).map finish

/-- The arguments with which a command is run. -/
inductive Invokes (C : ClientTexts) (workingDir : Option String) : List String → Subcommand → Prop
  | create (args : List String) :
      Invokes C workingDir ("create" :: args) (.create (shellOf args none) workingDir)
  | detach {arg : String} {id : Uuid} (h : C.parse arg = some id) (args : List String) :
      Invokes C workingDir ("detach" :: arg :: args) (.detach id)
  | list (args : List String) : Invokes C workingDir ("list" :: args) .list
  | kill {arg : String} {id : Uuid} (h : C.parse arg = some id) (args : List String) :
      Invokes C workingDir ("kill" :: arg :: args) (.kill id)
  | ping (args : List String) : Invokes C workingDir ("ping" :: args) .ping
  | shutdown (args : List String) : Invokes C workingDir ("shutdown" :: args) .shutdown

private theorem main_invokes {C : ClientTexts} {args : List String} {c : Subcommand}
    {a : MainAnswers}
    (h : Invokes C a.workingDir args c) (T : Serde) (socketPath : String) :
    main T C socketPath args a = (c.run T C socketPath a.command).map finish := by
  cases h with
  | detach h args => simp [main, subcommand, cmdDetach, withSession, h]
  | kill h args => simp [main, subcommand, cmdKill, withSession, h]
  | _ => rfl

/-! ## The table of sessions -/

/-- The id a line of the table begins with. -/
def rowId (C : ClientTexts) (row : String) : Option Uuid :=
  C.parse (String.ofList (row.toList.take 36))

/-- The ids below the head of the table. -/
def listedIds (C : ClientTexts) (lines : List String) : List Uuid := lines.tail.filterMap (rowId C)

/-- The ids are read back from their texts. -/
def ClientTexts.ReadsIds (C : ClientTexts) (ids : Finset Uuid) : Prop :=
  ∀ id ∈ ids, C.parse id.toText = some id

private theorem Uuid.length_toText (u : Uuid) : u.toText.toList.length = 36 := by
  rw [Uuid.toText, String.toList_ofList]
  simp

private theorem rowId_tableRow (C : ClientTexts) (s : SessionInfo) :
    rowId C (tableRow s) = C.parse s.id.toText := by
  rw [rowId, tableRow, padRight, String.append_assoc, String.toList_append,
    List.take_left' s.id.length_toText, String.ofList_toList]

/-- What a user may rely on: which ids there are before and after a command, what is printed and how
the command ends. -/
inductive Subcommand.Does (C : ClientTexts) (ids : Finset Uuid) :
    Subcommand → Finset Uuid → List CliAct × Outcome → Prop
  | created {shell workingDir : Option String} {id : Uuid} (hnew : id ∉ ids) :
      Does C ids (.create shell workingDir) (insert id ids) ([printed id.toText], .done)
  | refused {shell workingDir : Option String} (reason : String) :
      Does C ids (.create shell workingDir) ids
        ([.stderr ("error: create pty failed: " ++ reason ++ "\n")], .exit 1)
  | detached {id : Uuid} (h : id ∈ ids) :
      Does C ids (.detach id) ids ([printed ("detached " ++ id.toText)], .done)
  | killed {id : Uuid} (h : id ∈ ids) :
      Does C ids (.kill id) (ids.erase id) ([printed ("killed " ++ id.toText)], .done)
  | unknown {id : Uuid} {c : Subcommand} (h : id ∉ ids) (hc : c = .detach id ∨ c = .kill id) :
      Does C ids c ids
        ([.stderr ("error: " ++ ("session " ++ id.toText ++ " not found") ++ "\n")], .exit 1)
  /-- the ids can be read off the lines, each once -/
  | listed {lines : List String} (hids : (listedIds C lines).toFinset = ids)
      (hnodup : (listedIds C lines).Nodup) : Does C ids .list ids (lines.map printed, .done)
  | counted :
      Does C ids .ping ids ([printed ("pong v" ++ toString protocolVersion.toNat ++ " sessions=" ++
        toString ids.card)], .done)
  | stopping : Does C ids .shutdown ids ([printed "daemon is shutting down"], .done)

namespace Server

variable {J : Codec} {env : Env} {σ σ' τ : Server} {id : Uuid}

/-- The ids in the table. -/
def known (σ : Server) : Finset Uuid := σ.sessions.keys.toFinset

private theorem mem_known : id ∈ σ.known ↔ (σ.sessions.lookup id).isSome = true := by
  rw [known, List.mem_toFinset]
  exact AList.mem_keys.symm.trans AList.lookup_isSome.symm

private theorem known_of_sessions (h : σ'.sessions = σ.sessions) : σ'.known = σ.known := by
  rw [known, known, h]

private theorem known_putSession (σ : Server) (id : Uuid) (s : Session) :
    (σ.putSession id s).known = insert id σ.known := by
  ext i
  rw [Finset.mem_insert, mem_known, mem_known, lookup_putSession]
  split
  · rename_i hi
    simp [hi]
  · rename_i hi
    simp [hi]

private theorem known_removeSession (σ : Server) (id : Uuid) :
    (σ.removeSession id).known = σ.known.erase id := by
  ext i
  rw [Finset.mem_erase, mem_known, mem_known, removeSession, Table.lookup_erase]
  split
  · rename_i hi
    simp [hi]
  · rename_i hi
    simp [hi]

private theorem sessions_ids (hinv : Inv σ) :
    (σ.sessions.list.map Session.id).Nodup ∧
      (σ.sessions.list.map Session.id).toFinset = σ.known := by
  have hperm := (List.mergeSort_perm σ.sessions.values
    fun s t => decide (s.createdAt ≤ t.createdAt)).map Session.id
  constructor
  · exact hperm.nodup_iff.mpr (Table.nodup_map_values fun _ _ hs => hinv.sessionsOpen.key hs)
  · ext i
    rw [List.mem_toFinset, mem_known, Option.isSome_iff_exists, List.mem_map]
    constructor
    · rintro ⟨s, hs, rfl⟩
      obtain ⟨k, hk⟩ := Table.mem_values.mp (List.mem_mergeSort.mp hs)
      exact ⟨s, hinv.sessionsOpen.key hk ▸ hk⟩
    · rintro ⟨s, hs⟩
      exact ⟨s, List.mem_mergeSort.mpr (Table.mem_values.mpr ⟨i, hs⟩), hinv.sessionsOpen.key hs⟩

/-- What is printed for a list, one line for each session. -/
theorem listedIds_lines {C : ClientTexts} (hreads : C.ReadsIds σ.known) (hinv : Inv σ)
    (env : Env) :
    ∃ lines, Subcommand.list.lines (σ.handleList env) = some lines ∧
      listedIds C lines = σ.sessions.list.map Session.id := by
  have hrow : ∀ s ∈ σ.sessions.list, rowId C (tableRow (sessionInfo env s)) = some s.id := by
    intro s hs
    have hid : s.id ∈ σ.known := by
      rw [← (sessions_ids hinv).2, List.mem_toFinset]
      exact List.mem_map_of_mem hs
    exact (rowId_tableRow C _).trans (hreads s.id hid)
  refine ⟨_, rfl, ?_⟩
  cases hlist : σ.sessions.list with
  | nil => rfl
  | cons s rest =>
    rw [hlist] at hrow
    change ((((s :: rest).map (sessionInfo env)).map tableRow).filterMap (rowId C)) = _
    rw [List.filterMap_map, List.filterMap_map, ← List.filterMap_eq_map]
    exact List.filterMap_congr hrow

private theorem card_known (σ : Server) : σ.known.card = σ.sessions.values.length := by
  rw [known, List.toFinset_card_of_nodup σ.sessions.keys_nodup, AList.keys, List.keys,
    List.length_map, Table.values, List.length_map]

/-- A session that is there is replaced. -/
theorem known_replaced {s : Session} (hid : id ∈ σ.known) (hknown : τ.known = σ.known) :
    (τ.putSession id s).known = σ.known := by
  rw [known_putSession, hknown, Finset.insert_eq_of_mem hid]

private theorem handleDetach_known (σ : Server) (id : Uuid) (cols rows : UInt16)
    (snapshot : Option GridSnapshot) :
    (σ.handleDetach id cols rows snapshot).1.known = σ.known := by
  unfold handleDetach
  split
  · rfl
  · rename_i s hs
    have hid : id ∈ σ.known := mem_known.mpr (by rw [hs]; rfl)
    have hdetached : ((σ.putSession id (s.detach snapshot)).register s.masterFd).known = σ.known :=
      known_replaced hid rfl
    dsimp only
    split
    · exact known_replaced hid hdetached
    · exact hdetached

/-- Every command does what a user may rely on. -/
theorem handleRequest_does {C : ClientTexts} (hreads : C.ReadsIds σ.known) {fd : RawFd} (hinv : Inv σ)
    (hadmits : σ.admits env = true) (c : Subcommand) {p : Server × Response}
    (h : σ.handleRequest J env fd c.request = .ok p) :
    c.Does C σ.known p.1.known (c.report C p.2) := by
  have hmissing : ∀ {id}, σ.sessions.lookup id = none → id ∉ σ.known := by
    intro id hs hid
    rw [mem_known, hs] at hid
    cases hid
  cases c with
  | create shell workingDir =>
    simp only [Subcommand.request, handleRequest, handleCreate] at h
    split at h
    · rename_i e hpty
      cases h
      exact .refused e
    · rename_i masterFd childPid ptsname hpty
      have hfresh : σ.freeFd masterFd = true ∧ env.uuid ∉ σ.ids := by
        rw [admits, hpty, Bool.and_eq_true] at hadmits
        simpa using hadmits.2
      have hnew : env.uuid ∉ σ.known := by
        intro hid
        obtain ⟨s, hs⟩ := Option.isSome_iff_exists.mp (mem_known.mp hid)
        exact hfresh.2 (hinv.session (coreOf_eq_some hs)).known
      split at h
      · cases h
      · cases h
      · cases h
        have hknown := known_putSession
          ((({ σ with ids := env.uuid :: σ.ids }.openFd masterFd (.master env.uuid)).emit
            (.spawned env.uuid (shell.getD "") workingDir none none)).register masterFd) env.uuid
        rw [hknown]
        exact .created hnew
  | detach id =>
    cases h
    change Subcommand.Does _ _ _ (σ.handleDetach id 80 24 none).1.known
      ((Subcommand.detach id).report C (σ.handleDetach id 80 24 none).2)
    cases hs : σ.sessions.lookup id with
    | none =>
      have hmiss : σ.handleDetach id 80 24 none = (σ, notFound id) := by simp [handleDetach, hs]
      rw [hmiss]
      exact .unknown (hmissing hs) (.inl rfl)
    | some s =>
      have hid : id ∈ σ.known := mem_known.mpr (by rw [hs]; rfl)
      have hresponse : (σ.handleDetach id 80 24 none).2 = .detached id := by
        simp [handleDetach, hs]
      rw [handleDetach_known, hresponse]
      exact .detached hid
  | list =>
    cases h
    obtain ⟨lines, hlines, hids⟩ := listedIds_lines hreads hinv env
    obtain ⟨hnodup, hknown⟩ := sessions_ids hinv
    have hreport : Subcommand.list.report C (σ.handleList env) = (lines.map printed, .done) := by
      simp only [Subcommand.report, hlines]
    rw [hreport]
    exact .listed (hids ▸ hknown) (hids ▸ hnodup)
  | kill id =>
    cases h
    cases hs : σ.sessions.lookup id with
    | none =>
      have hmiss : σ.handleKill env id = (σ, notFound id) := by simp [handleKill, hs]
      rw [hmiss]
      exact .unknown (hmissing hs) (.inr rfl)
    | some s =>
      have hid : id ∈ σ.known := mem_known.mpr (by rw [hs]; rfl)
      have hkilled : σ.handleKill env id =
          ((((σ.removeSession id).unregister s.masterFd).notifySessionEnded id).cleanupSession
            env s, .killed id) := by simp [handleKill, hs]
      have hknown : (σ.handleKill env id).1.known = σ.known.erase id := by
        rw [hkilled, ← known_removeSession]
        exact known_of_sessions (cleanup_sessions ..)
      rw [hknown, hkilled]
      exact .killed hid
  | ping =>
    cases h
    rw [← card_known]
    exact .counted
  | shutdown =>
    cases h
    exact .stopping

/-! ## Over the wire -/

/-- A buffer that holds one frame and no more is served once. -/
theorem decodeLoopLog_single {fd : RawFd} {json : List UInt8} (hshort : json.length < 2 ^ 32)
    {client : ClientState} (hclient : σ.clients.lookup fd = some client)
    (hbuf : client.readBuf = encodeMessage json) {envs : List Env}
    (h : decodeLoopLog J fd envs σ ≠ .error .excluded) :
    ∃ env n, σ.admits env = true ∧ decodeLoopLog J fd envs σ =
      (σ.respond J env fd (J.request json)).map fun p =>
        (conclude env fd n p, [⟨J.request json, n, p.2⟩]) := by
  have hframe : nextFrame client.readBuf = some (json, 4 + json.length) := by
    have hwhole := nextFrame_encode hshort []
    rwa [List.append_nil, ← hbuf] at hwhole
  have hdrop : client.readBuf.drop (4 + json.length) = [] := by
    rw [hbuf, ← encodeMessage_length, List.drop_length]
  cases envs with
  | nil => exact absurd (decodeLoopLog_nil hclient hframe) h
  | cons env envs =>
    rw [decodeLoopLog_cons hclient hframe] at h ⊢
    split at h
    · rename_i hadmits
      refine ⟨env, 4 + json.length, hadmits, ?_⟩
      rw [if_pos hadmits]
      cases hp : σ.respond J env fd (J.request json) with
      | error stop => rfl
      | ok p =>
        have hclients := (conclude_clients (respond_unheard hp) hclient env (4 + json.length)).1
        have hempty : nextFrame (client.readBuf.drop (4 + json.length)) = none := by
          rw [hdrop]
          rfl
        have hstuck := decodeLoopLog_stuck (J := J) ((hclients fd).trans (if_pos rfl)) hempty envs
        simp only [Except.bind, hstuck]
        rfl
    · exact absurd rfl h

/-- One frame that comes in pieces is served when it is complete; until then only the buffer
changes. -/
theorem receive_single {fd : RawFd} {json : List UInt8} (hshort : json.length < 2 ^ 32)
    {pieces : List (List UInt8 × List Env)} (hpieces : ∀ p ∈ pieces, p.1 ≠ [])
    {client : ClientState} (hclient : σ.clients.lookup fd = some client)
    (hbuf : nextFrame client.readBuf = none)
    (hbytes : client.readBuf ++ (pieces.map Prod.fst).flatten = encodeMessage json)
    (h : receive J fd pieces σ ≠ .error .excluded) :
    ∃ τ env n, Aside σ τ ∧ τ.sessions = σ.sessions ∧ τ.admits env = true ∧
      receive J fd pieces σ = (τ.respond J env fd (J.request json)).map fun p =>
        (conclude env fd n p, [⟨J.request json, n, p.2⟩]) := by
  induction pieces generalizing σ client with
  | nil =>
    rw [List.map_nil, List.flatten_nil, List.append_nil] at hbytes
    have hframe := nextFrame_encode hshort []
    rw [List.append_nil, ← hbytes, hbuf] at hframe
    cases hframe
  | cons piece pieces ih =>
    obtain ⟨bytes, envs⟩ := piece
    let read := { client with readBuf := client.readBuf ++ bytes }
    have hread : (σ.putClient fd read).clients.lookup fd = some read :=
      (lookup_putClient ..).trans (if_pos rfl)
    have haside : Aside σ (σ.putClient fd read) := .putClient hclient rfl
    have hstream : read.readBuf ++ (pieces.map Prod.fst).flatten = encodeMessage json := by
      rw [← hbytes, List.map_cons, List.flatten_cons, ← List.append_assoc]
    have hpiece : receive J fd ((bytes, envs) :: pieces) σ =
        (decodeLoopLog J fd envs (σ.putClient fd read)).bind fun p =>
          (receive J fd pieces p.1).map fun q => (q.1, p.2 ++ q.2) := by
      rw [receive, handleClientDataLog, hclient]
    cases hframe : nextFrame read.readBuf with
    | none =>
      have hwaits : receive J fd ((bytes, envs) :: pieces) σ =
          receive J fd pieces (σ.putClient fd read) := by
        rw [hpiece, decodeLoopLog_stuck hread hframe envs]
        change (receive J fd pieces (σ.putClient fd read)).map (fun q => (q.1, [] ++ q.2)) = _
        cases receive J fd pieces (σ.putClient fd read) <;> rfl
      rw [hwaits] at h ⊢
      obtain ⟨τ, env, n, hbefore, hsessions, hrest⟩ :=
        ih (fun q hq => hpieces q (List.mem_cons_of_mem _ hq)) hread hframe hstream h
      exact ⟨τ, env, n, haside.trans hbefore, hsessions, hrest⟩
    | some q =>
      -- the frame is complete, so that nothing is left to come
      have hstable := frames.stable (pieces.map Prod.fst).flatten hframe
      have hwhole := nextFrame_encode hshort []
      rw [List.append_nil, ← hstream] at hwhole
      cases hstable.symm.trans hwhole
      have hbound := frames.bound hframe
      have hlength := congrArg List.length hstream
      rw [List.length_append, encodeMessage_length] at hlength
      have hnone : (pieces.map Prod.fst).flatten = [] := by
        rw [← List.length_eq_zero_iff]
        omega
      have hlast : pieces = [] := by
        cases pieces with
        | nil => rfl
        | cons next pieces =>
          rw [List.map_cons, List.flatten_cons, List.append_eq_nil_iff] at hnone
          exact absurd hnone.1 (hpieces next (List.mem_cons_of_mem _ List.mem_cons_self))
      rw [hnone, List.append_nil] at hstream
      subst hlast
      have hserved : receive J fd [(bytes, envs)] σ =
          decodeLoopLog J fd envs (σ.putClient fd read) := by
        rw [hpiece]
        cases decodeLoopLog J fd envs (σ.putClient fd read) with
        | error stop => rfl
        | ok p => exact congrArg Except.ok (Prod.ext rfl (List.append_nil p.2))
      rw [hserved] at h ⊢
      obtain ⟨env, n, hadmits, hend⟩ := decodeLoopLog_single hshort hread hstream h
      exact ⟨_, env, n, haside, rfl, hadmits, hend⟩

/-- What is done with the response to a command leaves the table as it is. -/
theorem conclude_known {fd : RawFd} {n : Nat} {p : Server × Response}
    (hnot : ∀ i cols rows pid shm snap, p.2 ≠ .attachReady i cols rows pid shm snap) :
    (conclude env fd n p).known = p.1.known := by
  rw [conclude, passOn_eq hnot]
  exact known_of_sessions (answer_sessions ..)

/-- A snapshot is all that reaches the client as something else, and a command gets none. -/
theorem sent_eq {response : Response}
    (hnot : ∀ i cols rows pid shm snap, response ≠ .attachReady i cols rows pid shm snap)
    (S : Snapshots) : response.sent S = response := by
  cases response with
  | attachReady sessionId cols rows childPid shmName snapshot =>
    exact absurd rfl (hnot sessionId cols rows childPid shmName snapshot)
  | _ => rfl

/-- A ring that cannot be made ends the daemon; every other command is answered. -/
theorem handleRequest_stops {fd : RawFd} {c : Subcommand} {stop : Stop}
    (h : σ.handleRequest J env fd c.request = .error stop) :
    ∃ shell workingDir reason, c = .create shell workingDir ∧
      stop = .panics ("failed to create shared ring buffer " ++ shmNameForSession env.uuid ++
        ": " ++ reason) := by
  cases c with
  | create shell workingDir =>
    simp only [Subcommand.request, handleRequest, handleCreate] at h
    split at h
    · cases h
    · split at h
      · cases h
        exact ⟨shell, workingDir, _, rfl, rfl⟩
      · cases h
        exact ⟨shell, workingDir, _, rfl, rfl⟩
      · cases h
  | _ => cases h

variable {T : Serde} {C : ClientTexts}

/-- However the frame of the response is cut into reads. -/
theorem run_told (socketPath : String) (c : Subcommand) {response : Response}
    (hreturns : T.ReturnsBack response) (hshort : (T.response response).length < 2 ^ 32)
    {replies : List (List UInt8)} (hreplies : ∀ r ∈ replies, r ≠ []) (more : List UInt8)
    (hstream : replies.flatten = encodeMessage (T.response response) ++ more)
    (reads : List StreamRead) :
    c.run T C socketPath ⟨none, none, replies.map .ok ++ reads⟩ =
      some (.sent c.request :: (c.report C (response.sent T.snapshots)).1,
        (c.report C (response.sent T.snapshots)).2) := by
  have hnil : nextFrame [] = none := rfl
  obtain ⟨_, _, unread, _, _, _, hread⟩ := readResponse_pieces T hreplies hnil
    (hstream ▸ nextFrame_encode hshort more) reads
  rw [hreturns] at hread
  simp only [Subcommand.run, hread, Option.map_some]

/-- The daemon is gone before the response is complete. -/
theorem run_closed (socketPath : String) (c : Subcommand) {response : Response}
    (hshort : (T.response response).length < 2 ^ 32) {replies : List (List UInt8)}
    (hreplies : ∀ r ∈ replies, r ≠ []) {rest : List UInt8} (hrest : rest ≠ [])
    (hstream : replies.flatten ++ rest = encodeMessage (T.response response))
    (reads : List StreamRead) :
    c.run T C socketPath ⟨none, none, replies.map .ok ++ .ok [] :: reads⟩ =
      some ([.sent c.request], .failed "daemon closed connection") := by
  have hwaits := @readResponse_waits T [] replies hreplies (nextFrame_part hshort hstream hrest)
    (.ok [] :: reads)
  rw [Subcommand.run]
  dsimp only
  rw [hwaits, readResponse]
  rfl

/-- A command and the daemon over one connection, with the request and the response cut into reads
in any way: the daemon serves the request once, and what the command prints, how it ends and what
becomes of the table is what the user may rely on; where the daemon goes before the response is
complete the command fails. The daemon goes at once where it cannot make the ring of a new session;
then nothing has been answered. -/
theorem command_does (hreads : C.ReadsIds σ.known) (base64 : String → Except String (List UInt8))
    (h : (occurrences (T.codec base64)).Reachable σ) {fd : RawFd} {client : ClientState}
    (hclient : σ.clients.lookup fd = some client) (hempty : client.readBuf = []) (c : Subcommand)
    (hread : T.ReadsBack c.request) (hshort : (T.request c.request).length < 2 ^ 32)
    {pieces : List (List UInt8 × List Env)} (hpieces : ∀ p ∈ pieces, p.1 ≠ [])
    (hbytes : (pieces.map Prod.fst).flatten = encodeMessage (T.request c.request))
    (hpossible : receive (T.codec base64) fd pieces σ ≠ .error .excluded) :
    (∃ σ' log response result,
      receive (T.codec base64) fd pieces σ = .ok (σ', log) ∧
      log.map Exchange.response = [response] ∧ c.Does C σ.known σ'.known result ∧
      ∀ (socketPath : String) (args : List String) (a : MainAnswers)
        (replies : List (List UInt8)) (reads : List StreamRead),
        Invokes C a.workingDir args c → (∀ r ∈ replies, r ≠ []) →
        (T.response response).length < 2 ^ 32 →
        (∀ more, T.ReturnsBack response → a.command = ⟨none, none, replies.map .ok ++ reads⟩ →
          replies.flatten = encodeMessage (T.response response) ++ more →
          main T C socketPath args a = some (finish (.sent c.request :: result.1, result.2))) ∧
        (∀ rest, rest ≠ [] → a.command = ⟨none, none, replies.map .ok ++ .ok [] :: reads⟩ →
          replies.flatten ++ rest = encodeMessage (T.response response) →
          main T C socketPath args a =
            some ([.sent c.request, .stderr "error: daemon closed connection\n"], 1))) ∨
    ∃ shell workingDir text, c = .create shell workingDir ∧
      receive (T.codec base64) fd pieces σ =
        .error (.panics ("failed to create shared ring buffer " ++ text)) ∧
      ∀ (socketPath : String) (args : List String) (a : MainAnswers) (reads : List StreamRead),
        Invokes C a.workingDir args c → a.command = ⟨none, none, .ok [] :: reads⟩ →
        main T C socketPath args a =
          some ([.sent c.request, .stderr "error: daemon closed connection\n"], 1) := by
  have hbuf : nextFrame client.readBuf = none := by
    rw [hempty]
    rfl
  have hstream : client.readBuf ++ (pieces.map Prod.fst).flatten =
      encodeMessage (T.request c.request) := by
    rw [hempty, List.nil_append, hbytes]
  obtain ⟨τ, env, n, haside, hsessions, hadmits, hserved⟩ :=
    receive_single hshort hpieces hclient hbuf hstream hpossible
  have hdecoded : (T.codec base64).request (T.request c.request) = .ok c.request := hread
  rw [hdecoded] at hserved
  cases hp : τ.respond (T.codec base64) env fd (.ok c.request) with
  | error stop =>
    rw [hp] at hserved
    obtain ⟨shell, workingDir, reason, rfl, rfl⟩ := handleRequest_stops hp
    refine .inr ⟨shell, workingDir, shmNameForSession env.uuid ++ ": " ++ reason, rfl, ?_, ?_⟩
    · rw [hserved, String.append_assoc, String.append_assoc, String.append_assoc]
      rfl
    · intro socketPath args a reads hargs ha
      rw [main_invokes hargs, ha]
      rfl
  | ok p =>
    rw [hp] at hserved
    have hdoes := handleRequest_does (known_of_sessions hsessions ▸ hreads)
      ((occurrences_inv h).aside haside) hadmits c hp
    have hnot : ∀ i cols rows pid shm snap, p.2 ≠ .attachReady i cols rows pid shm snap := by
      intro i cols rows pid shm snap hready
      obtain ⟨id, hid⟩ := handleRequest_attachReady hp hready
      cases c <;> cases hid
    rw [known_of_sessions hsessions] at hdoes
    refine .inl ⟨_, _, p.2, c.report C p.2, hserved, rfl, ?_, ?_⟩
    · rw [conclude_known hnot]
      exact hdoes
    · intro socketPath args a replies reads hargs hreplies hshort
      refine ⟨?_, ?_⟩
      · intro more hreturns ha hstream
        rw [main_invokes hargs, ha,
          run_told socketPath c hreturns hshort hreplies more hstream reads, sent_eq hnot]
        rfl
      · intro rest hrest ha hstream
        rw [main_invokes hargs, ha, run_closed socketPath c hshort hreplies hrest hstream reads]
        rfl

private def listText : List UInt8 := "\x7b\"type\":\"List\"\x7d".toByteArray.data.toList

private def listTexts : Serde where
  snapshots := sampleTexts.snapshots
  request _ := listText
  pushAck := sampleTexts.pushAck
  push := sampleTexts.push
  response := sampleTexts.response
  readRequest bytes := if bytes = listText then .ok .list else .error "unknown variant"
  readPushAck := sampleTexts.readPushAck
  readResponse := sampleTexts.readResponse

private def idSeven : ClientTexts where
  parse text := if text = Uuid.toText 7 then some 7 else none
  debug _ := "ShuttingDown"

private def listPieces : List (List UInt8 × List Env) :=
  [((encodeMessage listText).take 3, []), ((encodeMessage listText).drop 3, [calmLater])]

/-- A client has created session 7, and lists the sessions by a request that comes in two pieces. -/
theorem command_does_list :
    ∃ σ σ' : Server, ∃ log result, σ.known = {7} ∧
      receive (listTexts.codec fun _ => .error "") 5 listPieces σ = .ok (σ', log) ∧
      Subcommand.list.Does idSeven {7} σ'.known result := by
  let J := listTexts.codec fun _ => .error ""
  let run : List Occurrence := [.event (.accept 5),
    .event (.request 5 (.ok (.create none 80 24 none none none)) 0 calm)]
  have hrun : ((occurrences J).exec (Server.new 3 none 0) run).map (fun σ =>
      (σ.known, σ.clients.lookup 5, (receive J 5 listPieces σ).toOption.isSome)) =
      some ({7}, some ⟨0, []⟩, true) := by decide +kernel
  obtain ⟨σ, hexec, hfacts⟩ := Option.map_eq_some_iff.mp hrun
  obtain ⟨hknown, hfacts⟩ := Prod.mk.inj hfacts
  obtain ⟨hclient, hserves⟩ := Prod.mk.inj hfacts
  obtain ⟨⟨σ', log⟩, hserved⟩ := Option.isSome_iff_exists.mp hserves
  have hserved := ok_of_toOption hserved
  have hstart : (occurrences J).Reachable (Server.new 3 none 0) := .start ⟨3, none, 0, rfl⟩
  have hreach := hstart.exec hexec
  have hreads : idSeven.ReadsIds σ.known := by
    rw [hknown]
    intro id hid
    rw [Finset.mem_singleton.mp hid]
    change (if Uuid.toText 7 = Uuid.toText 7 then some (7 : Uuid) else none) = some 7
    rw [if_pos rfl]
  have hread : listTexts.ReadsBack Subcommand.list.request := by
    simp only [Serde.ReadsBack, listTexts, if_true]
    rfl
  have hpieces : ∀ p ∈ listPieces, p.1 ≠ [] := by decide +kernel
  have hbytes : (listPieces.map Prod.fst).flatten = encodeMessage listText := by
    simp [listPieces]
  have hshort : listText.length < 2 ^ 32 := by decide +kernel
  have hpossible : receive J 5 listPieces σ ≠ .error .excluded := by
    rw [hserved]
    exact fun h => by cases h
  rcases command_does hreads (fun _ => .error "") hreach hclient rfl .list hread hshort hpieces
    hbytes hpossible with ⟨τ, _, _, result, hτ, _, hdoes, _⟩ | ⟨_, _, _, hcreate, _⟩
  · cases hserved.symm.trans hτ
    rw [hknown] at hdoes
    exact ⟨σ, σ', log, result, hknown, hserved, hdoes⟩
  · cases hcreate

end Server

end PtyDaemon
