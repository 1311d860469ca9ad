import PtyDaemon.Clients.Replies
import PtyDaemon.SharedRing.Mappings

/-!
# The command line client of an attachment

`cmd_attach` asks for the session, replays what its ring holds and goes into the loop of
`run_interactive`, which copies the terminal to the PTY and the PTY to the terminal and the ring,
until it is told to detach, an end comes or `poll` fails. What the terminal has been shown and what
the ring holds afterwards belong together.
-/

namespace PtyDaemon

/-- What the subcommands have from elsewhere: `parse` of a `Uuid` and the `Debug` of a response. -/
structure ClientTexts where
  parse : String → Option Uuid
  debug : Response → String

/-- What a `write` that returns `result` has taken; below zero it is an error. -/
def taken (result : Int) (block : List UInt8) : List UInt8 := block.take result.toNat

/-- A call of the client that others notice. -/
inductive CliAct
  /-- `println!` or `write_all` -/
  | stdout (bytes : List UInt8)
  | stderr (text : String)
  /-- one `write` to the terminal -/
  | display (block : List UInt8) (result : Int)
  /-- one `write` to the PTY -/
  | toPty (block : List UInt8) (result : Int)
  | toRing (block : List UInt8)
  /-- `send_request`, however it ends -/
  | sent (request : Request)
  | rawMode
  | restored
  | closed (fd : RawFd)
  deriving DecidableEq

/-- What one pass of the loop is told. A source that is readable is read, and no bytes are an end or
an error; the reply to a `Detach` is waited for and not looked at. -/
structure Pass where
  pollFailed : Bool
  stdin : Option (List UInt8)
  /-- what `write` to the PTY returns -/
  ptyTakes : Int
  pty : Option (List UInt8)
  /-- what `write` to the terminal returns -/
  terminalTakes : Int
  /-- `POLLHUP` or `POLLERR` on the PTY -/
  hangUp : Bool

/-- Ctrl and a closing bracket. -/
def detachKey : UInt8 := 0x1d

namespace Pass

/-- From the terminal to the PTY; whether the loop goes on. -/
def fromStdin (sessionId : Uuid) (p : Pass) : List CliAct × Bool :=
  match p.stdin with
  | none => ([], true)
  | some [] => ([], false)
  | some typed =>
    if typed.contains detachKey then
      ([.stderr ("\r\n[detached from " ++ sessionId.toText ++ "]\n"),
        .sent (.detach sessionId 80 24 none)], false)
    else ([.toPty typed p.ptyTakes], true)

/-- From the PTY to the terminal and the ring. -/
def fromPty (p : Pass) : List CliAct × Bool :=
  match p.pty with
  | none => ([], true)
  | some [] => ([], false)
  | some data => ([.display data p.terminalTakes, .toRing data], true)

def run (sessionId : Uuid) (p : Pass) : List CliAct × Bool :=
  if p.pollFailed then ([], false)
  else
    let (acts, typing) := p.fromStdin sessionId
    let (acts', showing) := p.fromPty
    (acts ++ acts', typing && showing && !p.hangUp)

end Pass

/-- The loop; `none`: the passes are over and it goes on. -/
def interactiveLoop (sessionId : Uuid) : List Pass → Option (List CliAct)
  | [] => none
  | p :: passes =>
    let (acts, goesOn) := p.run sessionId
    if goesOn then (interactiveLoop sessionId passes).map (acts ++ ·) else some acts

def runInteractive (masterFd : RawFd) (sessionId : Uuid) (passes : List Pass) :
    Option (List CliAct) :=
  (interactiveLoop sessionId passes).map fun acts =>
    .rawMode :: acts ++ [.restored, .closed masterFd]

/-- How a command ends. -/
inductive Outcome
  | done
  | failed (message : String)
  | exit (code : Nat)
  deriving DecidableEq

/-- What `cmd_attach` is told on its way. -/
structure AttachAnswers where
  connectError : Option String
  reply : Except String Response
  recvFd : Except String RawFd
  /-- opening the ring, and what its dump is -/
  ring : Except String (List UInt8)
  stdoutError : Option String
  passes : List Pass

/-- The two lines between the replay and the loop. -/
def attachedNotice (sessionId : Uuid) (masterFd : RawFd) (childPid : Pid) (cols rows : UInt16)
    (shmName : String) : List UInt8 :=
  ("attached to " ++ sessionId.toText ++ "\n  master_fd=" ++ toString masterFd ++ " child_pid=" ++
    toString childPid ++ " size=" ++ toString cols.toNat ++ "x" ++ toString rows.toNat ++ " shm=" ++
    shmName ++ "\n").toByteArray.data.toList

def unexpectedResponse (C : ClientTexts) (response : Response) : CliAct :=
  .stderr ("unexpected response: " ++ C.debug response ++ "\n")

/-- `cmd_attach`; `none`: it is in its loop. -/
def cmdAttach (C : ClientTexts) (socketPath : String) (args : List String) (a : AttachAnswers) :
    Option (List CliAct × Outcome) :=
  match args with
  | [] => some ([.stderr "usage: pty-daemon attach <session-id>\n"], .exit 1)
  | arg :: _ =>
    match C.parse arg with
    | none => some ([], .failed "invalid uuid")
    | some id =>
      match a.connectError with
      | some e =>
        some ([], .failed ("cannot connect to daemon at " ++ socketPath ++ ": " ++ e ++
          "\nIs the daemon running?"))
      | none =>
        let asked := [CliAct.sent (.attach id)]
        match a.reply with
        | .error e => some (asked, .failed e)
        | .ok (.attachReady sessionId cols rows childPid shmName _) =>
          match a.recvFd, a.ring with
          | .error e, _ => some (asked, .failed e)
          | .ok _, .error e =>
            some (asked, .failed ("failed to open shared ring " ++ shmName ++ ": " ++ e))
          | .ok masterFd, .ok ringData =>
            let replay := if ringData.isEmpty then [] else [CliAct.stdout ringData]
            match (if ringData.isEmpty then none else a.stdoutError) with
            | some e => some (asked, .failed e)
            | none =>
              (runInteractive masterFd id a.passes).map fun acts =>
                (asked ++ replay ++
                  [.stdout (attachedNotice sessionId masterFd childPid cols rows shmName)] ++ acts,
                  .done)
        | .ok (.attachDeny _ reason) =>
          some (asked ++ [.stderr ("attach denied: " ++ reason ++ "\n")], .exit 1)
        | .ok (.error message) => some (asked ++ [.stderr ("error: " ++ message ++ "\n")], .exit 1)
        | .ok response => some (asked ++ [unexpectedResponse C response], .done)

/-! ## What a command has done -/

/-- What the terminal has been given. -/
def shown (acts : List CliAct) : List UInt8 :=
  acts.flatMap fun
    | .stdout bytes => bytes
    | .display block result => taken result block
    | _ => []

def written (acts : List CliAct) : List (List UInt8) :=
  acts.filterMap fun
    | .toRing block => some block
    | _ => none

/-- What the PTY has taken. -/
def typed (acts : List CliAct) : List (List UInt8) :=
  acts.filterMap fun
    | .toPty block result => some (taken result block)
    | _ => none

def requested (acts : List CliAct) : List Request :=
  acts.filterMap fun
    | .sent request => some request
    | _ => none

/-- The terminal is put back, or a descriptor closed. -/
def CliAct.ends : CliAct → Bool
  | .restored => true
  | .closed _ => true
  | _ => false

def closings (acts : List CliAct) : List CliAct := acts.filter CliAct.ends

@[simp] theorem shown_append (acts acts' : List CliAct) :
    shown (acts ++ acts') = shown acts ++ shown acts' := List.flatMap_append

@[simp] theorem written_append (acts acts' : List CliAct) :
    written (acts ++ acts') = written acts ++ written acts' := List.filterMap_append

@[simp] theorem typed_append (acts acts' : List CliAct) :
    typed (acts ++ acts') = typed acts ++ typed acts' := List.filterMap_append

@[simp] theorem requested_append (acts acts' : List CliAct) :
    requested (acts ++ acts') = requested acts ++ requested acts' := List.filterMap_append

@[simp] theorem closings_append (acts acts' : List CliAct) :
    closings (acts ++ acts') = closings acts ++ closings acts' := List.filter_append _ _

namespace Pass

/-- What the pass has read from the PTY. -/
def received (p : Pass) : List (List UInt8) :=
  match p.pollFailed, p.pty with
  | false, some (b :: bytes) => [b :: bytes]
  | _, _ => []

/-- What the pass has read from the terminal. -/
def keys (p : Pass) : List (List UInt8) :=
  match p.pollFailed, p.stdin with
  | false, some (b :: bytes) => [b :: bytes]
  | _, _ => []

/-- The pass is told to detach. -/
def detaches (p : Pass) : Bool := p.keys.any fun chunk => chunk.contains detachKey

/-- What was typed, unless it is to detach. -/
def forPty (p : Pass) : List (List UInt8) := if p.detaches then [] else p.keys

/-- What the terminal has taken of what was read. -/
def displayed (p : Pass) : List UInt8 := p.received.flatMap (taken p.terminalTakes)

/-- What the PTY has taken of what was typed. -/
def passedOn (p : Pass) : List (List UInt8) := p.forPty.map (taken p.ptyTakes)

/-- The terminal has taken all that was read. -/
def ShowsAll (p : Pass) : Prop := ∀ block ∈ p.received, block.length ≤ p.terminalTakes.toNat

/-- The PTY has taken all that was typed. -/
def PassesAll (p : Pass) : Prop := ∀ block ∈ p.forPty, block.length ≤ p.ptyTakes.toNat

/-- `poll` fails, a source has come to an end, the key is typed, or the PTY hangs up. -/
def Over (p : Pass) : Prop :=
  p.pollFailed = true ∨ p.stdin = some [] ∨ p.pty = some [] ∨ p.detaches = true ∨ p.hangUp = true

private theorem fromPty_acts {p : Pass} (h : p.pollFailed = false) :
    shown p.fromPty.1 = p.displayed ∧ written p.fromPty.1 = p.received ∧
      typed p.fromPty.1 = [] ∧ requested p.fromPty.1 = [] ∧ closings p.fromPty.1 = [] ∧
      (p.fromPty.2 = false ↔ p.pty = some []) := by
  obtain ⟨pollFailed, stdin, ptyTakes, pty, terminalTakes, hangUp⟩ := p
  subst h
  rcases pty with _ | _ | ⟨b, bytes⟩
  · exact ⟨rfl, rfl, rfl, rfl, rfl, by simp [fromPty]⟩
  · exact ⟨rfl, rfl, rfl, rfl, rfl, by simp [fromPty]⟩
  · exact ⟨rfl, rfl, rfl, rfl, rfl, by simp [fromPty]⟩

private theorem fromStdin_acts (sessionId : Uuid) {p : Pass} (h : p.pollFailed = false) :
    shown (p.fromStdin sessionId).1 = [] ∧ written (p.fromStdin sessionId).1 = [] ∧
      typed (p.fromStdin sessionId).1 = p.passedOn ∧
      requested (p.fromStdin sessionId).1 =
        (if p.detaches then [.detach sessionId 80 24 none] else []) ∧
      closings (p.fromStdin sessionId).1 = [] ∧
      ((p.fromStdin sessionId).2 = false ↔ p.stdin = some [] ∨ p.detaches = true) := by
  obtain ⟨pollFailed, stdin, ptyTakes, pty, terminalTakes, hangUp⟩ := p
  subst h
  rcases stdin with _ | _ | ⟨b, bytes⟩
  · exact ⟨rfl, rfl, rfl, rfl, rfl, by simp [fromStdin, detaches, keys]⟩
  · exact ⟨rfl, rfl, rfl, rfl, rfl, by simp [fromStdin]⟩
  · have hdetaches : detaches ⟨false, some (b :: bytes), ptyTakes, pty, terminalTakes, hangUp⟩ =
        (b :: bytes).contains detachKey := Bool.or_false _
    rw [passedOn, forPty, hdetaches, fromStdin]
    dsimp only
    cases (b :: bytes).contains detachKey with
    | true => exact ⟨rfl, rfl, rfl, rfl, rfl, by simp⟩
    | false => exact ⟨rfl, rfl, rfl, rfl, rfl, by simp⟩

/-- A pass writes to the ring what it has received, shows what the terminal takes of it, and passes
on what the PTY takes of what was typed, if that is not to detach. -/
theorem run_acts (sessionId : Uuid) (p : Pass) :
    shown (p.run sessionId).1 = p.displayed ∧ written (p.run sessionId).1 = p.received ∧
      typed (p.run sessionId).1 = p.passedOn ∧
      requested (p.run sessionId).1 =
        (if p.detaches then [.detach sessionId 80 24 none] else []) ∧
      closings (p.run sessionId).1 = [] ∧ ((p.run sessionId).2 = false ↔ p.Over) := by
  cases hpoll : p.pollFailed with
  | true =>
    simp [run, received, displayed, keys, forPty, passedOn, detaches, Over, shown, written, typed,
      requested, closings, hpoll]
  | false =>
    obtain ⟨hshown, hwritten, htyped, hrequested, hclosings, hshowing⟩ := fromPty_acts hpoll
    obtain ⟨hshown', hwritten', htyped', hrequested', hclosings', htyping⟩ :=
      fromStdin_acts sessionId hpoll
    have hrun : p.run sessionId = ((p.fromStdin sessionId).1 ++ p.fromPty.1,
        (p.fromStdin sessionId).2 && p.fromPty.2 && !p.hangUp) := by
      rw [run, hpoll]
      rfl
    rw [hrun]
    simp only [shown_append, written_append, typed_append, requested_append, closings_append,
      hshown, hwritten, htyped, hrequested, hclosings, hshown', hwritten', htyped', hrequested',
      hclosings', List.nil_append, List.append_nil, true_and]
    rw [Bool.and_eq_false_iff, Bool.and_eq_false_iff, htyping, hshowing, Over, hpoll]
    simp only [Bool.false_eq_true, false_or, Bool.not_eq_false']
    tauto

end Pass

/-! ## The loop -/

variable {sessionId : Uuid} {masterFd : RawFd} {passes : List Pass} {acts : List CliAct}

/-- The loop has made the passes up to the first that ends it. -/
theorem interactiveLoop_passes (h : interactiveLoop sessionId passes = some acts) :
    ∃ before last after, passes = before ++ last :: after ∧
      (∀ p ∈ before, ¬p.Over) ∧ last.Over ∧
      acts = (before ++ [last]).flatMap fun p => (p.run sessionId).1 := by
  induction passes generalizing acts with
  | nil => cases h
  | cons p passes ih =>
    rw [interactiveLoop] at h
    have hover := (p.run_acts sessionId).2.2.2.2.2
    cases hgoes : (p.run sessionId).2 with
    | true =>
      simp only [hgoes, if_true] at h
      obtain ⟨later, hlater, rfl⟩ := Option.map_eq_some_iff.mp h
      obtain ⟨before, last, after, rfl, hbefore, hlast, rfl⟩ := ih hlater
      have hp : ¬p.Over := by
        rw [← hover, hgoes]
        decide
      exact ⟨p :: before, last, after, rfl, List.forall_mem_cons.mpr ⟨hp, hbefore⟩, hlast, rfl⟩
    | false =>
      simp only [hgoes, Bool.false_eq_true, if_false] at h
      cases h
      refine ⟨[], p, passes, rfl, List.forall_mem_nil _, hover.mp hgoes, ?_⟩
      rw [List.nil_append, List.flatMap_singleton]

private theorem flatMap_acts {β : Type} {f : List CliAct → List β}
    (happend : ∀ acts acts', f (acts ++ acts') = f acts ++ f acts') (hnil : f [] = [])
    {g : Pass → List β} (hg : ∀ p : Pass, f (p.run sessionId).1 = g p) (passes : List Pass) :
    f (passes.flatMap fun p => (p.run sessionId).1) = passes.flatMap g := by
  induction passes with
  | nil => exact hnil
  | cons p passes ih => rw [List.flatMap_cons, happend, hg, ih, List.flatMap_cons]

/-- What is written to the ring, what the terminal takes of it, and when the loop is over. -/
theorem runInteractive_reads (h : runInteractive masterFd sessionId passes = some acts) :
    ∃ before last after body, passes = before ++ last :: after ∧
      (∀ p ∈ before, ¬p.Over) ∧ last.Over ∧
      acts = .rawMode :: body ++ [.restored, .closed masterFd] ∧
      body = ((before ++ [last]).flatMap fun p => (p.run sessionId).1) ∧
      written acts = (before ++ [last]).flatMap Pass.received ∧
      shown acts = (before ++ [last]).flatMap Pass.displayed := by
  obtain ⟨body, hbody, rfl⟩ := Option.map_eq_some_iff.mp h
  obtain ⟨before, last, after, hpasses, hbefore, hlast, hacts⟩ := interactiveLoop_passes hbody
  have hwritten : written body = (before ++ [last]).flatMap Pass.received := by
    rw [hacts]
    exact flatMap_acts written_append rfl (fun p => (p.run_acts sessionId).2.1) _
  have hshown : shown body = (before ++ [last]).flatMap Pass.displayed := by
    rw [hacts]
    exact flatMap_acts shown_append rfl (fun p => (p.run_acts sessionId).1) _
  have hframe : .rawMode :: body ++ [.restored, .closed masterFd] =
      [.rawMode] ++ body ++ [.restored, .closed masterFd] := rfl
  refine ⟨before, last, after, body, hpasses, hbefore, hlast, rfl, hacts, ?_, ?_⟩
  · rw [hframe, written_append, written_append, hwritten]
    exact List.append_nil _
  · rw [hframe, shown_append, shown_append, hshown]
    exact List.append_nil _

private theorem length_flatMap_le {α β : Type} {f g : α → List β}
    (hle : ∀ a, (f a).length ≤ (g a).length) (l : List α) :
    (l.flatMap f).length ≤ (l.flatMap g).length := by
  induction l with
  | nil => exact Nat.le_refl _
  | cons a l ih =>
    rw [List.flatMap_cons, List.flatMap_cons, List.length_append, List.length_append]
    exact Nat.add_le_add (hle a) ih

/-- Parts that make up the whole are whole each. -/
theorem flatMap_eq_iff {α β : Type} {f g : α → List β} (hle : ∀ a, (f a).length ≤ (g a).length)
    (l : List α) : l.flatMap f = l.flatMap g ↔ ∀ a ∈ l, f a = g a := by
  induction l with
  | nil => simp
  | cons a l ih =>
    rw [List.flatMap_cons, List.flatMap_cons, List.forall_mem_cons]
    constructor
    · intro h
      have hsum := congrArg List.length h
      rw [List.length_append, List.length_append] at hsum
      have hhead := hle a
      have htail := length_flatMap_le hle l
      obtain ⟨ha, hl⟩ := List.append_inj h (by omega)
      exact ⟨ha, ih.mp hl⟩
    · rintro ⟨ha, hl⟩
      rw [ha, ih.mpr hl]

private theorem taken_eq_iff {result : Int} {block : List UInt8} :
    taken result block = block ↔ block.length ≤ result.toNat := List.take_eq_self_iff _

private theorem length_taken_le (result : Int) (block : List UInt8) :
    (taken result block).length ≤ block.length := List.length_take_le' _ _

private theorem Pass.displayed_eq_iff (p : Pass) :
    p.displayed = p.received.flatten ↔ p.ShowsAll := by
  have hwhole : p.received.flatten = p.received.flatMap id := List.flatMap_id.symm
  rw [displayed, hwhole, flatMap_eq_iff (g := id) (length_taken_le p.terminalTakes)]
  exact forall₂_congr fun block _ => taken_eq_iff

private theorem Pass.passedOn_eq_iff (p : Pass) : p.passedOn = p.forPty ↔ p.PassesAll := by
  have hmap : p.passedOn = p.forPty ↔ p.forPty.map (taken p.ptyTakes) = p.forPty.map id := by
    rw [List.map_id, passedOn]
  rw [hmap, List.map_inj_left]
  exact forall₂_congr fun block _ => taken_eq_iff

/-- Until it is told to detach or an end comes, the loop writes to the ring all it reads from the
PTY, each block once, and gives each block to the terminal and every block that is typed to the PTY
in one `write`; what these do not take is lost. The block with the key is not passed on, and asks for
one detachment, in the last pass. The terminal is restored and the PTY closed once, at the end. -/
theorem runInteractive_copies (h : runInteractive masterFd sessionId passes = some acts) :
    ∃ before last after, passes = before ++ last :: after ∧
      (∀ p ∈ before, ¬p.Over) ∧ last.Over ∧
      written acts = (before ++ [last]).flatMap Pass.received ∧
      shown acts = (before ++ [last]).flatMap Pass.displayed ∧
      (shown acts = (written acts).flatten ↔ ∀ p ∈ before ++ [last], p.ShowsAll) ∧
      typed acts = (before ++ [last]).flatMap Pass.passedOn ∧
      (typed acts = (before ++ [last]).flatMap Pass.forPty ↔
        ∀ p ∈ before ++ [last], p.PassesAll) ∧
      requested acts = (if last.detaches then [.detach sessionId 80 24 none] else []) ∧
      closings acts = [.restored, .closed masterFd] ∧
      ∃ body, acts = .rawMode :: body ++ [.restored, .closed masterFd] := by
  obtain ⟨before, last, after, body, hpasses, hbefore, hlast, rfl, hacts, hwritten, hshown⟩ :=
    runInteractive_reads h
  have htyped : typed body = (before ++ [last]).flatMap Pass.passedOn := by
    rw [hacts]
    exact flatMap_acts typed_append rfl (fun p => (p.run_acts sessionId).2.2.1) _
  have hrequested : requested body = (before ++ [last]).flatMap fun p =>
      if p.detaches then [.detach sessionId 80 24 none] else [] := by
    rw [hacts]
    exact flatMap_acts requested_append rfl (fun p => (p.run_acts sessionId).2.2.2.1) _
  have hclosings : closings body = [] := by
    rw [hacts, flatMap_acts closings_append rfl (fun p => (p.run_acts sessionId).2.2.2.2.1),
      List.flatMap_eq_nil_iff]
    exact fun _ _ => rfl
  have hframe : .rawMode :: body ++ [.restored, .closed masterFd] =
      [.rawMode] ++ body ++ [.restored, .closed masterFd] := rfl
  have htaken : typed (.rawMode :: body ++ [.restored, .closed masterFd]) =
      (before ++ [last]).flatMap Pass.passedOn := by
    rw [hframe, typed_append, typed_append, htyped]
    exact List.append_nil _
  have hno : (before.flatMap fun p => if p.detaches then
      [Request.detach sessionId 80 24 none] else []) = [] := by
    rw [List.flatMap_eq_nil_iff]
    intro p hp
    have hkept : p.detaches ≠ true := fun hdetaches =>
      hbefore p hp (.inr (.inr (.inr (.inl hdetaches))))
    exact if_neg hkept
  refine ⟨before, last, after, hpasses, hbefore, hlast, hwritten, hshown, ?_, htaken, ?_, ?_, ?_,
    body, rfl⟩
  · have hle : ∀ p : Pass, p.displayed.length ≤ p.received.flatten.length := by
      intro p
      rw [← List.flatMap_id]
      exact length_flatMap_le (length_taken_le p.terminalTakes) _
    have hwhole : ((before ++ [last]).flatMap Pass.received).flatten =
        (before ++ [last]).flatMap fun p => p.received.flatten := by
      rw [List.flatMap_def, List.flatMap_def, List.flatten_flatten, List.map_map]
      rfl
    rw [hwritten, hshown, hwhole, flatMap_eq_iff hle]
    exact forall₂_congr fun p _ => p.displayed_eq_iff
  · have hle : ∀ p : Pass, p.passedOn.length ≤ p.forPty.length := fun p =>
      (List.length_map _).le
    rw [htaken, flatMap_eq_iff hle]
    exact forall₂_congr fun p _ => p.passedOn_eq_iff
  · rw [hframe, requested_append, requested_append, hrequested, List.flatMap_append, hno,
      List.flatMap_singleton]
    exact List.append_nil _
  · rw [hframe, closings_append, closings_append, hclosings]
    rfl

/-- A session is typed into, and answers; the terminal takes one byte of the answer; then the key
comes together with other input. -/
private def detachingPasses : List Pass :=
  [⟨false, some [0x6c, 0x73], 2, none, 0, false⟩, ⟨false, none, 0, some [1, 2], 1, false⟩,
    ⟨false, some [0x71, 0x1d], 0, some [3], 1, false⟩, ⟨false, some [4], 1, none, 0, false⟩]

theorem runInteractive_copies_detach :
    ∃ acts, runInteractive 5 7 detachingPasses = some acts ∧ shown acts ≠ (written acts).flatten ∧
      closings acts = [.restored, .closed 5] ∧ written acts = [[1, 2], [3]] ∧
      shown acts = [1, 3] ∧ typed acts = [[0x6c, 0x73]] ∧
      requested acts = [.detach 7 80 24 none] := by
  obtain ⟨acts, hacts⟩ : ∃ acts, runInteractive 5 7 detachingPasses = some acts := ⟨_, rfl⟩
  obtain ⟨_, _, _, _, _, _, _, _, _, _, _, _, hclosings, _⟩ := runInteractive_copies hacts
  refine ⟨acts, hacts, ?_, hclosings, ?_⟩
  · cases hacts
    decide
  · cases hacts
    decide

/-! ## The replay and the ring -/

private theorem shown_stdout (bytes : List UInt8) :
    shown [.stdout bytes] = bytes := List.append_nil bytes

private theorem shown_replay (data : List UInt8) :
    shown (if data.isEmpty then [] else [.stdout data]) = data := by
  cases data with
  | nil => rfl
  | cons b bytes => exact shown_stdout (b :: bytes)

private theorem written_replay (data : List UInt8) :
    written (if data.isEmpty then [] else [.stdout data]) = [] := by
  cases data <;> rfl

/-- Where the session is attached and the command comes back, it has been in its loop. -/
theorem cmdAttach_done {C : ClientTexts} {socketPath : String} {args : List String} {a : AttachAnswers}
    {cols rows : UInt16} {childPid : Pid} {shmName : String} {snapshot : Option AttachSnapshot}
    {data : List UInt8} {acts : List CliAct}
    (hready : a.reply = .ok (.attachReady sessionId cols rows childPid shmName snapshot))
    (hring : a.ring = .ok data) (h : cmdAttach C socketPath args a = some (acts, .done)) :
    ∃ id masterFd loop, a.recvFd = .ok masterFd ∧
      runInteractive masterFd id a.passes = some loop ∧
      shown acts =
        data ++ attachedNotice sessionId masterFd childPid cols rows shmName ++ shown loop ∧
      written acts = written loop := by
  unfold cmdAttach at h
  split at h
  · cases h
  split at h
  · cases h
  · rename_i id _
    split at h
    · cases h
    · simp only [hready, hring] at h
      cases hfd : a.recvFd with
      | error e =>
        rw [hfd] at h
        cases h
      | ok masterFd =>
        simp only [hfd] at h
        split at h
        · cases h
        · obtain ⟨loop, hloop, hpair⟩ := Option.map_eq_some_iff.mp h
          cases hpair
          refine ⟨id, masterFd, loop, rfl, hloop, ?_, ?_⟩
          · rw [shown_append, shown_append, shown_append, shown_replay, shown_stdout]
            rfl
          · rw [written_append, written_append, written_append, written_replay]
            rfl

open ShmHost in
/-- The terminal is given the end of what the ring has been given, two lines, and then what it takes
of all that comes; all that comes is written to the ring, so that through every mapping of it, in any
process, the next replay is the end of it all, whatever the processes do in between, if nobody else
writes to the ring or clears it. -/
theorem attach_shows {page : PageSize} {x : Transition.Recorded ShmHost Note}
    (hx : Reaches page x) {place : Place} {r : LiveRing}
    (hr : x.state.rings.lookup place = some r) {C : ClientTexts} {socketPath : String}
    {args : List String} {a : AttachAnswers} {cols rows : UInt16} {childPid : Pid}
    {shmName : String} {snapshot : Option AttachSnapshot} {data : List UInt8} {acts : List CliAct}
    (hready : a.reply = .ok (.attachReady sessionId cols rows childPid shmName snapshot))
    (hring : a.ring = .ok data) (hdump : r.mapping.dump (x.state.bytes r.object) = some data)
    (h : cmdAttach C socketPath args a = some (acts, .done))
    (htotal : (streamOf r.object x.log ++ (written acts).flatten).length < 2 ^ 64) :
    ∃ masterFd before last after, a.recvFd = .ok masterFd ∧ a.passes = before ++ last :: after ∧
      (∀ p ∈ before, ¬p.Over) ∧ last.Over ∧
      written acts = (before ++ [last]).flatMap Pass.received ∧
      shown acts = (streamOf r.object x.log).rtake r.mapping.capacity ++
        attachedNotice sessionId masterFd childPid cols rows shmName ++
          (before ++ [last]).flatMap Pass.displayed ∧
      (∃ y, (recorded page).exec x ((written acts).map (Label.write place)) = some y ∧
        callsOn r.object y.log =
          ((written acts).map SharedRingBuffer.Call.write).reverse ++ callsOn r.object x.log) ∧
      ∀ labels y, (∀ label ∈ labels, label.Fits) → (recorded page).exec x labels = some y →
        callsOn r.object y.log =
          ((written acts).map SharedRingBuffer.Call.write).reverse ++ callsOn r.object x.log →
        ∀ place' r', y.state.rings.lookup place' = some r' → r'.object = r.object →
          r'.mapping.dump (y.state.bytes r.object) =
            some ((streamOf r.object x.log ++ (written acts).flatten).rtake r.mapping.capacity) := by
  obtain ⟨id, masterFd, loop, hfd, hloop, hshown, hwritten⟩ := cmdAttach_done hready hring h
  obtain ⟨before, last, after, body, hpasses, hbefore, hlast, _, _, hblocks, hdisplayed⟩ :=
    runInteractive_reads hloop
  have hshort : (streamOf r.object x.log).length < 2 ^ 64 := by
    rw [List.length_append] at htotal
    omega
  have hreplay := dump_mapping hx hr hshort
  rw [hdump] at hreplay
  refine ⟨masterFd, before, last, after, hfd, hpasses, hbefore, hlast, hwritten.trans hblocks, ?_,
    exec_writes hr (written acts), ?_⟩
  · rw [hshown, hdisplayed, Option.some.inj hreplay]
  · intro labels y hfits hy hcalls place' r' hr' hobject
    exact dump_after hx hr hfits hy hcalls htotal hr' hobject

private def attachedAnswers : AttachAnswers where
  connectError := none
  reply := .ok (.attachReady 7 80 24 100 "/ptyd-0" none)
  recvFd := .ok 9
  ring := .ok [2, 3, 4, 5]
  stdoutError := none
  passes := detachingPasses

/-- What `parse` and `Debug` give for the id and the response of this client. -/
private def attachedTexts : ClientTexts where
  parse text := if text = Uuid.toText 7 then some 7 else none
  debug _ := "AttachReady"

/-- An attachment to the ring of four bytes that has been given five. -/
theorem attach_shows_client :
    ∃ acts masterFd before last, cmdAttach attachedTexts "" [Uuid.toText 7] attachedAnswers =
        some (acts, .done) ∧ written acts = [[1, 2], [3]] ∧
      shown acts = [1, 2, 3, 4, 5].rtake 4 ++ attachedNotice 7 masterFd 100 80 24 "/ptyd-0" ++
        (before ++ [last]).flatMap Pass.displayed := by
  have hdone : (cmdAttach attachedTexts "" [Uuid.toText 7] attachedAnswers).map
      (fun p => (written p.1, p.2)) = some ([[1, 2], [3]], .done) := by
    decide +kernel
  obtain ⟨⟨acts, outcome⟩, h, hpair⟩ := Option.map_eq_some_iff.mp hdone
  obtain ⟨hwritten, houtcome⟩ := Prod.mk.inj hpair
  simp only at hwritten houtcome
  subst houtcome
  have hr : ShmHost.twoWritersEnd.state.rings.lookup (1, 0) =
      some ⟨1, 0, ⟨"/ptyd-0", 5, 0, 4096, 4, false⟩⟩ := by decide +kernel
  have hdump : Mapping.dump ⟨"/ptyd-0", 5, 0, 4096, 4, false⟩
      (ShmHost.twoWritersEnd.state.bytes 0) = some [2, 3, 4, 5] := by decide +kernel
  have hstream : streamOf 0 ShmHost.twoWritersEnd.log = [1, 2, 3, 4, 5] := by decide +kernel
  have htotal : (streamOf 0 ShmHost.twoWritersEnd.log ++ (written acts).flatten).length <
      2 ^ 64 := by
    rw [hstream, hwritten]
    decide
  obtain ⟨masterFd, before, last, _, _, _, _, _, _, hshown, _⟩ :=
    attach_shows ShmHost.twoWritersEnd_reached hr
      (show attachedAnswers.reply = .ok (.attachReady 7 80 24 100 "/ptyd-0" none) from rfl)
      (show attachedAnswers.ring = .ok [2, 3, 4, 5] from rfl) hdump h htotal
  rw [hstream] at hshown
  exact ⟨acts, masterFd, before, last, h, hwritten, hshown⟩

end PtyDaemon
