import PtyDaemon.Server.Batch
import PtyDaemon.Server.Frame
import PtyDaemon.Server.Tenure
import PtyDaemon.Wire.Occurrences

/-!
# The snapshot a client hands over

An owner that leaves a session may give the daemon a snapshot of its screen, with Detach or with the
acknowledgement of a takeover. This follows the session from there to the next attachment, whose
client finds a snapshot in a file.
-/

namespace PtyDaemon

/-- The text of a snapshot; `render` captures the screen of a parser. -/
def GridSnapshot.text (render : TerminalState → String) : GridSnapshot → String
  | .given text => text
  | .captured state => render state

def Act.snapshotOf (id : Uuid) : Act → Option GridSnapshot
  | .snapshotWritten i snapshot => if i = id then some snapshot else none
  | _ => none

namespace Server

variable {J : Codec} {env : Env} {σ σ' σ'' : Server} {id : Uuid} {s : Session} {e : Event}
  {m : Occurrence}

/-- What the snapshot file of a session holds: what was written to it last. -/
def snapshotFile (σ : Server) (id : Uuid) : Option GridSnapshot :=
  σ.trace.findSome? (Act.snapshotOf id)

/-- The event delivers the snapshot `text` of session `id`. -/
def handsOver (J : Codec) (σ : Server) (id : Uuid) (text : String) : Event → Prop
  | .request _ (.ok (.detach i _ _ snapshot)) _ _ =>
    i = id ∧ snapshot = some text ∧ ∃ s, σ.sessions.lookup id = some s
  | .command shared (.request c request reply) env =>
    (request = .attach id ∨ ∃ cols rows snapshot, request = .detach id cols rows snapshot) ∧
      ∃ fd, { σ with wsShared := shared }.commandWaits env (.request c request reply) = some fd ∧
        (waitForDetachAck J fd id env.ackReads σ).2 = some (.given text)
  | _ => False

/-! ## The file -/

private theorem snapshotFile_emit (σ : Server) (act : Act) (id : Uuid) :
    (σ.emit act).snapshotFile id = (act.snapshotOf id).or (σ.snapshotFile id) := by
  unfold snapshotFile emit
  rw [List.findSome?_cons]
  cases act.snapshotOf id <;> rfl

private theorem answer_snapshotFile (env : Env) (σ : Server) (fd : RawFd) (response : Response)
    (consumed : Nat) (id : Uuid) :
    (σ.answer env fd response consumed).snapshotFile id = σ.snapshotFile id := by
  unfold answer
  split
  · rfl
  · dsimp only
    split
    · exact snapshotFile_emit ..
    · rfl

private theorem passOn_snapshotFile (env : Env) (σ : Server) (fd : RawFd) (response : Response)
    (id : Uuid) : (σ.passOn env fd response).snapshotFile id = σ.snapshotFile id := by
  have hrevert : ∀ (τ : Server) (i : Uuid), (τ.revertAttach i).trace = τ.trace := by
    intro τ i
    have hclosed : (τ.closePending i).trace = τ.trace := by
      unfold closePending
      split <;> rfl
    unfold revertAttach
    dsimp only
    split
    · exact hclosed
    · exact hclosed
  have hsend : ∀ i, (σ.sendAttachData env fd i).1.snapshotFile id = σ.snapshotFile id := by
    intro i
    unfold sendAttachData
    split
    · rfl
    · dsimp only
      split
      · rfl
      · dsimp only
        split
        · exact snapshotFile_emit ..
        · rfl
  unfold passOn
  split
  · rename_i i _ _ _ _ _
    dsimp only
    split
    · exact hsend i
    · rw [snapshotFile, hrevert]
      exact hsend i
  · rfl

/-- The file gets what the session has at that moment. -/
theorem handleAttach_snapshotFile (fd : RawFd) (hs : σ.sessions.lookup id = some s)
    (hfree : s.state ≠ .attached) (halive : env.childAlive s.childPid = true)
    (hdup : env.dup.isSome = true) (hwritten : env.snapshotWritten = true)
    {snapshot : GridSnapshot} (hsnapshot : s.currentSnapshot = some snapshot) :
    (σ.handleAttach env fd id).1.snapshotFile id = some snapshot := by
  obtain ⟨d, hd⟩ := Option.isSome_iff_exists.mp hdup
  unfold handleAttach
  simp only [hs, if_neg hfree, halive, hd, Bool.not_true, if_neg Bool.false_ne_true, hsnapshot,
    writeSnapshot, hwritten]
  rw [snapshotFile_emit]
  change (none : Option GridSnapshot).or (((σ.openFd d (.dup id)).emit
    (.snapshotWritten id snapshot)).snapshotFile id) = _
  rw [snapshotFile_emit]
  simp [Act.snapshotOf]

/-! ## The parser on the way -/

/-- Every session has a parser. -/
def Parsed (σ : Server) : Prop :=
  ∀ id parser, σ.parserOf id = some parser → parser.isSome = true

private theorem event_parsed (hinv : Inv σ) (h : σ.event J e = .ok σ') (hparsed : Parsed σ) :
    Parsed σ' := by
  have hinv' := event_inv hinv h
  intro id parser hparser
  obtain ⟨s, hs, rfl⟩ := Option.map_eq_some_iff.mp hparser
  have hknown := (hinv'.session (coreOf_eq_some hs)).known
  by_cases hid : id ∈ σ.ids
  · rcases event_fed hinv h hid with hnone | hsame
    · rw [hparser] at hnone
      cases hnone
    · rw [hparser] at hsame
      obtain ⟨parser, hold, hafter⟩ := Option.map_eq_some_iff.mp hsame.symm
      rw [← hafter, Option.isSome_map]
      exact hparsed id parser hold
  · cases event_effect hinv h with
    | handled hout =>
      have hid' : id ∉ (σ.arrive e).ids := by
        rw [(arrive_same σ e).1]
        exact hid
      have hborn := ((hout.kept (hinv.arrive e)).born hid' (coreOf_eq_some hs)).2
      have hfed : (s.terminalState.map TerminalState.fed).isSome = true := by
        change s.core.fed.isSome = true
        rw [hborn]
        rfl
      rwa [Option.isSome_map] at hfed
    | read _ hread =>
      obtain ⟨_, _, _, _, _, _, _, _, hids, _⟩ := hread.spec
      exact absurd (hids ▸ hknown) hid
    | lost _ _ hdisc => exact absurd (hdisc.ids ▸ hknown) hid

private theorem occurrences_parsed (h : (occurrences J).Reachable σ) : Parsed σ := by
  refine h.invariant_with (fun _ hreach => occurrences_inv hreach) ?_ ?_
  · rintro _ ⟨listener, wakeup, now, rfl⟩ id parser hparser
    cases hparser
  · intro σ m σ' hinv hparsed _ hstep
    rcases occur_cases hstep with ⟨e, _, h⟩ | ⟨_, _, hsessions, _⟩
    · exact event_parsed hinv h hparsed
    · intro id parser hparser
      apply hparsed id parser
      rwa [parserOf, viewOf_of_sessions _ hsessions] at hparser

def occurrenceCalls (σ : Server) (id : Uuid) : Occurrence → List ParserCall
  | .event e => σ.parserCalls id e
  | _ => []

/-- The calls a run makes on the parser of session `id`. -/
def runCalls (J : Codec) (id : Uuid) : Server → List Occurrence → List ParserCall
  | _, [] => []
  | σ, m :: ms =>
    σ.occurrenceCalls id m ++ (σ.occur J m).elim [] fun σ' => runCalls J id σ' ms

private theorem exec_fed {ms : List Occurrence} (hinv : Inv σ) (hid : id ∈ σ.ids)
    (h : (occurrences J).exec σ ms = some σ') : Fed id (runCalls J id σ ms) σ σ' := by
  induction ms generalizing σ with
  | nil =>
    cases h
    exact .of_eq rfl
  | cons m ms ih =>
    obtain ⟨τ, hstep, hrest⟩ := Option.bind_eq_some_iff.mp h
    have hcalls : runCalls J id σ (m :: ms) = σ.occurrenceCalls id m ++ runCalls J id τ ms := by
      rw [runCalls, show σ.occur J m = some τ from hstep]
      rfl
    rw [hcalls]
    have hτ := occur_inv hstep hinv
    rcases occur_cases hstep with ⟨e, rfl, hevent⟩ | ⟨hother, haside, hsessions, _⟩
    · exact (event_fed hinv hevent hid).trans (ih hτ ((Since.event hinv hevent).ids hid) hrest)
    · have hnone : σ.occurrenceCalls id m = [] := by
        cases m with
        | event e => exact absurd rfl (hother e)
        | _ => rfl
      rw [hnone]
      exact (Fed.of_sessions hsessions).trans (ih hτ (haside.ids ▸ hid) hrest)

/-- Runs of events that do not reach the parser. -/
theorem runCalls_nil {ms : List Occurrence}
    (h : ∀ m ∈ ms, ∀ τ : Server, τ.occurrenceCalls id m = []) :
    runCalls J id σ ms = [] := by
  induction ms generalizing σ with
  | nil => rfl
  | cons m ms ih =>
    rw [runCalls, h m List.mem_cons_self, List.nil_append]
    cases σ.occur J m with
    | none => rfl
    | some τ => exact ih fun m' hm' => h m' (List.mem_cons_of_mem m hm')

/-- Delivering a snapshot does not touch the parser. -/
theorem handsOver_calls {text : String} (h : σ.handsOver J id text e) :
    σ.parserCalls id e = [] ∧ ∃ s, σ.sessions.lookup id = some s := by
  cases e with
  | request fd result consumed env =>
    cases result with
    | error message => cases h
    | ok request =>
      cases request with
      | detach i cols rows snapshot => exact ⟨rfl, h.2.2⟩
      | _ => cases h
  | command shared cmd env =>
    cases cmd with
    | request c request reply =>
      obtain ⟨hrequest, fd, hwaits, _⟩ := h
      have hsession : ∃ s, σ.sessions.lookup id = some s := by
        cases hs : σ.sessions.lookup id with
        | some s => exact ⟨s, rfl⟩
        | none =>
          rcases hrequest with rfl | ⟨cols, rows, snapshot, rfl⟩
          · simp [commandWaits, takeoverWaits, hs] at hwaits
          · simp [commandWaits, hs] at hwaits
      refine ⟨?_, hsession⟩
      rcases hrequest with rfl | ⟨cols, rows, snapshot, rfl⟩ <;> rfl
    | _ => cases h
  | _ => cases h

/-- Whatever happens between the delivery of a snapshot and an attachment: the client finds the
delivered snapshot if and only if the daemon's own parser, which has not seen what was printed while
the session was attached, shows the same screen after the calls made on it in between. -/
theorem handed_on_iff (render : TerminalState → String) {fd : RawFd} {consumed : Nat}
    {text : String} {ms : List Occurrence} (hreach : (occurrences J).Reachable σ)
    (hgiven : σ.handsOver J id text e) (hrun : (occurrences J).exec σ (.event e :: ms) = some σ')
    (hgrants : σ'.grants env id) (hwritten : env.snapshotWritten = true)
    (hattach : σ'.event J (.request fd (.ok (.attach id)) consumed env) = .ok σ'') :
    (σ''.snapshotFile id).map (GridSnapshot.text render) = some text ↔
      ∃ ts, σ.parserOf id = some (some ts) ∧
        render (ts.after (runCalls J id σ (.event e :: ms))) = text := by
  have hinv := occurrences_inv hreach
  obtain ⟨_, s₀, hs₀⟩ := handsOver_calls hgiven
  obtain ⟨s, hs, hfree, halive, hdup⟩ := hgrants
  -- the parser at the attachment is the old one after the calls of the run
  have hfed := exec_fed hinv (hinv.session (coreOf_eq_some hs₀)).known hrun
  have hparser₀ : σ.parserOf id = some s₀.terminalState := viewOf_eq_some _ hs₀
  have hparser : σ'.parserOf id = some s.terminalState := viewOf_eq_some _ hs
  obtain ⟨ts, hts⟩ := Option.isSome_iff_exists.mp (occurrences_parsed hreach _ _ hparser₀)
  have hafter : s.terminalState = some (ts.after (runCalls J id σ (.event e :: ms))) := by
    rcases hfed with hnone | hsame
    · rw [hparser] at hnone
      cases hnone
    · rw [hparser, hparser₀, hts] at hsame
      exact Option.some.inj hsame
  -- and the attachment captures it, whatever is stored
  have hcurrent : s.currentSnapshot =
      some (.captured (ts.after (runCalls J id σ (.event e :: ms)))) := by
    simp [Session.currentSnapshot, hafter, TerminalState.captureSnapshot]
  have hfile : σ''.snapshotFile id =
      some (.captured (ts.after (runCalls J id σ (.event e :: ms)))) := by
    have hattach := event_request hattach
    cases hattach
    rw [passOn_snapshotFile, answer_snapshotFile]
    exact handleAttach_snapshotFile fd hs hfree halive hdup hwritten hcurrent
  rw [hfile, hparser₀, hts]
  simp [GridSnapshot.text]

/-- Messages that create session 7 and attach it. -/
private def handing : Codec where
  request := fun json =>
    if json = [0] then .ok (.create none 80 24 none none none)
    else if json = [1] then .ok (.attach 7)
    else .error "unknown"
  pushAck := fun _ => .error "unknown"
  base64 := fun _ => .error "unknown"

private def handedDetach : Event := .request 5 (.ok (.detach 7 80 24 (some "screen"))) 5 calmLater

private def handedList : Occurrence := .event (.request 5 (.ok .list) 5 calmLater)

private def handedAttach : Event := .request 5 (.ok (.attach 7)) 5 calmLater

private theorem handing_run :
    ∃ σ σ' σ'', (loop handing).Reachable σ ∧ σ.handsOver handing 7 "screen" handedDetach ∧
      σ.parserOf 7 = some (some ⟨80, 24, []⟩) ∧
      (occurrences handing).exec σ [.event handedDetach, handedList] = some σ' ∧
      σ'.grants calmLater 7 ∧ σ'.event handing handedAttach = .ok σ'' ∧
      σ''.snapshotFile 7 = some (.captured ⟨80, 24, []⟩) := by
  have hrun : (((loop handing).exec (Server.new 3 none 0)
      [readable 3 [.stream 5] [] [],
        readable 5 [] (encodeMessage [0] ++ encodeMessage [1]) [calm, calmLater]]).bind fun σ =>
      ((occurrences handing).exec σ [.event handedDetach, handedList]).bind fun σ' =>
        (σ'.event handing handedAttach).toOption.map fun σ'' =>
          (σ.parserOf 7, (σ'.sessions.lookup 7).map Session.state, σ''.snapshotFile 7)) =
      some (some (some ⟨80, 24, []⟩), some .active, some (.captured ⟨80, 24, []⟩)) := by
    decide +kernel
  obtain ⟨σ, hexec, hfacts⟩ := Option.bind_eq_some_iff.mp hrun
  obtain ⟨σ', hσ', hfacts⟩ := Option.bind_eq_some_iff.mp hfacts
  obtain ⟨σ'', hσ'', hfacts⟩ := Option.map_eq_some_iff.mp hfacts
  simp only [Prod.mk.injEq] at hfacts
  obtain ⟨hparser, hstate, hfile⟩ := hfacts
  obtain ⟨s, hs, hactive⟩ := Option.map_eq_some_iff.mp hstate
  obtain ⟨s₀, hs₀, _⟩ := Option.map_eq_some_iff.mp hparser
  have hstart : (loop handing).Reachable (Server.new 3 none 0) := .start ⟨3, none, 0, rfl⟩
  refine ⟨σ, σ', σ'', hstart.exec hexec, ⟨rfl, rfl, s₀, hs₀⟩, hparser, hσ', ⟨s, hs, ?_, rfl, rfl⟩,
    ok_of_toOption hσ'', hfile⟩
  rw [hactive]
  decide

/-- Where nothing was printed, the daemon's own snapshot is the one handed over. -/
theorem handed_on_iff_unprinted :
    ∃ σ σ' σ'', (loop handing).Reachable σ ∧ σ.handsOver handing 7 "screen" handedDetach ∧
      (occurrences handing).exec σ [.event handedDetach, handedList] = some σ' ∧
      σ'.event handing handedAttach = .ok σ'' ∧
      (σ''.snapshotFile 7).map
        (GridSnapshot.text fun ts => if ts.calls = [] then "screen" else "printed") =
          some "screen" := by
  obtain ⟨σ, σ', σ'', hreach, hgiven, hparser, hrun, hgrants, hattach, _⟩ := handing_run
  have hcalls : runCalls handing 7 σ [.event handedDetach, handedList] = [] := by
    apply runCalls_nil
    intro m hm τ
    rcases List.mem_cons.mp hm with rfl | hm
    · rfl
    · cases List.mem_singleton.mp hm
      rfl
  refine ⟨σ, σ', σ'', hreach, hgiven, hrun, hattach, ?_⟩
  apply (handed_on_iff _ (loop_occurrences hreach) hgiven hrun hgrants rfl hattach).mpr
  refine ⟨_, hparser, ?_⟩
  rw [hcalls]
  rfl

/-- The client has handed over what it showed, but the next attachment finds what the daemon's
parser shows, which has seen nothing. -/
theorem handed_over_lost :
    ∃ σ σ' σ'', (loop handing).Reachable σ ∧ σ.handsOver handing 7 "screen" handedDetach ∧
      (occurrences handing).exec σ [.event handedDetach, handedList] = some σ' ∧
      σ'.grants calmLater 7 ∧ σ'.event handing handedAttach = .ok σ'' ∧
      ∀ render : TerminalState → String, render ⟨80, 24, []⟩ ≠ "screen" →
        (σ''.snapshotFile 7).map (GridSnapshot.text render) ≠ some "screen" := by
  obtain ⟨σ, σ', σ'', hreach, hgiven, _, hrun, hgrants, hattach, hfile⟩ := handing_run
  refine ⟨σ, σ', σ'', hreach, hgiven, hrun, hgrants, hattach, fun render hrender => ?_⟩
  rw [hfile]
  simpa [GridSnapshot.text] using hrender

end Server

end PtyDaemon
