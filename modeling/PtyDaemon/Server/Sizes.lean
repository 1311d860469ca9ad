import PtyDaemon.Server.Lives
import PtyDaemon.Wire.HandOn
import PtyDaemon.Wire.Sends

/-!
# The two copies of a size

A session records the size it announces, and its parser has a size of its own. WinsizeUpdate sets
both; a Detach that names a size sets the first only.
-/

namespace PtyDaemon

namespace Server

variable {J : Codec} {env : Env} {σ σ' : Server} {id : Uuid} {s : Session} {m : Occurrence}

/-- The parser of every session has the size the session announces. -/
def SizesAgree (σ : Server) : Prop :=
  ∀ id s, σ.sessions.lookup id = some s →
    s.terminalState.map TerminalState.size = some s.winsize

/-- A Detach names the size the session has, or none. -/
def keepsSize (σ : Server) (m : Occurrence) : Bool :=
  m.detachSize.all fun p => (σ.sessions.lookup p.1).all fun s => s.winsize = p.2

/-- A snapshot the daemon captures has the size it announces with it: the file behind the
AttachReady of a local client, the field of that of a WebSocket client, and the push of a
release. -/
structure Announces (J : Codec) (σ : Server) : Prop where
  attach : ∀ {env fd id i cols rows pid shmName snapshot} {σ' : Server},
    σ.handleAttach env fd id = (σ', .attachReady i cols rows pid shmName snapshot) →
    env.snapshotWritten = true →
      ∃ ts : TerminalState, σ'.snapshotFile id = some (.captured ts) ∧ ts.size = ⟨cols, rows⟩
  wsAttach : ∀ {env id i cols rows pid shmName snapshot} {σ' : Server},
    σ.handleWsAttach J env id =
      .ok (σ', .attachReady i cols rows pid shmName (some (.grid snapshot))) →
      ∃ ts : TerminalState, snapshot = .captured ts ∧ ts.size = ⟨cols, rows⟩
  resume : ∀ {env id i conn cols rows pid shmName snapshot},
    σ.releasePush env id = some (conn, .push (.resumeAttach i cols rows pid shmName snapshot)) →
      ∃ ts : TerminalState, snapshot = some (.captured ts) ∧ ts.size = ⟨cols, rows⟩

private theorem sizesAgree_iff : SizesAgree σ ↔
    ∀ id f, σ.viewOf Session.fixture id = some f → f.parserSize = some f.winsize := by
  constructor
  · intro h id f hf
    obtain ⟨s, hs, rfl⟩ := Option.map_eq_some_iff.mp hf
    exact h id s hs
  · intro h id s hs
    exact h id _ (viewOf_eq_some Session.fixture hs)

private theorem SizesAgree.of_view (h : SizesAgree σ)
    (hview : σ'.viewOf Session.fixture = σ.viewOf Session.fixture) : SizesAgree σ' := by
  rw [sizesAgree_iff] at h ⊢
  rw [hview]
  exact h

private theorem Change.sizesAgree {A : Allowed} (hS : ∀ f w, A.sizes f w → f.winsize = w)
    (h : Change A σ σ') (hagree : SizesAgree σ) : SizesAgree σ' := by
  have hupdate : ∀ {id : Uuid} {b : Option Fixture},
      (∀ i, σ'.viewOf Session.fixture i = if i = id then b else σ.viewOf Session.fixture i) →
      (∀ f, b = some f → f.parserSize = some f.winsize) → SizesAgree σ' := by
    intro id b hview hb
    rw [sizesAgree_iff] at hagree ⊢
    intro i f hf
    rcases changed_cases hview hf with ⟨_, hf⟩ | ⟨_, hf⟩
    · exact hb f hf
    · exact hagree i f hf
  have hold := sizesAgree_iff.mp hagree
  cases h with
  | stays h => exact hagree.of_view h.fixtures
  | created hC hnone hid hpos hname hsize hview hshm hbaton =>
    apply hupdate hview
    intro f hf
    cases hf
    exact hsize
  | ended hf hview hshm hbaton =>
    apply hupdate hview
    intro f hf
    cases hf
  | sized w hf hkept hview hshm hbaton =>
    have hsize := hold _ _ hf
    apply hupdate hview
    intro f hf
    cases hf
    rw [← hS _ _ hkept]
    exact hsize
  | resized w hf hview hshm hbaton =>
    have hsize := hold _ _ hf
    apply hupdate hview
    intro f hf
    cases hf
    simp [hsize]
  | taken note hnote hf hT hview hshm hbaton => exact hagree.of_view hview
  | ticked hview hshm hbaton => exact hagree.of_view hview
  | returned t hf hR hview hshm hbaton =>
    have hsize := hold _ _ hf
    apply hupdate hview
    intro f hf
    cases hf
    exact hsize

private theorem Changes.sizesAgree {A : Allowed} (hS : ∀ f w, A.sizes f w → f.winsize = w)
    (h : Changes A σ σ') (hagree : SizesAgree σ) : SizesAgree σ' := by
  induction h with
  | refl => exact hagree
  | tail _ hchange ih => exact hchange.1.sizesAgree hS ih

private theorem occurLive_sizesAgree (hkeyed : Keyed σ) (hkeeps : σ.keepsSize m = true)
    (h : σ.occurLive J m = some σ') (hagree : SizesAgree σ) : SizesAgree σ' := by
  have hchanges : Changes { sizes := fun f w => f.winsize = w } σ σ' := by
    apply occurLive_changes hkeyed _ h
    refine ⟨fun _ _ => trivial, ?_, fun _ _ _ _ _ => trivial, fun _ _ => trivial,
      fun _ _ _ => trivial⟩
    intro id w hw s hs
    show s.winsize = w
    simpa [keepsSize, hw, hs] using hkeeps
  exact hchanges.sizesAgree (fun _ _ hw => hw) hagree

/-- Where they agree, the parser a snapshot is taken of has the announced size. -/
theorem SizesAgree.parser (h : SizesAgree σ) (hs : σ.sessions.lookup id = some s) :
    ∃ ts, s.terminalState = some ts ∧ ts.size = s.winsize :=
  Option.map_eq_some_iff.mp (h id s hs)

private theorem handleAttach_ready {fd : RawFd} {i : Uuid} {cols rows : UInt16} {pid : Pid}
    {shmName : String} {snapshot : Option AttachSnapshot}
    (h : σ.handleAttach env fd id = (σ', .attachReady i cols rows pid shmName snapshot)) :
    ∃ s, σ.sessions.lookup id = some s ∧ s.state ≠ .attached ∧
      env.childAlive s.childPid = true ∧ env.dup.isSome = true ∧ s.winsize = ⟨cols, rows⟩ := by
  cases handleAttach_ends env σ fd id with
  | refused _ hresponse hp =>
    have hready := congrArg Prod.snd (hp.symm.trans h)
    exact absurd hready (hresponse i cols rows pid shmName snapshot)
  | granted hs hfree halive hdup hp =>
    cases hp.symm.trans h
    exact ⟨_, hs, hfree, halive, by simp [hdup], rfl⟩

private theorem SizesAgree.announces (J : Codec) (h : SizesAgree σ) : Announces J σ where
  attach := by
    intro env fd id i cols rows pid shmName snapshot σ' hattach hwritten
    obtain ⟨s, hs, hfree, halive, hdup, hsize⟩ := handleAttach_ready hattach
    obtain ⟨ts, hts, hparser⟩ := h.parser hs
    have hcurrent : s.currentSnapshot = some (.captured ts) := by
      simp [Session.currentSnapshot, hts, TerminalState.captureSnapshot]
    have hfile := handleAttach_snapshotFile fd hs hfree halive hdup hwritten hcurrent
    rw [hattach] at hfile
    exact ⟨ts, hfile, hparser.trans hsize⟩
  wsAttach := by
    intro env id i cols rows pid shmName snapshot σ' hattach
    have hchanges : Changes { sizes := fun f w => f.winsize = w } σ
        (σ.takeOverAttached J env id) := takeOverAttached_changes J env σ fun _ _ _ => trivial
    have htaken := hchanges.sizesAgree (fun _ _ hw => hw) h
    cases handleWsAttach_cases hattach with
    | missing hs h => cases h
    | dead hs hdead h => cases h
    | @joined s ringData hs halive hdump h =>
      obtain ⟨ts, hts, hsize⟩ := htaken.parser hs
      have hcurrent : s.currentSnapshot = some (.captured ts) := by
        simp [Session.currentSnapshot, hts, TerminalState.captureSnapshot]
      simp only [Prod.mk.injEq, Response.attachReady.injEq] at h
      obtain ⟨_, _, hcols, hrows, _, _, hsnapshot⟩ := h
      split at hsnapshot
      · simp only [Session.withSnapshot, hcurrent, Option.map_some, Option.some.injEq,
          AttachSnapshot.grid.injEq] at hsnapshot
        rw [hcols, hrows]
        exact ⟨ts, hsnapshot, hsize⟩
      · cases hsnapshot
  resume := by
    intro env id i conn cols rows pid shmName snapshot hpush
    unfold releasePush at hpush
    obtain ⟨s, hs, hpush⟩ := Option.bind_eq_some_iff.mp hpush
    obtain ⟨fd, _, hpush⟩ := Option.bind_eq_some_iff.mp hpush
    obtain ⟨client, _, hpush⟩ := Option.bind_eq_some_iff.mp hpush
    obtain ⟨d, _, hpush⟩ := Option.map_eq_some_iff.mp hpush
    obtain ⟨ts, hts, hsize⟩ := h.parser hs
    cases hpush
    exact ⟨ts, by simp [hts, TerminalState.captureSnapshot], hsize⟩

/-- However sessions come, are resized, change hands and end: as long as every Detach that names a
size names the recorded one, the parsers have the recorded sizes. Whatever the loop reaches is
reached in these runs. -/
theorem sizes_agree (J : Codec) :
    (∀ σ, (loop J).Reachable σ → (lives J).Reachable σ) ∧
    ∀ σ, (lives J).Reach (fun σ m => σ.keepsSize m = true) σ →
      SizesAgree σ ∧ Announces J σ := by
  refine ⟨fun σ h => loop_lives h, fun σ h => ?_⟩
  have hagree : SizesAgree σ := by
    apply h.invariant_with fun σ hreach => lives_keyed hreach
    · rintro _ ⟨listener, wakeup, now, rfl⟩ id s hs
      cases hs
    · intro σ m σ' hkeyed hagree hkeeps hstep
      exact occurLive_sizesAgree hkeyed hkeeps hstep hagree
  exact ⟨hagree, hagree.announces J⟩

/-- Messages that create session 7 and detach it with another size. -/
private def resizing : Codec where
  request := fun json =>
    if json = [0] then .ok (.create none 80 24 none none none)
    else if json = [1] then .ok (.detach 7 100 30 none)
    else .error "unknown"
  pushAck := fun _ => .error "unknown"
  base64 := fun _ => .error "unknown"

/-- A session is created, resized and detached with its new size. -/
theorem sizes_agree_resized :
    ∃ σ s, (lives resizing).Reach (fun σ m => σ.keepsSize m = true) σ ∧ SizesAgree σ ∧
      σ.sessions.lookup 7 = some s ∧ s.winsize = ⟨100, 30⟩ := by
  have hrun : (((lives resizing).execWhere (fun σ m => σ.keepsSize m = true) (Server.new 3 none 0)
      [.event (.accept 5),
        .event (.request 5 (.ok (.create none 80 24 none none none)) 0 calm),
        .event (.request 5 (.ok (.winsizeUpdate 7 100 30)) 0 calmLater),
        .event (.request 5 (.ok (.detach 7 100 30 none)) 0 calmLater)]).bind fun σ =>
      (σ.sessions.lookup 7).map Session.winsize) = some ⟨100, 30⟩ := by decide +kernel
  obtain ⟨σ, hexec, hlookup⟩ := Option.bind_eq_some_iff.mp hrun
  obtain ⟨s, hs, hsize⟩ := Option.map_eq_some_iff.mp hlookup
  have hstart : (lives resizing).Reach (fun σ m => σ.keepsSize m = true) (Server.new 3 none 0) :=
    .start ⟨3, none, 0, rfl⟩
  have hreach := hstart.execWhere hexec
  exact ⟨σ, s, hreach, ((sizes_agree resizing).2 σ hreach).1, hs, hsize⟩

/-- A session of 80 by 24 is detached with a size of 100 by 30, which its parser is not told. -/
theorem detach_sizes_differ :
    ∃ σ s, (loop resizing).Reachable σ ∧ ¬ SizesAgree σ ∧ σ.sessions.lookup 7 = some s ∧
      s.winsize = ⟨100, 30⟩ ∧ s.terminalState.map TerminalState.size = some ⟨80, 24⟩ := by
  have hrun : (((loop resizing).exec (Server.new 3 none 0)
      [readable 3 [.stream 5] [] [],
        readable 5 [] (encodeMessage [0] ++ encodeMessage [1]) [calm, calmLater]]).bind fun σ =>
      (σ.sessions.lookup 7).map fun s =>
        (s.winsize, s.terminalState.map TerminalState.size)) =
      some (⟨100, 30⟩, some ⟨80, 24⟩) := by decide +kernel
  obtain ⟨σ, hexec, hlookup⟩ := Option.bind_eq_some_iff.mp hrun
  obtain ⟨s, hs, hsizes⟩ := Option.map_eq_some_iff.mp hlookup
  obtain ⟨hsize, hparser⟩ := Prod.mk.inj hsizes
  have hstart : (loop resizing).Reachable (Server.new 3 none 0) := .start ⟨3, none, 0, rfl⟩
  refine ⟨σ, s, hstart.exec hexec, ?_, hs, hsize, hparser⟩
  intro hagree
  have hsame := hagree 7 s hs
  rw [hsize, hparser] at hsame
  exact absurd hsame (by decide)

end Server

end PtyDaemon
