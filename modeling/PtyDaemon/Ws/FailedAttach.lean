import PtyDaemon.Server.Holders
import PtyDaemon.Server.Tenure
import PtyDaemon.Ws.HandBack

/-!
# What a failed attach leaves behind

A local client's Attach takes hold of the session before the descriptor goes out, and is undone
where that fails. A WebSocket client's Attach takes the session from its owner before it looks
whether the child lives, and is not undone.
-/

namespace PtyDaemon

/-- Who has a session, and what is kept for whom. -/
structure Hold where
  state : SessionState
  ownerFd : Option RawFd
  previousOwnerFd : Option RawFd
  gridSnapshot : Option GridSnapshot
  wsClientCount : Nat
  deriving DecidableEq

def Session.hold (s : Session) : Hold where
  state := s.state
  ownerFd := s.ownerFd
  previousOwnerFd := s.previousOwnerFd
  gridSnapshot := s.gridSnapshot
  wsClientCount := s.wsClientCount

/-- The session an event is to attach. -/
def Event.attaches : Event → Option Uuid
  | .request _ (.ok (.attach id)) _ _ => some id
  | .command _ (.request _ (.attach id) _) _ => some id
  | _ => none

namespace Server

variable {J : Codec} {env : Env} {σ σ' τ : Server} {id : Uuid} {s : Session} {e : Event}

/-- The session is refused, or its descriptor does not go out, or a WebSocket client is told of an
error. -/
def attachFails (J : Codec) (σ : Server) : Event → Prop
  | .request fd (.ok (.attach id)) consumed env =>
    let attached := σ.handleAttach env fd id
    match attached.2 with
    | .attachReady .. =>
      ((attached.1.answer env fd attached.2 consumed).sendAttachData env fd id).2 = false
    | _ => True
  | .command shared (.request _ (.attach id) _) env =>
    ∃ τ message, { σ with wsShared := shared }.handleWsAttach J env id = .ok (τ, .error message)
  | _ => False

/-- The session is as it was, and no duplicate of its descriptor is left. -/
structure LeftAlone (id : Uuid) (σ σ' : Server) : Prop where
  hold : σ'.viewOf Session.hold id = σ.viewOf Session.hold id
  registered : ∀ s, σ.sessions.lookup id = some s → (s.masterFd ∈ σ'.kq ↔ s.masterFd ∈ σ.kq)
  dups : ∀ fd, σ'.fds.lookup fd ≠ some (.dup id)

/-- A local client gets nothing, or a session that is Active and keeps no snapshot; a WebSocket
client asks for a session that nobody has attached. -/
def attachIsClean (σ : Server) : Event → Prop
  | .request _ (.ok (.attach id)) _ env => σ.grants env id →
    ∀ s, σ.sessions.lookup id = some s → s.state = .active ∧ s.gridSnapshot = none
  | .command _ (.request _ (.attach id) _) _ =>
    ∀ s, σ.sessions.lookup id = some s → s.state ≠ .attached
  | _ => True

/-- A session keeps its registration with its state. -/
theorem LeftAlone.of_session (hrest : AtRest σ) (hrest' : AtRest σ') {s s' : Session}
    (hs : σ.sessions.lookup id = some s) (hs' : σ'.sessions.lookup id = some s')
    (hmaster : s'.masterFd = s.masterFd) (hhold : s'.hold = s.hold) : LeftAlone id σ σ' where
  hold := by rw [viewOf_eq_some _ hs', viewOf_eq_some _ hs, hhold]
  registered t ht := by
    cases hs.symm.trans ht
    have hbefore := (hrest.settled.inv.session (coreOf_eq_some hs)).registered
    have hafter := (hrest'.settled.inv.session (coreOf_eq_some hs')).registered
    have hstate : s'.state = s.state := congrArg Hold.state hhold
    rw [show s'.core.masterFd = s.masterFd from hmaster,
      show s'.core.state = s.state from hstate] at hafter
    exact hafter.trans hbefore.symm
  dups fd := hrest'.dups fd id

private theorem LeftAlone.same {s s' : Session} (h : LeftAlone id σ σ')
    (hs : σ.sessions.lookup id = some s) (hs' : σ'.sessions.lookup id = some s') :
    s'.hold = s.hold := by
  have hhold := h.hold
  rw [viewOf_eq_some _ hs, viewOf_eq_some _ hs'] at hhold
  exact Option.some.inj hhold

/-- Where nothing happens to the sessions. -/
theorem LeftAlone.of_sessions (hrest : AtRest σ) (hrest' : AtRest σ')
    (h : σ'.sessions = σ.sessions) : LeftAlone id σ σ' := by
  cases hs : σ.sessions.lookup id with
  | some s => exact .of_session hrest hrest' hs (h ▸ hs) rfl rfl
  | none =>
    constructor
    · exact congrFun (viewOf_of_sessions Session.hold h) id
    · intro s hs'
      rw [hs] at hs'
      cases hs'
    · exact fun fd => hrest'.dups fd id

/-- Undoing an attachment makes the session Active. -/
theorem revertAttach_session (hs : σ.sessions.lookup id = some s) :
    (σ.revertAttach id).sessions.lookup id = some (s.detach none) := by
  have hclosed : (σ.closePending id).sessions.lookup id = some s := by
    rw [closePending_sessions]
    exact hs
  unfold revertAttach
  simp only [hclosed]
  exact lookup_putSession_self _ id _

/-- An Attach of a local client that fails changes nothing, or it takes the session and gives it
up again. -/
theorem serve_attach_fails {fd : RawFd} {consumed : Nat}
    (h : σ.event J (.request fd (.ok (.attach id)) consumed env) = .ok σ')
    (hfails : σ.attachFails J (.request fd (.ok (.attach id)) consumed env)) :
    ¬ σ.grants env id ∧ σ'.sessions = σ.sessions ∨
      σ.grants env id ∧ ∃ s, σ.sessions.lookup id = some s ∧
        σ'.sessions.lookup id = some ((s.clearSnapshot.attach env.now fd).detach none) := by
  have h := event_request h
  have hσ' : ((σ.handleAttach env fd id).1.answer env fd (σ.handleAttach env fd id).2
      consumed).passOn env fd (σ.handleAttach env fd id).2 = σ' := Except.ok.inj h
  subst hσ'
  have hends := handleAttach_ends env σ fd id
  simp only [attachFails] at hfails
  generalize σ.handleAttach env fd id = p at hends hfails ⊢
  cases hends with
  | refused hnot hresponse hp =>
    left
    rw [hp, passOn_eq hresponse, answer_sessions]
    refine ⟨?_, rfl⟩
    rintro ⟨s, hs, hfree, halive, hdup⟩
    rw [hnot s hs hfree halive] at hdup
    cases hdup
  | @granted s d hs hfree halive hdup hp =>
    right
    refine ⟨⟨s, hs, hfree, halive, by rw [hdup]; rfl⟩, s, hs, ?_⟩
    obtain ⟨τ, response⟩ := p
    obtain ⟨hτ, rfl⟩ := Prod.mk.inj hp
    have hsession : τ.sessions.lookup id = some (s.clearSnapshot.attach env.now fd) := by
      rw [hτ]
      exact lookup_putSession_self _ id _
    dsimp only at hfails
    simp only [passOn, hfails, Bool.false_eq_true, if_false]
    apply revertAttach_session
    rw [sendAttachData_sessions, answer_sessions]
    exact hsession

/-- An Attach of a WebSocket client that is answered with an error changes nothing, or it takes the
session from its owner. -/
theorem wsAttach_fails {shared : WsSharedState} {c reply : Nat}
    (h : σ.event J (.command shared (.request c (.attach id) reply) env) = .ok σ')
    (hfails : σ.attachFails J (.command shared (.request c (.attach id) reply) env)) :
    (∀ s, σ.sessions.lookup id = some s → s.state ≠ .attached) ∧ σ'.sessions = σ.sessions ∨
      ∃ s s', σ.sessions.lookup id = some s ∧ s.state = .attached ∧
        σ'.sessions.lookup id = some s' ∧ s'.state = .active := by
  obtain ⟨τ, message, hattach⟩ := hfails
  have hτ : τ = { σ with wsShared := shared }.takeOverAttached J env id := by
    cases handleWsAttach_cases hattach with
    | missing hs h => exact congrArg Prod.fst h
    | dead hs hdead h => exact congrArg Prod.fst h
    | joined hs halive hdump h => cases congrArg Prod.snd h
  have h := event_command h
  obtain ⟨p, hp, rfl⟩ := ok_of_map h
  cases hattach.symm.trans hp
  rcases takeOverAttached_cases J env { σ with wsShared := shared } id with
    ⟨s, hs, hatt, htaken⟩ | ⟨hfree, hsame⟩
  · right
    obtain ⟨s', hs', hactive⟩ := handleBatonTakeover_active J env hs
    rw [← htaken, ← hτ] at hs'
    exact ⟨s, s', hs, hatt, hs', hactive⟩
  · left
    rw [hsame] at hτ
    rw [hτ]
    exact ⟨hfree, rfl⟩

/-- A local client's Attach that fails gives the session up as Active and without a snapshot. -/
theorem request_leftAlone_iff (hrest : AtRest σ) {fd : RawFd} {consumed : Nat}
    (h : σ.event J (.request fd (.ok (.attach id)) consumed env) = .ok σ')
    (hfails : σ.attachFails J (.request fd (.ok (.attach id)) consumed env)) :
    LeftAlone id σ σ' ↔ σ.attachIsClean (.request fd (.ok (.attach id)) consumed env) := by
  have hrest' := hrest.event h
  rcases serve_attach_fails h hfails with ⟨hnot, hsame⟩ | ⟨hgrants, s, hs, hs'⟩
  · constructor
    · intro _ hgrants
      exact absurd hgrants hnot
    · intro _
      exact .of_sessions hrest hrest' hsame
  · have hfree : s.ownerFd = none := by
      obtain ⟨t, ht, hfree, _⟩ := hgrants
      cases hs.symm.trans ht
      have howned := (hrest.settled.inv.session (coreOf_eq_some hs)).owned
      rw [← Option.not_isSome_iff_eq_none]
      exact fun howner => hfree (howned.mpr howner)
    constructor
    · intro hleft _ t ht
      cases hs.symm.trans ht
      have hhold := hleft.same hs hs'
      have hstate : SessionState.active = s.state := congrArg Hold.state hhold
      have hsnapshot : none = s.gridSnapshot := congrArg Hold.gridSnapshot hhold
      exact ⟨hstate.symm, hsnapshot.symm⟩
    · intro hclean
      obtain ⟨hstate, hsnapshot⟩ := hclean hgrants s hs
      apply LeftAlone.of_session hrest hrest' hs hs' rfl
      simp [Session.hold, Session.detach, Session.attach, Session.clearSnapshot, hstate,
        hsnapshot, hfree]

/-- A WebSocket client's Attach that fails has taken the session from whoever had it. -/
theorem command_leftAlone_iff (hrest : AtRest σ) {shared : WsSharedState} {c reply : Nat}
    (h : σ.event J (.command shared (.request c (.attach id) reply) env) = .ok σ')
    (hfails : σ.attachFails J (.command shared (.request c (.attach id) reply) env)) :
    LeftAlone id σ σ' ↔ σ.attachIsClean (.command shared (.request c (.attach id) reply) env) := by
  have hrest' := hrest.event h
  rcases wsAttach_fails h hfails with ⟨hfree, hsame⟩ | ⟨s, s', hs, hatt, hs', hactive⟩
  · constructor
    · intro _
      exact hfree
    · intro _
      exact .of_sessions hrest hrest' hsame
  · constructor
    · intro hleft
      have hstate : s'.state = s.state := congrArg Hold.state (hleft.same hs hs')
      rw [hactive, hatt] at hstate
      cases hstate
    · intro hclean
      exact absurd hatt (hclean s hs)

/-- Whoever asks, and wherever it fails: a failed attach leaves the session as it was exactly where
it was clean. -/
theorem failed_attach_iff (hreach : (occurrences J).Reachable σ) (hid : e.attaches = some id)
    (h : σ.event J e = .ok σ') (hfails : σ.attachFails J e) :
    LeftAlone id σ σ' ↔ σ.attachIsClean e := by
  have hrest := occurrences_atRest hreach
  cases e with
  | request fd result consumed env =>
    cases result with
    | error message => cases hid
    | ok request =>
      cases request with
      | attach i =>
        cases hid
        exact request_leftAlone_iff hrest h hfails
      | _ => cases hid
  | command shared cmd env =>
    cases cmd with
    | request c request reply =>
      cases request with
      | attach i =>
        cases hid
        exact command_leftAlone_iff hrest h hfails
      | _ => cases hid
    | _ => cases hid
  | _ => cases hid

private def sendFails : Env := { calmLater with fdSent := false }

private def unhanded : Event := .request 5 (.ok (.attach 7)) 0 sendFails

private def createdSession : List Occurrence :=
  [.event (.accept 5), .event (.request 5 (.ok (.create none 80 24 none none none)) 0 calm)]

/-- The answer to an Attach, and whether the descriptor goes out after it. -/
private def handed (σ : Server) : Response × Bool :=
  let attached := σ.handleAttach sendFails 5 7
  (attached.2, ((attached.1.answer sendFails 5 attached.2 0).sendAttachData sendFails 5 7).2)

private theorem unhanded_fails
    (h : σ.handed = (.attachReady 7 80 24 100 "/ptyd-00000000" none, false)) :
    σ.attachFails silent unhanded := by
  obtain ⟨hready, hsent⟩ := Prod.mk.inj h
  simp only [attachFails, unhanded]
  rw [hready] at hsent ⊢
  exact hsent

private theorem reachable_of_exec {ms : List Occurrence}
    (h : (occurrences silent).exec (Server.new 3 none 0) ms = some σ) :
    (occurrences silent).Reachable σ := by
  have hstart : (occurrences silent).Reachable (Server.new 3 none 0) := .start ⟨3, none, 0, rfl⟩
  exact hstart.exec h

/-- The descriptor of a new session does not go out. -/
theorem failed_attach_iff_new :
    ∃ σ σ' s, (occurrences silent).Reachable σ ∧ σ.event silent unhanded = .ok σ' ∧
      σ.attachFails silent unhanded ∧ LeftAlone 7 σ σ' ∧ σ.sessions.lookup 7 = some s := by
  have hrun : (((occurrences silent).exec (Server.new 3 none 0) createdSession).bind fun σ =>
      (σ.event silent unhanded).toOption.bind fun _ => (σ.sessions.lookup 7).map fun s =>
        (s.state, s.gridSnapshot, σ.handed)) =
      some (.active, none, .attachReady 7 80 24 100 "/ptyd-00000000" none, false) := by
    decide +kernel
  obtain ⟨σ, hexec, hfacts⟩ := Option.bind_eq_some_iff.mp hrun
  obtain ⟨σ', hσ', hfacts⟩ := Option.bind_eq_some_iff.mp hfacts
  obtain ⟨s, hs, hfacts⟩ := Option.map_eq_some_iff.mp hfacts
  obtain ⟨hstate, hrest⟩ := Prod.mk.inj hfacts
  obtain ⟨hsnapshot, hhanded⟩ := Prod.mk.inj hrest
  have hreach := reachable_of_exec hexec
  have hevent := ok_of_toOption hσ'
  have hfails := unhanded_fails hhanded
  refine ⟨σ, σ', s, hreach, hevent, hfails, ?_, hs⟩
  apply (failed_attach_iff hreach rfl hevent hfails).mpr
  intro _ t ht
  cases hs.symm.trans ht
  exact ⟨hstate, hsnapshot⟩

private def deadEnv : Env := { calmLater with childAlive := fun _ => false }

private def childGone : Event := .command .new (.request 0 (.attach 7) 0) deadEnv

private def deadResponse (σ : Server) : Option Response :=
  ({ σ with wsShared := .new }.handleWsAttach silent deadEnv 7).toOption.map Prod.snd

private theorem childGone_fails (h : σ.deadResponse = some (childDead 7)) :
    σ.attachFails silent childGone := by
  obtain ⟨p, hp, hresponse⟩ := Option.map_eq_some_iff.mp h
  have hattach : { σ with wsShared := .new }.handleWsAttach silent deadEnv 7 =
      .ok (p.1, childDead 7) := by
    rw [ok_of_toOption hp, ← hresponse]
  exact ⟨_, _, hattach⟩

/-- The descriptor of a session with a stored snapshot does not go out, and the snapshot is gone; a
WebSocket client is told that the child is dead, and the owner has lost the session. -/
theorem failed_attach_disturbs :
    (∃ σ σ' s s', (occurrences silent).Reachable σ ∧ σ.event silent unhanded = .ok σ' ∧
      σ.attachFails silent unhanded ∧ σ.sessions.lookup 7 = some s ∧
      σ'.sessions.lookup 7 = some s' ∧ s.gridSnapshot = some (.given "screen") ∧
      s'.gridSnapshot = none ∧ ¬ LeftAlone 7 σ σ') ∧
    ∃ σ σ' s s', (occurrences silent).Reachable σ ∧ σ.event silent childGone = .ok σ' ∧
      σ.attachFails silent childGone ∧ σ.sessions.lookup 7 = some s ∧
      σ'.sessions.lookup 7 = some s' ∧ s.state = .attached ∧ s'.state = .active ∧
      ¬ LeftAlone 7 σ σ' := by
  constructor
  · have hrun : (((occurrences silent).exec (Server.new 3 none 0) (createdSession ++
        [.event (.request 5 (.ok (.detach 7 0 0 (some "screen"))) 0 calmLater)])).bind fun σ =>
        (σ.event silent unhanded).toOption.bind fun σ' => (σ.sessions.lookup 7).bind fun s =>
          (σ'.sessions.lookup 7).map fun s' => (s.gridSnapshot, s'.gridSnapshot, σ.handed)) =
        some (some (.given "screen"), none,
          .attachReady 7 80 24 100 "/ptyd-00000000" none, false) := by decide +kernel
    obtain ⟨σ, hexec, hfacts⟩ := Option.bind_eq_some_iff.mp hrun
    obtain ⟨σ', hσ', hfacts⟩ := Option.bind_eq_some_iff.mp hfacts
    obtain ⟨s, hs, hfacts⟩ := Option.bind_eq_some_iff.mp hfacts
    obtain ⟨s', hs', hfacts⟩ := Option.map_eq_some_iff.mp hfacts
    obtain ⟨hbefore, hrest⟩ := Prod.mk.inj hfacts
    obtain ⟨hafter, hhanded⟩ := Prod.mk.inj hrest
    refine ⟨σ, σ', s, s', reachable_of_exec hexec, ok_of_toOption hσ', unhanded_fails hhanded,
      hs, hs', hbefore, hafter, fun hleft => ?_⟩
    have hsame : s'.gridSnapshot = s.gridSnapshot :=
      congrArg Hold.gridSnapshot (hleft.same hs hs')
    rw [hbefore, hafter] at hsame
    cases hsame
  · have hrun : (((occurrences silent).exec (Server.new 3 none 0) (createdSession ++
        [.event (.request 5 (.ok (.attach 7)) 0 calmLater)])).bind fun σ =>
        (σ.event silent childGone).toOption.bind fun σ' => (σ.sessions.lookup 7).bind fun s =>
          (σ'.sessions.lookup 7).map fun s' => (s.state, s'.state, σ.deadResponse)) =
        some (.attached, .active, some (childDead 7)) := by decide +kernel
    obtain ⟨σ, hexec, hfacts⟩ := Option.bind_eq_some_iff.mp hrun
    obtain ⟨σ', hσ', hfacts⟩ := Option.bind_eq_some_iff.mp hfacts
    obtain ⟨s, hs, hfacts⟩ := Option.bind_eq_some_iff.mp hfacts
    obtain ⟨s', hs', hfacts⟩ := Option.map_eq_some_iff.mp hfacts
    obtain ⟨hbefore, hrest⟩ := Prod.mk.inj hfacts
    obtain ⟨hafter, hdead⟩ := Prod.mk.inj hrest
    refine ⟨σ, σ', s, s', reachable_of_exec hexec, ok_of_toOption hσ', childGone_fails hdead,
      hs, hs', hbefore, hafter, fun hleft => ?_⟩
    have hsame : s'.state = s.state := congrArg Hold.state (hleft.same hs hs')
    rw [hbefore, hafter] at hsame
    cases hsame

end Server

end PtyDaemon
