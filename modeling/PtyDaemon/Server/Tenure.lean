import PtyDaemon.Server.Connections
import PtyDaemon.Server.Parser

/-!
# Who has had a session

The history of the local owners of a session: who got it, who was displaced by a takeover, to whom
it was offered back. Every event either makes one entry or lets tenures lapse.
-/

namespace PtyDaemon

/-- An entry of the history; `left` is a Detach the client has sent itself. -/
inductive TenureNote
  | held (id : Uuid) (conn : Nat)
  | displaced (id : Uuid) (conn : Nat)
  | offered (id : Uuid) (conn : Nat)
  | left (id : Uuid) (conn : Nat)
  deriving DecidableEq

def Act.tenureNote : Act → Option TenureNote
  | .attached id (some conn) => some (.held id conn)
  | .returned id conn => some (.held id conn)
  | .takenOver id (some conn) => some (.displaced id conn)
  | .sent conn (.push (.resumeAttach id _ _ _ _ _)) => some (.offered id conn)
  | _ => none

namespace Server

variable {G : Uuid → Prop} {J : Codec} {env : Env} {σ σ' σ'' τ : Server} {id : Uuid} {s : Session}
  {e : Event}

/-- The entries the trace holds, newest first. -/
def tenures (σ : Server) : List TenureNote := σ.trace.filterMap Act.tenureNote

/-- An attachment of the session would succeed. -/
def grants (env : Env) (σ : Server) (id : Uuid) : Prop :=
  ∃ s, σ.sessions.lookup id = some s ∧ s.state ≠ .attached ∧ env.childAlive s.childPid = true ∧
    env.dup.isSome = true

/-- What is left of a session's tenures when nobody gets it and nobody is displaced. -/
structure Lapsed (s s' : Session) : Prop where
  state : s'.state = .attached → s.state = .attached ∧ s'.ownerFd = s.ownerFd
  previous : ∀ fd, s'.previousOwnerFd = some fd → s.previousOwnerFd = some fd

/-- Nobody has the session, and nobody is waiting for it. -/
def Bare (t : Session) : Prop := t.state ≠ .attached ∧ t.previousOwnerFd = none

/-- Tenures at most end, and no entry is made. -/
structure Lapses (σ σ' : Server) : Prop where
  sessions : ∀ {id s'}, σ'.sessions.lookup id = some s' →
    Bare s' ∨ ∃ s, σ.sessions.lookup id = some s ∧ Lapsed s s'
  conns : ∀ {fd conn}, σ'.connOf fd = some conn → σ.connOf fd = some conn
  tenures : σ'.tenures = σ.tenures

theorem Lapsed.refl (s : Session) : Lapsed s s := ⟨fun h => ⟨h, rfl⟩, fun _ h => h⟩

private theorem Lapsed.trans {s s' s'' : Session} (h : Lapsed s s') (h' : Lapsed s' s'') :
    Lapsed s s'' where
  state hstate :=
    ⟨(h.state (h'.state hstate).1).1,
      (h'.state hstate).2.trans (h.state (h'.state hstate).1).2⟩
  previous fd hfd := h.previous fd (h'.previous fd hfd)

theorem Lapsed.none {s s' : Session} (h : Lapsed s s') (hnone : s.previousOwnerFd = none) :
    s'.previousOwnerFd = none := by
  cases hprevious : s'.previousOwnerFd with
  | none => rfl
  | some fd =>
    have hfd := h.previous fd hprevious
    rw [hnone] at hfd
    cases hfd

private theorem Lapsed.bare {s s' : Session} (h : Lapsed s s') (hbare : Bare s) : Bare s' :=
  ⟨fun hstate => hbare.1 (h.state hstate).1, h.none hbare.2⟩

theorem Lapsed.of_eq {s s' : Session} (hstate : s'.state = s.state)
    (howner : s'.ownerFd = s.ownerFd) (hprevious : s'.previousOwnerFd = s.previousOwnerFd) :
    Lapsed s s' :=
  ⟨fun h => ⟨hstate ▸ h, howner⟩, fun _ h => hprevious ▸ h⟩

/-- A session nobody has attached. -/
theorem Lapsed.of_free {s s' : Session} (hfree : s'.state ≠ .attached)
    (hprevious : ∀ fd, s'.previousOwnerFd = some fd → s.previousOwnerFd = some fd) :
    Lapsed s s' := ⟨fun h => absurd h hfree, hprevious⟩

namespace Lapses

/-- Where the sessions and the clients are the same. -/
theorem same (hsessions : σ'.sessions = σ.sessions) (hclients : σ'.clients = σ.clients)
    (htenures : σ'.tenures = σ.tenures) : Lapses σ σ' where
  sessions hs := .inr ⟨_, hsessions ▸ hs, .refl _⟩
  conns hconn := by rwa [connOf, hclients] at hconn
  tenures := htenures

theorem refl (σ : Server) : Lapses σ σ := same rfl rfl rfl

theorem trans (h : Lapses σ σ') (h' : Lapses σ' σ'') : Lapses σ σ'' where
  sessions := by
    intro id s'' hs''
    rcases h'.sessions hs'' with hnew | ⟨s', hs', hlapsed'⟩
    · exact .inl hnew
    · rcases h.sessions hs' with hbare | ⟨s, hs, hlapsed⟩
      · exact .inl (hlapsed'.bare hbare)
      · exact .inr ⟨s, hs, hlapsed.trans hlapsed'⟩
  conns hconn := h.conns (h'.conns hconn)
  tenures := h'.tenures.trans h.tenures

theorem emit (h : Lapses σ σ') {act : Act} (hact : act.tenureNote = none) :
    Lapses σ (σ'.emit act) where
  sessions := h.sessions
  conns := h.conns
  tenures := by
    rw [← h.tenures, Server.tenures, Server.tenures, Server.emit, List.filterMap_cons_none hact]

/-- One session is replaced. -/
theorem put (h : Lapses σ τ) (hs : σ.sessions.lookup id = some s) (s' : Session)
    (hlapsed : Lapsed s s') (hsessions : σ'.sessions = τ.sessions.insert id s')
    (hclients : σ'.clients = τ.clients) (htenures : σ'.tenures = τ.tenures) : Lapses σ σ' where
  sessions := by
    intro i t ht
    rw [hsessions, Table.lookup_insert] at ht
    split at ht
    · rename_i hi
      cases ht
      exact .inr ⟨s, hi ▸ hs, hlapsed⟩
    · exact h.sessions ht
  conns hconn := by
    apply h.conns
    rwa [connOf, hclients] at hconn
  tenures := htenures.trans h.tenures

/-- Sessions are only removed. -/
theorem removed (h : Lapses σ τ)
    (hsessions : ∀ i, σ'.sessions.lookup i = none ∨ σ'.sessions.lookup i = τ.sessions.lookup i)
    (hclients : σ'.clients = τ.clients) (htenures : σ'.tenures = τ.tenures) : Lapses σ σ' where
  sessions := by
    intro i t ht
    rcases hsessions i with hnone | hsame
    · rw [hnone] at ht
      cases ht
    · exact h.sessions (hsame ▸ ht)
  conns hconn := by
    apply h.conns
    rwa [connOf, hclients] at hconn
  tenures := htenures.trans h.tenures

end Lapses

/-! ## Handlers under which tenures only lapse -/

private theorem Session.detach_lapsed (s : Session) (snapshot : Option GridSnapshot) :
    Lapsed s (s.detach snapshot) :=
  .of_free (fun h => by cases h) fun _ h => h

theorem handleDetach_lapses (σ : Server) (id : Uuid) (cols rows : UInt16)
    (snapshot : Option GridSnapshot) : Lapses σ (σ.handleDetach id cols rows snapshot).1 := by
  unfold handleDetach
  split
  · exact .refl σ
  · rename_i s hs
    have hdetached : Lapses σ ((σ.putSession id (s.detach snapshot)).register s.masterFd) :=
      (Lapses.refl σ).put hs _ (Session.detach_lapsed s snapshot) rfl rfl rfl
    dsimp only
    split
    · refine Lapses.emit ?_ rfl
      have hlapsed : Lapsed s ((s.detach snapshot).resized cols rows) :=
        (Session.detach_lapsed s snapshot).trans (.of_eq rfl rfl rfl)
      exact hdetached.put hs ((s.detach snapshot).resized cols rows) hlapsed rfl rfl rfl
    · exact hdetached

private theorem closePending_lapses (σ : Server) (id : Uuid) : Lapses σ (σ.closePending id) := by
  unfold closePending
  split
  · exact .refl σ
  · exact .same rfl rfl rfl

private theorem revertAttach_lapses (σ : Server) (id : Uuid) : Lapses σ (σ.revertAttach id) := by
  have hclosed := closePending_lapses σ id
  have hsessions := closePending_sessions σ id
  unfold revertAttach
  dsimp only
  split
  · exact hclosed
  · rename_i s hs
    rw [hsessions] at hs
    exact hclosed.put hs _ (Session.detach_lapsed s none) rfl rfl rfl

private theorem sendAttachData_lapses (env : Env) (σ : Server) (fd : RawFd) (id : Uuid) :
    Lapses σ (σ.sendAttachData env fd id).1 := by
  unfold sendAttachData
  split
  · exact .refl σ
  · dsimp only
    split
    · exact .same rfl rfl rfl
    · dsimp only
      split
      · exact (Lapses.emit (.same rfl rfl rfl) rfl).trans (.same rfl rfl rfl)
      · exact .same rfl rfl rfl

theorem passOn_lapses (env : Env) (σ : Server) (fd : RawFd) (response : Response) :
    Lapses σ (σ.passOn env fd response) := by
  unfold passOn
  split
  · dsimp only
    split
    · exact sendAttachData_lapses ..
    · exact (sendAttachData_lapses ..).trans (revertAttach_lapses ..)
  · exact .refl σ

/-- A buffer changes. -/
theorem Lapses.putClient {fd : RawFd} {client client' : ClientState} (h : Lapses σ τ)
    (hclient : τ.clients.lookup fd = some client) (hstream : client'.stream = client.stream) :
    Lapses σ (τ.putClient fd client') where
  sessions := h.sessions
  conns hconn := h.conns ((Aside.putClient hclient hstream).clients _ ▸ hconn)
  tenures := h.tenures

theorem answer_lapses (env : Env) (σ : Server) (fd : RawFd) (response : Response)
    (consumed : Nat) : Lapses σ (σ.answer env fd response consumed) := by
  unfold answer
  split
  · exact .refl σ
  · rename_i client hclient
    dsimp only
    split
    · exact Lapses.putClient ((Lapses.refl σ).emit rfl) hclient rfl
    · exact Lapses.putClient ((Lapses.refl σ).emit rfl) hclient rfl

theorem waitForDetachAck_lapses (J : Codec) (fd : RawFd) (id : Uuid) (reads : List AckRead)
    (σ : Server) : Lapses σ (waitForDetachAck J fd id reads σ).1 := by
  induction reads generalizing σ with
  | nil => exact .refl σ
  | cons read reads ih =>
    unfold waitForDetachAck
    split
    · rename_i client _ hclient
      have hput : ∀ buf, Lapses σ (σ.putClient fd { client with readBuf := buf }) := fun buf =>
        (Lapses.refl σ).putClient hclient rfl
      dsimp only
      split
      · exact (hput _).trans (ih _)
      · split
        · split
          · exact hput _
          · exact hput _
        · exact hput _
        · exact hput _
    · exact .refl σ

theorem handleWinsizeUpdate_lapses (σ : Server) (id : Uuid) (cols rows : UInt16) :
    Lapses σ (σ.handleWinsizeUpdate id cols rows).1 := by
  unfold handleWinsizeUpdate
  split
  · exact .refl σ
  · rename_i s hs
    have hresized : Lapses σ (σ.putSession id ((s.resized cols rows).resizeParser cols rows)) :=
      (Lapses.refl σ).put hs ((s.resized cols rows).resizeParser cols rows) (.of_eq rfl rfl rfl) rfl
        rfl rfl
    dsimp only
    split
    · exact hresized
    · split
      · exact hresized.emit rfl
      · exact (hresized.emit rfl).emit rfl

theorem handleWsInput_lapses (env : Env) (σ : Server) (id : Uuid) (data : List UInt8) :
    Lapses σ (σ.handleWsInput env id data) := by
  unfold handleWsInput
  split
  · exact .refl σ
  · exact (Lapses.refl σ).emit rfl

theorem handleRemoteInput_lapses (J : Codec) (env : Env) (σ : Server) (id : Uuid)
    (data : String) : Lapses σ (σ.handleRemoteInput J env id data).1 := by
  unfold handleRemoteInput
  split
  · exact .refl σ
  · exact handleWsInput_lapses ..

theorem handleCreate_lapses {shell : Option String} {cols rows : UInt16}
    {workingDir : Option String} {terminalId : Option UInt32}
    {envs : Option (List (String × String))} {p : Server × Response}
    (h : σ.handleCreate env shell cols rows workingDir terminalId envs = .ok p) :
    Lapses σ p.1 := by
  unfold handleCreate at h
  split at h
  · cases h
    exact .refl σ
  · dsimp only at h
    split at h
    · cases h
    · cases h
    · cases h
      constructor
      · intro i t ht
        rw [lookup_putSession] at ht
        split at ht
        · cases ht
          exact .inl ⟨fun h => (by cases h), rfl⟩
        · exact .inr ⟨t, ht, .refl t⟩
      · exact fun hconn => hconn
      · rfl

private theorem cleanupSession_tenures (env : Env) (σ : Server) (s : Session) :
    (σ.cleanupSession env s).tenures = σ.tenures := by
  unfold cleanupSession
  dsimp only
  split <;> rfl

private theorem dropSession_tenures (env : Env) (σ : Server) (s : Session) :
    (σ.dropSession env s).tenures = σ.tenures := by
  unfold dropSession
  split
  · exact cleanupSession_tenures ..
  · rfl

theorem handleKill_lapses (env : Env) (σ : Server) (id : Uuid) :
    Lapses σ (σ.handleKill env id).1 := by
  refine (Lapses.refl σ).removed (handleKill_removed env σ id) (handleKill_unheard ..).clients ?_
  unfold handleKill
  split
  · rfl
  · exact cleanupSession_tenures ..

theorem handleChildExit_lapses (env : Env) (σ : Server) (pid : Pid) :
    Lapses σ (σ.handleChildExit env pid) := by
  refine (Lapses.refl σ).removed (handleChildExit_removed env σ pid)
    (handleChildExit_unheard ..).clients ?_
  unfold handleChildExit
  split
  · rfl
  · dsimp only
    split
    · rfl
    · exact dropSession_tenures ..

theorem reapDead_lapses (env : Env) (σ : Server) : Lapses σ (σ.reapDead env) := by
  have hdrop : ∀ (dead : List Session) (τ : Server),
      (dead.foldl (fun σ s => (σ.removeSession s.id).dropSession env s) τ).tenures =
        τ.tenures := by
    intro dead
    induction dead with
    | nil => exact fun τ => rfl
    | cons s dead ih => exact fun τ => (ih _).trans (dropSession_tenures env _ s)
  have htell : ∀ (dead : List Session) (τ : Server),
      (dead.foldl (fun σ s => (σ.unregister s.masterFd).notifySessionEnded s.id) τ).tenures =
        τ.tenures := by
    intro dead
    induction dead with
    | nil => exact fun τ => rfl
    | cons s dead ih => exact fun τ => ih ((τ.unregister s.masterFd).notifySessionEnded s.id)
  refine (Lapses.refl σ).removed (reapDead_removed env σ) (reapDead_unheard env σ).clients ?_
  exact (htell _ _).trans (hdrop _ _)

private theorem Session.afterOutput_lapsed {s : Session} (hfree : s.state ≠ .attached) (now : Nat)
    (bytes : List UInt8) : Lapsed s (s.afterOutput now bytes) := by
  apply Lapsed.of_free
  · exact s.afterOutput_free hfree now bytes
  · intro x hx
    have hprevious : (s.afterOutput now bytes).previousOwnerFd = s.previousOwnerFd :=
      congrArg Core.previousOwnerFd (s.afterOutput_core now bytes)
    exact hprevious ▸ hx

theorem handleSessionOutput_lapses (hinv : Inv σ) (env : Env) (fd : RawFd) (read : PtyRead) :
    Lapses σ (σ.handleSessionOutput env fd read) := by
  cases handleSessionOutput_ends hinv.sessionsOpen.key env fd read with
  | ignored _ h =>
    rw [h]
    exact .refl σ
  | @absorbed i s bytes _ _ hs hfree _ h =>
    rw [h]
    have hput : Lapses σ (σ.putSession i (s.afterOutput env.now bytes)) :=
      (Lapses.refl σ).put hs _ (Session.afterOutput_lapsed hfree env.now bytes) rfl rfl rfl
    exact ⟨hput.sessions, hput.conns, hput.tenures⟩
  | @ended i s _ _ _ _ _ h =>
    rw [h]
    refine (Lapses.refl σ).removed ?_ (dropSession_unheard ..).clients (dropSession_tenures ..)
    intro x
    rw [drop_sessions]
    exact lookup_removeSession σ i x

theorem handleClientDisconnect_lapses (hinv : Inv σ) {fd : RawFd} {conn : Nat}
    (hconn : σ.connOf fd = some conn) (h : σ.handleClientDisconnect fd = .ok σ') :
    Lapses σ σ' := by
  have hdisc := handleClientDisconnect_disconnected hinv hconn h
  have hforget : ∀ s : Session, Lapsed s (s.forget fd) := by
    intro s
    unfold Session.forget
    split
    · exact ⟨fun h => ⟨h, rfl⟩, fun _ h => by cases h⟩
    · exact .refl s
  constructor
  · intro id t ht
    right
    cases hs : σ.sessions.lookup id with
    | none =>
      rw [hdisc.absent hs] at ht
      cases ht
    | some s =>
      refine ⟨s, rfl, ?_⟩
      by_cases howner : s.ownerFd = some fd
      · obtain ⟨ringData, _, hs'⟩ := hdisc.owned hs howner
        rw [hs'] at ht
        cases ht
        exact (hforget s).trans (.of_free (fun h => by cases h) fun _ h => h)
      · rw [hdisc.others hs howner] at ht
        cases ht
        exact hforget s
  · intro x conn' hconn'
    rw [hdisc.conns] at hconn'
    split at hconn'
    · cases hconn'
    · exact hconn'
  · rw [tenures, hdisc.trace]
    rfl

/-! ## Handlers that make an entry -/

/-- The session gets to satisfy `Q`, with the entries made for it; the tenures of the others
lapse. -/
structure Passes (id : Uuid) (Q : Session → Prop) (entries : List TenureNote) (σ σ' : Server) :
    Prop where
  target : ∀ {t}, σ'.sessions.lookup id = some t → Q t
  others : ∀ {i t}, i ≠ id → σ'.sessions.lookup i = some t →
    Bare t ∨ ∃ s, σ.sessions.lookup i = some s ∧ Lapsed s t
  conns : ∀ {fd conn}, σ'.connOf fd = some conn → σ.connOf fd = some conn
  tenures : σ'.tenures = entries ++ σ.tenures

private theorem Passes.after {Q : Session → Prop} {entries : List TenureNote} (h : Lapses σ τ)
    (h' : Passes id Q entries τ σ') : Passes id Q entries σ σ' where
  target := h'.target
  others := by
    intro i t hi ht
    rcases h'.others hi ht with hbare | ⟨s', hs', hlapsed'⟩
    · exact .inl hbare
    · rcases h.sessions hs' with hbare | ⟨s, hs, hlapsed⟩
      · exact .inl (hlapsed'.bare hbare)
      · exact .inr ⟨s, hs, hlapsed.trans hlapsed'⟩
  conns hconn := h.conns (h'.conns hconn)
  tenures := by rw [h'.tenures, h.tenures]

/-- `Q` also holds when tenures lapse. -/
structure Lasting (Q : Session → Prop) : Prop where
  lapsed : ∀ {t t'}, Q t → Lapsed t t' → Q t'
  bare : ∀ {t : Session}, Bare t → Q t

theorem Passes.then {Q : Session → Prop} {entries : List TenureNote} (hQ : Lasting Q)
    (h : Passes id Q entries σ τ) (h' : Lapses τ σ') : Passes id Q entries σ σ' where
  target := by
    intro t ht
    rcases h'.sessions ht with hbare | ⟨s, hs, hlapsed⟩
    · exact hQ.bare hbare
    · exact hQ.lapsed (h.target hs) hlapsed
  others := by
    intro i t hi ht
    rcases h'.sessions ht with hbare | ⟨s', hs', hlapsed'⟩
    · exact .inl hbare
    · rcases h.others hi hs' with hbare | ⟨s, hs, hlapsed⟩
      · exact .inl (hlapsed'.bare hbare)
      · exact .inr ⟨s, hs, hlapsed.trans hlapsed'⟩
  conns hconn := h.conns (h'.conns hconn)
  tenures := by rw [h'.tenures, h.tenures]

/-- Whoever has attached the session is on `fd`, and the displaced owner is one of before. -/
def AttachedOn (σ : Server) (id : Uuid) (fd : RawFd) (t : Session) : Prop :=
  (t.state = .attached → t.ownerFd = some fd) ∧
    ∀ x, t.previousOwnerFd = some x →
      ∃ s, σ.sessions.lookup id = some s ∧ s.previousOwnerFd = some x

def TakenFrom (fd : RawFd) (t : Session) : Prop :=
  t.state ≠ .attached ∧ ∀ x, t.previousOwnerFd = some x → x = fd

def ReturnedOn (fd : RawFd) (t : Session) : Prop :=
  (t.state = .attached → t.ownerFd = some fd) ∧ t.previousOwnerFd = none

theorem attachedOn_lasting (σ : Server) (id : Uuid) (fd : RawFd) :
    Lasting (AttachedOn σ id fd) where
  lapsed h hlapsed :=
    ⟨fun hstate => (hlapsed.state hstate).2.trans (h.1 (hlapsed.state hstate).1),
      fun x hx => h.2 x (hlapsed.previous x hx)⟩
  bare hbare :=
    ⟨fun hstate => absurd hstate hbare.1, fun x hx => by rw [hbare.2] at hx; cases hx⟩

private theorem takenFrom_lasting (fd : RawFd) : Lasting (TakenFrom fd) where
  lapsed h hlapsed :=
    ⟨fun hstate => h.1 (hlapsed.state hstate).1, fun x hx => h.2 x (hlapsed.previous x hx)⟩
  bare hbare := ⟨hbare.1, fun x hx => by rw [hbare.2] at hx; cases hx⟩

private theorem bare_lasting : Lasting Bare where
  lapsed h hlapsed := hlapsed.bare h
  bare hbare := hbare

private theorem returnedOn_lasting (fd : RawFd) : Lasting (ReturnedOn fd) where
  lapsed h hlapsed :=
    ⟨fun hstate => (hlapsed.state hstate).2.trans (h.1 (hlapsed.state hstate).1),
      hlapsed.none h.2⟩
  bare hbare := ⟨fun hstate => absurd hstate hbare.1, hbare.2⟩

/-- What an event makes of the tenures. The session that is attached is one in `G`. -/
inductive Turnover (G : Uuid → Prop) (σ σ' : Server) : Prop
  | lapses (h : Lapses σ σ')
  | attached {id : Uuid} {fd : RawFd} {conn : Nat} (hG : G id) (hconn : σ.connOf fd = some conn)
      (h : Passes id (AttachedOn σ id fd) [.held id conn] σ σ')
  | taken {id : Uuid} {s : Session} {fd : RawFd} {conn : Nat}
      (hs : σ.sessions.lookup id = some s) (hstate : s.state = .attached)
      (howner : s.ownerFd = some fd) (hconn : σ.connOf fd = some conn)
      (h : Passes id (TakenFrom fd) [.displaced id conn] σ σ')
  | refused {id : Uuid} {s : Session} {fd : RawFd} {conn : Nat}
      (hs : σ.sessions.lookup id = some s) (hprevious : s.previousOwnerFd = some fd)
      (hconn : σ.connOf fd = some conn) (h : Passes id Bare [.offered id conn] σ σ')
  | returned {id : Uuid} {s : Session} {fd : RawFd} {conn : Nat}
      (hs : σ.sessions.lookup id = some s) (hprevious : s.previousOwnerFd = some fd)
      (hconn : σ.connOf fd = some conn)
      (h : Passes id (ReturnedOn fd) [.held id conn, .offered id conn] σ σ')

private theorem Turnover.then (h : Turnover G σ τ) (h' : Lapses τ σ') : Turnover G σ σ' := by
  cases h with
  | lapses h => exact .lapses (h.trans h')
  | attached hG hconn h => exact .attached hG hconn (h.then (attachedOn_lasting ..) h')
  | taken hs hstate howner hconn h =>
    exact .taken hs hstate howner hconn (h.then (takenFrom_lasting _) h')
  | refused hs hprevious hconn h => exact .refused hs hprevious hconn (h.then bare_lasting h')
  | returned hs hprevious hconn h =>
    exact .returned hs hprevious hconn (h.then (returnedOn_lasting _) h')

/-- One session is replaced, and the entries are made. -/
theorem Passes.put {Q : Session → Prop} {entries : List TenureNote} (h : Lapses σ τ)
    (s' : Session) (hQ : Q s') (hsessions : σ'.sessions = τ.sessions.insert id s')
    (hclients : σ'.clients = τ.clients) (htenures : σ'.tenures = entries ++ τ.tenures) :
    Passes id Q entries σ σ' := by
  have hput : Passes id Q entries τ σ' := by
    constructor
    · intro t ht
      rw [hsessions, Table.lookup_insert, if_pos rfl] at ht
      cases ht
      exact hQ
    · intro i t hi ht
      rw [hsessions, Table.lookup_insert, if_neg hi] at ht
      exact .inr ⟨t, ht, .refl t⟩
    · intro fd conn hconn
      rwa [connOf, hclients] at hconn
    · exact htenures
  exact hput.after h

theorem writeSnapshot_tenures (env : Env) (σ : Server) (id : Uuid)
    (snapshot : Option GridSnapshot) : (σ.writeSnapshot env id snapshot).tenures = σ.tenures := by
  unfold writeSnapshot
  split <;> rfl

private theorem handleAttach_turnover {fd : RawFd} {conn : Nat} (hconn : σ.connOf fd = some conn)
    (hG : σ.grants env id → G id) :
    Turnover G σ (σ.handleAttach env fd id).1 := by
  cases handleAttach_ends env σ fd id with
  | refused _ _ h =>
    rw [h]
    exact .lapses (.refl σ)
  | @granted s d hs hfree halive hdup h =>
    have hgrants : σ.grants env id := ⟨s, hs, hfree, halive, by rw [hdup]; rfl⟩
    have hwritten : Lapses σ ((σ.openFd d (.dup id)).writeSnapshot env id s.currentSnapshot) := by
      have hopened : Lapses σ (σ.openFd d (.dup id)) := .same rfl rfl rfl
      exact hopened.trans (.same (writeSnapshot_sessions ..)
        (writeSnapshot_unheard ..).clients (writeSnapshot_tenures ..))
    rw [h]
    refine .attached (hG hgrants) hconn ?_
    refine Passes.put hwritten (s.clearSnapshot.attach env.now fd) ?_ rfl rfl ?_
    · exact ⟨fun _ => rfl, fun x hx => ⟨s, hs, hx⟩⟩
    · rw [hconn]
      rfl

private theorem forceCompleteTakeover_turnover {fd : RawFd} {conn : Nat}
    (hs : σ.sessions.lookup id = some s) (hstate : s.state = .attached)
    (howner : s.ownerFd = some fd) (hconn : σ.connOf fd = some conn)
    (snapshot : Option GridSnapshot) : Turnover G σ (σ.forceCompleteTakeover id snapshot).1 := by
  unfold forceCompleteTakeover
  simp only [hs, howner, Option.bind_some, hconn]
  refine .taken hs hstate howner hconn ?_
  refine Passes.put (.refl σ) (s.batonDetach snapshot) ⟨fun h => (by cases h), ?_⟩ rfl rfl rfl
  intro x hx
  have hprevious : (s.batonDetach snapshot).previousOwnerFd = some fd := by
    change (if s.ownerFd.isSome then s.ownerFd else s.previousOwnerFd) = some fd
    rw [howner]
    rfl
  rw [hprevious] at hx
  exact (Option.some.inj hx).symm

/-- Of a session that is attached afterwards, or has a displaced owner, there was such a tenure
before. -/
theorem Lapses.attached (h : Lapses σ σ') {s' : Session} {fd : RawFd}
    (hs' : σ'.sessions.lookup id = some s') (hstate : s'.state = .attached)
    (howner : s'.ownerFd = some fd) :
    ∃ s, σ.sessions.lookup id = some s ∧ s.state = .attached ∧ s.ownerFd = some fd := by
  rcases h.sessions hs' with hbare | ⟨s, hs, hlapsed⟩
  · exact absurd hstate hbare.1
  · obtain ⟨hattached, hsame⟩ := hlapsed.state hstate
    exact ⟨s, hs, hattached, hsame ▸ howner⟩

theorem Lapses.previous (h : Lapses σ σ') {s' : Session} {fd : RawFd}
    (hs' : σ'.sessions.lookup id = some s') (hprevious : s'.previousOwnerFd = some fd) :
    ∃ s, σ.sessions.lookup id = some s ∧ s.previousOwnerFd = some fd := by
  rcases h.sessions hs' with hbare | ⟨s, hs, hlapsed⟩
  · rw [hbare.2] at hprevious
    cases hprevious
  · exact ⟨s, hs, hlapsed.previous fd hprevious⟩

private theorem Turnover.after (h : Lapses σ τ) (h' : Turnover G τ σ') : Turnover G σ σ' := by
  cases h' with
  | lapses h' => exact .lapses (h.trans h')
  | attached hG hconn h' =>
    refine .attached hG (h.conns hconn) ⟨fun ht => ?_, (h'.after h).others, (h'.after h).conns,
      (h'.after h).tenures⟩
    obtain ⟨howner, hprevious⟩ := h'.target ht
    refine ⟨howner, fun x hx => ?_⟩
    obtain ⟨s', hs', hx'⟩ := hprevious x hx
    exact h.previous hs' hx'
  | taken hs hstate howner hconn h' =>
    obtain ⟨s, hs, hstate, howner⟩ := h.attached hs hstate howner
    exact .taken hs hstate howner (h.conns hconn) (h'.after h)
  | refused hs hprevious hconn h' =>
    obtain ⟨s, hs, hprevious⟩ := h.previous hs hprevious
    exact .refused hs hprevious (h.conns hconn) (h'.after h)
  | returned hs hprevious hconn h' =>
    obtain ⟨s, hs, hprevious⟩ := h.previous hs hprevious
    exact .returned hs hprevious (h.conns hconn) (h'.after h)

private theorem handleBatonTakeover_turnover (hinv : Inv σ) (J : Codec) (env : Env) (id : Uuid) :
    Turnover G σ (σ.handleBatonTakeover J env id).1 := by
  cases handleBatonTakeover_cases J env σ id with
  | unowned hnone h =>
    rw [h]
    exact .lapses (handleDetach_lapses ..)
  | unreached hs hstate howner hnot h =>
    rw [h]
    obtain ⟨conn, hconn, _⟩ := (hinv.session (coreOf_eq_some hs)).owner _ howner
    exact forceCompleteTakeover_turnover hs hstate howner hconn none
  | @unwritten s fd client hs hstate howner hclient hpush h =>
    rw [h]
    obtain ⟨conn, hconn, _⟩ := (hinv.session (coreOf_eq_some hs)).owner _ howner
    have hcut : Lapses σ (σ.emit (.cut client.stream (.push (.forceDetach id)) env.cut)) :=
      (Lapses.refl σ).emit rfl
    apply Turnover.after hcut
    exact forceCompleteTakeover_turnover
      (show (σ.emit _).sessions.lookup id = some s from hs) hstate howner
      (show (σ.emit _).connOf fd = some conn from hconn) none
  | @pushed s fd client hs hstate howner hclient hpush h =>
    rw [h]
    obtain ⟨conn, hconn, _⟩ := (hinv.session (coreOf_eq_some hs)).owner _ howner
    have hpushed : Lapses σ (σ.emit (.sent client.stream (.push (.forceDetach id)))) :=
      (Lapses.refl σ).emit rfl
    have hwaited := hpushed.trans (waitForDetachAck_lapses J fd id env.ackReads _)
    apply Turnover.after hwaited
    have haside := waitForDetachAck_aside J fd id env.ackReads
      (σ.emit (.sent client.stream (.push (.forceDetach id))))
    have hsessions := waitForDetachAck_sessions J fd id env.ackReads
      (σ.emit (.sent client.stream (.push (.forceDetach id))))
    refine forceCompleteTakeover_turnover ?_ hstate howner ((haside.clients fd).trans hconn) _
    rw [hsessions]
    exact hs

/-- The same session once more. -/
theorem Passes.next {Q R : Session → Prop} {entries entries' : List TenureNote}
    (h : Passes id Q entries σ τ) (h' : Passes id R entries' τ σ') :
    Passes id R (entries' ++ entries) σ σ' where
  target := h'.target
  others := by
    intro i t hi ht
    rcases h'.others hi ht with hbare | ⟨s', hs', hlapsed'⟩
    · exact .inl hbare
    · rcases h.others hi hs' with hbare | ⟨s, hs, hlapsed⟩
      · exact .inl (hlapsed'.bare hbare)
      · exact .inr ⟨s, hs, hlapsed.trans hlapsed'⟩
  conns hconn := h.conns (h'.conns hconn)
  tenures := by rw [h'.tenures, h.tenures, List.append_assoc]

private theorem handleDetach_bare (hs : σ.sessions.lookup id = some s)
    (hnone : s.previousOwnerFd = none)
    (snapshot : Option GridSnapshot) :
    Passes id Bare [] σ (σ.handleDetach id 0 0 snapshot).1 := by
  unfold handleDetach
  simp only [hs]
  exact Passes.put (.refl σ) (s.detach snapshot) ⟨fun h => (by cases h), hnone⟩ rfl rfl rfl

private theorem handleBatonRelease_turnover (env : Env) (σ : Server) (id : Uuid) :
    Turnover G σ (σ.handleBatonRelease env id).1 := by
  have hcleared : ∀ {τ : Server} {s : Session}, σ.sessions.lookup id = some s → Lapses σ τ →
      Lapses σ (τ.putSession id s.clearPrevious) := by
    intro τ s hs h
    exact h.put hs s.clearPrevious ⟨fun h => ⟨h, rfl⟩, fun _ h => by cases h⟩ rfl rfl rfl
  have hconn : ∀ {fd : RawFd} {client : ClientState}, σ.clients.lookup fd = some client →
      σ.connOf fd = some client.stream := by
    intro fd client hclient
    rw [connOf, hclient, Option.map_some]
  cases handleBatonRelease_cases env σ id with
  | kept hnone h =>
    rw [h]
    exact .lapses (handleDetach_lapses ..)
  | gone hs hprevious hclient h =>
    rw [h]
    exact .lapses ((hcleared hs (.refl σ)).trans (handleDetach_lapses ..))
  | @unsent s fd d client hs hprevious hclient hdup hpush h =>
    rw [h]
    have hclosed : Lapses σ (((σ.openFd d (.dup id)).emit
        (.cut client.stream (.push (resumePush id s)) env.cut)).closeFd d) := .same rfl rfl rfl
    exact .lapses ((hcleared hs hclosed).trans (handleDetach_lapses ..))
  | @refused s fd d client hs hprevious hclient hdup hpush hsent h =>
    rw [h]
    refine .refused hs hprevious (hconn hclient) ?_
    have hoffered : Passes id (fun _ => True) [.offered id client.stream] σ
        ((((σ.openFd d (.dup id)).emit (.sent client.stream (.push (resumePush id s)))).closeFd
          d).putSession id s.clearPrevious) :=
      Passes.put (.refl σ) s.clearPrevious trivial rfl rfl rfl
    exact hoffered.next (handleDetach_bare (lookup_putSession_self ..) rfl _)
  | @returned s fd d client hs hprevious hclient hdup hpush hsent h =>
    rw [h]
    refine .returned hs hprevious (hconn hclient) ?_
    have hreturned : ReturnedOn fd
        ((s.attach env.now fd).clearPrevious.markReleased env.now) := ⟨fun _ => rfl, rfl⟩
    apply Passes.put (.refl σ) _ hreturned
    · rfl
    · simp only [emit, putSession, unregister, closeFd, openFd]
    · simp only [tenures, emit, putSession, unregister, closeFd, openFd]
      rfl

private theorem takeOverAttached_turnover (hinv : Inv σ) (J : Codec) (env : Env) (id : Uuid) :
    Turnover G σ (σ.takeOverAttached J env id) := by
  rcases takeOverAttached_cases J env σ id with ⟨_, _, _, htaken⟩ | ⟨_, hsame⟩
  · rw [htaken]
    exact handleBatonTakeover_turnover hinv J env id
  · rw [hsame]
    exact .lapses (.refl σ)

private theorem handleWsAttach_turnover (hinv : Inv σ) {p : Server × Response}
    (h : σ.handleWsAttach J env id = .ok p) : Turnover G σ p.1 := by
  have htaken : Turnover G σ (σ.takeOverAttached J env id) :=
    takeOverAttached_turnover hinv J env id
  cases handleWsAttach_cases h with
  | missing hs h =>
    rw [h]
    exact htaken
  | dead hs hdead h =>
    rw [h]
    exact htaken
  | @joined s ringData hs halive hdump h =>
    rw [h]
    apply htaken.then
    have hregistered : Lapses (σ.takeOverAttached J env id) (if s.isAttached then
        σ.takeOverAttached J env id else (σ.takeOverAttached J env id).register s.masterFd) := by
      split
      · exact .refl _
      · exact .same rfl rfl rfl
    have hcore := s.wsJoined_core ringData
    exact hregistered.put hs _ (.of_eq (congrArg Core.state hcore) (congrArg Core.ownerFd hcore)
      (congrArg Core.previousOwnerFd hcore)) rfl rfl rfl

private theorem wsClientGone_lapses (hs : σ.sessions.lookup id = some s) :
    Lapses σ (σ.putSession id s.wsClientGone) :=
  (Lapses.refl σ).put hs s.wsClientGone (.of_eq rfl rfl rfl) rfl rfl rfl

private theorem handleWsDetach_turnover (hinv : Inv σ) (J : Codec) (env : Env) (id : Uuid) :
    Turnover G σ (σ.handleWsDetach J env id).1 := by
  cases handleWsDetach_cases J env σ id with
  | missing hs h =>
    rw [h]
    exact .lapses (handleDetach_lapses ..)
  | @taken s hs hatt hcool h =>
    rw [h]
    have hinv' : Inv (σ.putSession id s.wsClientGone) := hinv.aside (.putSession hs rfl)
    exact (handleBatonTakeover_turnover hinv' J env id).after (wsClientGone_lapses hs)
  | cooling hs hatt hcool h =>
    rw [h]
    exact .lapses (wsClientGone_lapses hs)
  | released hs hfree hprevious h =>
    rw [h]
    exact (handleBatonRelease_turnover env _ id).after (wsClientGone_lapses hs)
  | detached hs hfree hprevious h =>
    rw [h]
    exact .lapses ((wsClientGone_lapses hs).trans (handleDetach_lapses ..))

private theorem handleWsClientDisconnect_turnover (env : Env) (σ : Server) (c : Nat) :
    Turnover G σ (σ.handleWsClientDisconnect env c) := by
  cases handleWsClientDisconnect_cases env σ c with
  | absent hnone h =>
    rw [h]
    exact .lapses (.refl σ)
  | released hid hs hcount hprevious h =>
    rw [h]
    exact (handleBatonRelease_turnover env _ _).after (wsClientGone_lapses hs)
  | left hid hs hstays h =>
    rw [h]
    exact .lapses (wsClientGone_lapses hs)

/-! ## Events -/

private theorem handleRequest_turnover {fd : RawFd} {request : Request} {p : Server × Response}
    (hattach : ∀ id, request = .attach id →
      (σ.connOf fd).isSome = true ∧ (σ.grants env id → G id))
    (h : σ.handleRequest J env fd request = .ok p) : Turnover G σ p.1 := by
  cases request with
  | attach id =>
    cases h
    obtain ⟨hclient, hG⟩ := hattach id rfl
    obtain ⟨conn, hconn⟩ := Option.isSome_iff_exists.mp hclient
    exact handleAttach_turnover hconn hG
  | create shell cols rows workingDir terminalId envs => exact .lapses (handleCreate_lapses h)
  | detach id cols rows snapshot =>
    cases h
    exact .lapses (handleDetach_lapses ..)
  | kill id =>
    cases h
    exact .lapses (handleKill_lapses ..)
  | winsizeUpdate id cols rows =>
    cases h
    exact .lapses (handleWinsizeUpdate_lapses ..)
  | input id data =>
    cases h
    exact .lapses (handleRemoteInput_lapses ..)
  | list =>
    cases h
    exact .lapses (.refl σ)
  | ping =>
    cases h
    exact .lapses (.refl σ)
  | shutdown =>
    cases h
    exact .lapses (.same rfl rfl rfl)

/-- The event is an Attach of the session that succeeds. -/
def attaching (σ : Server) (e : Event) (id : Uuid) : Prop :=
  ∃ fd consumed env, e = .request fd (.ok (.attach id)) consumed env ∧ σ.grants env id

private theorem serve_turnover {fd : RawFd} {result : Except String Request} {consumed : Nat}
    (hclient : (σ.connOf fd).isSome = true) (h : σ.serve J env fd result consumed = .ok σ') :
    Turnover (σ.attaching (.request fd result consumed env)) σ σ' := by
  unfold serve at h
  dsimp only at h
  obtain ⟨p, hp, rfl⟩ := ok_of_map h
  have hdone : Lapses p.1 ((p.1.answer env fd p.2 consumed).passOn env fd p.2) :=
    (answer_lapses ..).trans (passOn_lapses ..)
  cases result with
  | error message =>
    cases hp
    exact .lapses hdone
  | ok request =>
    refine (handleRequest_turnover ?_ hp).then hdone
    rintro id rfl
    exact ⟨hclient, fun hgrants => ⟨fd, consumed, env, rfl, hgrants⟩⟩

/-- Every event but the arrival of a connection. -/
theorem event_turnover (hinv : Inv σ) (haccept : ∀ fd, e ≠ .accept fd)
    (h : σ.event J e = .ok σ') : Turnover (σ.attaching e) σ σ' := by
  cases event_runs h with
  | @reap env => exact .lapses (reapDead_lapses env σ)
  | @command shared cmd env _ _ h =>
    have hinv' : Inv { σ with wsShared := shared } := hinv.arrive (.command shared cmd env)
    have harrive : Lapses σ { σ with wsShared := shared } := .same rfl rfl rfl
    cases cmd with
    | request c request reply =>
      obtain ⟨p, hp, rfl⟩ := ok_of_map h
      have hreplied : Lapses p.1 (p.1.emit (.replied reply p.2)) := (Lapses.refl p.1).emit rfl
      apply Turnover.then _ hreplied
      apply Turnover.after harrive
      cases request with
      | attach id => exact handleWsAttach_turnover hinv' hp
      | detach id cols rows snapshot =>
        cases hp
        exact handleWsDetach_turnover hinv' J env id
      | _ => exact handleRequest_turnover (fun _ h => by cases h) hp
    | disconnected c =>
      cases h
      exact (handleWsClientDisconnect_turnover env _ c).after harrive
    | input id data =>
      cases h
      exact .lapses (harrive.trans (handleWsInput_lapses ..))
  | @accept fd hfree => exact absurd rfl (haccept fd)
  | request hclient _ h => exact serve_turnover hclient h
  | disconnect hconn h => exact .lapses (handleClientDisconnect_lapses hinv hconn h)
  | @childExit pid env => exact .lapses (handleChildExit_lapses env σ pid)
  | @output fd read env => exact .lapses (handleSessionOutput_lapses hinv env fd read)

end Server

end PtyDaemon
