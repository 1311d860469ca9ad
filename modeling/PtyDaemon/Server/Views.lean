import PtyDaemon.Server.Shared

/-!
# What most handlers leave of a session

Attaching, detaching, taking over and giving back change the owner, the size and the stored snapshot
of a session. Neither its parser nor the number of clients it counts is touched, so whatever is a
function of these can be followed through the handlers at once.
-/

namespace PtyDaemon

/-- The view shows nothing but the parser and the count of clients. -/
structure Session.Blind {β : Type} (v : Session → β) : Prop where
  of_eq : ∀ {s s' : Session}, s'.terminalState = s.terminalState →
    s'.wsClientCount = s.wsClientCount → v s' = v s

theorem Session.blind_terminalState : Session.Blind Session.terminalState := ⟨fun h _ => h⟩

theorem Session.blind_wsClientCount : Session.Blind Session.wsClientCount := ⟨fun _ h => h⟩

namespace Server

variable {β : Type} {v : Session → β} {J : Codec} {env : Env} {σ σ' τ : Server} {id : Uuid}
  {s : Session}

/-- The view of a session, if it is there. -/
def viewOf (v : Session → β) (σ : Server) (id : Uuid) : Option β := (σ.sessions.lookup id).map v

theorem viewOf_eq_some (v : Session → β) (hs : σ.sessions.lookup id = some s) :
    σ.viewOf v id = some (v s) := by
  rw [viewOf, hs, Option.map_some]

theorem viewOf_putSession (v : Session → β) (σ : Server) (id : Uuid) (s : Session) (i : Uuid) :
    (σ.putSession id s).viewOf v i = if i = id then some (v s) else σ.viewOf v i := by
  rw [viewOf, lookup_putSession]
  split
  · rfl
  · rfl

/-- A session is replaced by one that looks the same. -/
theorem viewOf_replaced (h : τ.viewOf v = σ.viewOf v) {b : β} (hb : σ.viewOf v id = some b)
    {s' : Session} (hs' : v s' = b) : (τ.putSession id s').viewOf v = σ.viewOf v := by
  funext i
  rw [viewOf_putSession, h, hs']
  split
  · rename_i hi
    rw [hi, hb]
  · rfl

theorem viewOf_removeSession (v : Session → β) (σ : Server) (id i : Uuid) :
    (σ.removeSession id).viewOf v i = if i = id then none else σ.viewOf v i := by
  rw [viewOf, removeSession, Table.lookup_erase]
  split
  · rfl
  · rfl

theorem viewOf_of_sessions (v : Session → β) (h : σ'.sessions = σ.sessions) :
    σ'.viewOf v = σ.viewOf v := by
  funext i
  rw [viewOf, h]
  rfl

/-! ## Handlers that leave the sessions alone -/

theorem writeSnapshot_sessions (env : Env) (σ : Server) (id : Uuid)
    (snapshot : Option GridSnapshot) : (σ.writeSnapshot env id snapshot).sessions = σ.sessions := by
  unfold writeSnapshot
  split <;> rfl

theorem closePending_sessions (σ : Server) (id : Uuid) :
    (σ.closePending id).sessions = σ.sessions := by
  unfold closePending
  split <;> rfl

theorem sendAttachData_sessions (env : Env) (σ : Server) (fd : RawFd) (id : Uuid) :
    (σ.sendAttachData env fd id).1.sessions = σ.sessions := by
  unfold sendAttachData
  split
  · rfl
  · dsimp only
    split
    · rfl
    · dsimp only
      split <;> rfl

theorem waitForDetachAck_sessions (J : Codec) (fd : RawFd) (id : Uuid) (reads : List AckRead)
    (σ : Server) : (waitForDetachAck J fd id reads σ).1.sessions = σ.sessions := by
  induction reads generalizing σ with
  | nil => rfl
  | cons read reads ih =>
    unfold waitForDetachAck
    split
    · dsimp only
      split
      · exact ih _
      · split
        · split <;> rfl
        · rfl
        · rfl
    · rfl

theorem handleWsInput_sessions (env : Env) (σ : Server) (id : Uuid) (data : List UInt8) :
    (σ.handleWsInput env id data).sessions = σ.sessions := by
  unfold handleWsInput
  split <;> rfl

theorem handleRemoteInput_sessions (J : Codec) (env : Env) (σ : Server) (id : Uuid)
    (data : String) : (σ.handleRemoteInput J env id data).1.sessions = σ.sessions := by
  unfold handleRemoteInput
  split
  · rfl
  · exact handleWsInput_sessions ..

theorem answer_sessions (env : Env) (σ : Server) (fd : RawFd) (response : Response)
    (consumed : Nat) : (σ.answer env fd response consumed).sessions = σ.sessions := by
  unfold answer
  split
  · rfl
  · dsimp only
    split <;> rfl

/-! ## Handlers that change what the view does not show -/

section

variable (hv : Session.Blind v)

include hv

theorem handleDetach_view (σ : Server) (id : Uuid) (cols rows : UInt16)
    (snapshot : Option GridSnapshot) :
    (σ.handleDetach id cols rows snapshot).1.viewOf v = σ.viewOf v := by
  unfold handleDetach
  split
  · rfl
  · rename_i s hs
    have hview : σ.viewOf v id = some (v s) := viewOf_eq_some v hs
    have hdetached : ((σ.putSession id (s.detach snapshot)).register s.masterFd).viewOf v =
        σ.viewOf v := viewOf_replaced rfl hview (hv.of_eq rfl rfl)
    dsimp only
    split
    · exact viewOf_replaced hdetached hview (hv.of_eq rfl rfl)
    · exact hdetached

theorem handleAttach_view (env : Env) (σ : Server) (fd : RawFd) (id : Uuid) :
    (σ.handleAttach env fd id).1.viewOf v = σ.viewOf v := by
  cases handleAttach_ends env σ fd id with
  | refused _ _ h => rw [h]
  | @granted s d hs _ _ _ h =>
    have hview : σ.viewOf v id = some (v s) := viewOf_eq_some v hs
    have hwritten : (((σ.openFd d (.dup id)).writeSnapshot env id
        s.currentSnapshot).unregister s.masterFd).viewOf v = σ.viewOf v :=
      viewOf_of_sessions v (writeSnapshot_sessions env (σ.openFd d (.dup id)) id _)
    rw [h]
    exact viewOf_replaced hwritten hview (hv.of_eq rfl rfl)

private theorem revertAttach_view (σ : Server) (id : Uuid) :
    (σ.revertAttach id).viewOf v = σ.viewOf v := by
  have hclosed : (σ.closePending id).viewOf v = σ.viewOf v :=
    viewOf_of_sessions v (closePending_sessions σ id)
  unfold revertAttach
  dsimp only
  split
  · exact hclosed
  · rename_i s hs
    have hview : (σ.closePending id).viewOf v id = some (v s) := viewOf_eq_some v hs
    rw [hclosed] at hview
    exact viewOf_replaced hclosed hview (hv.of_eq rfl rfl)

private theorem forceCompleteTakeover_view (σ : Server) (id : Uuid)
    (snapshot : Option GridSnapshot) :
    (σ.forceCompleteTakeover id snapshot).1.viewOf v = σ.viewOf v := by
  unfold forceCompleteTakeover
  split
  · rfl
  · rename_i s hs
    have hview : σ.viewOf v id = some (v s) := viewOf_eq_some v hs
    exact viewOf_replaced rfl hview (hv.of_eq rfl rfl)

theorem handleBatonTakeover_view (J : Codec) (env : Env) (σ : Server) (id : Uuid) :
    (σ.handleBatonTakeover J env id).1.viewOf v = σ.viewOf v := by
  cases handleBatonTakeover_cases J env σ id with
  | unowned hnone h =>
    rw [h]
    exact handleDetach_view hv ..
  | unreached hs hatt howner hnot h =>
    rw [h]
    exact forceCompleteTakeover_view hv ..
  | unwritten hs hatt howner hclient hpush h =>
    rw [h]
    exact forceCompleteTakeover_view hv ..
  | @pushed s fd client hs hatt howner hclient hpush h =>
    rw [h]
    have hwaited := viewOf_of_sessions v (waitForDetachAck_sessions J fd id env.ackReads
      (σ.emit (.sent client.stream (.push (.forceDetach id)))))
    exact (forceCompleteTakeover_view hv ..).trans hwaited

theorem handleBatonRelease_view (env : Env) (σ : Server) (id : Uuid) :
    (σ.handleBatonRelease env id).1.viewOf v = σ.viewOf v := by
  have hput : ∀ {τ : Server} {s s' : Session}, τ.sessions = σ.sessions →
      σ.sessions.lookup id = some s → v s' = v s →
        (τ.putSession id s').viewOf v = σ.viewOf v :=
    fun hτ hs hs' => viewOf_replaced (viewOf_of_sessions v hτ) (viewOf_eq_some v hs) hs'
  cases handleBatonRelease_cases env σ id with
  | kept hnone h =>
    rw [h]
    exact handleDetach_view hv ..
  | gone hs hprevious hclient h =>
    rw [h]
    exact (handleDetach_view hv ..).trans (hput rfl hs (hv.of_eq rfl rfl))
  | unsent hs hprevious hclient hdup hpush h =>
    rw [h]
    exact (handleDetach_view hv ..).trans (hput rfl hs (hv.of_eq rfl rfl))
  | refused hs hprevious hclient hdup hpush hsent h =>
    rw [h]
    exact (handleDetach_view hv ..).trans (hput rfl hs (hv.of_eq rfl rfl))
  | returned hs hprevious hclient hdup hpush hsent h =>
    rw [h]
    exact hput rfl hs (hv.of_eq rfl rfl)

theorem passOn_view (env : Env) (σ : Server) (fd : RawFd) (response : Response) :
    (σ.passOn env fd response).viewOf v = σ.viewOf v := by
  unfold passOn
  split
  · rename_i id _ _ _ _ _
    have hsent := viewOf_of_sessions v (sendAttachData_sessions env σ fd id)
    dsimp only
    split
    · exact hsent
    · exact (revertAttach_view hv ..).trans hsent
  · rfl

theorem takeOverAttached_view (J : Codec) (env : Env) (σ : Server) (id : Uuid) :
    (σ.takeOverAttached J env id).viewOf v = σ.viewOf v := by
  rcases takeOverAttached_cases J env σ id with ⟨_, _, _, htaken⟩ | ⟨_, hsame⟩
  · rw [htaken]
    exact handleBatonTakeover_view hv ..
  · rw [hsame]

end

end Server

end PtyDaemon
