import PtyDaemon.Server.Disconnect

/-!
# Events

The units in which the daemon handles what happens to it: one request, one WebSocket command, one
output event and so on. A turn of the loop is a sequence of events; other parties may take steps
between any two of them.
-/

namespace PtyDaemon

inductive Event
  | reap (env : Env)
  /-- a command of the queue, with the shared table as the daemon finds it -/
  | command (shared : WsSharedState) (cmd : WsCommand) (env : Env)
  | accept (fd : RawFd)
  /-- one message of a connection, taken from its buffer -/
  | request (fd : RawFd) (result : Except String Request) (consumed : Nat) (env : Env)
  | disconnect (fd : RawFd)
  | childExit (pid : Pid) (env : Env)
  | output (fd : RawFd) (read : PtyRead) (env : Env)

namespace Server

variable {P : Uuid → Prop} {σ σ' : Server} {J : Codec} {env : Env} {e : Event}

def event (J : Codec) (σ : Server) : Event → Except Stop Server
  | .reap env => .ok (σ.reapDead env)
  | .command shared cmd env =>
    if σ.admits env then { σ with wsShared := shared }.handleWsCommand J env cmd
    else .error .excluded
  | .accept fd => if σ.freeFd fd then .ok (σ.acceptClient fd) else .error .excluded
  | .request fd result consumed env =>
    if (σ.connOf fd).isSome && σ.admits env then σ.serve J env fd result consumed
    else .error .excluded
  | .disconnect fd =>
    if (σ.connOf fd).isSome then σ.handleClientDisconnect fd else .error .excluded
  | .childExit pid env => .ok (σ.handleChildExit env pid)
  | .output fd read env => .ok (σ.handleSessionOutput env fd read)

/-- The daemon with the shared table of the event. -/
def arrive (σ : Server) : Event → Server
  | .command shared _ _ => { σ with wsShared := shared }
  | _ => σ

/-- What an event that can come runs. -/
inductive EventRuns (J : Codec) (σ : Server) : Event → Server → Prop
  | reap {env : Env} : EventRuns J σ (.reap env) (σ.reapDead env)
  | command {shared : WsSharedState} {cmd : WsCommand} {env : Env} {σ' : Server}
      (hadmits : { σ with wsShared := shared }.admits env = true)
      (h : { σ with wsShared := shared }.handleWsCommand J env cmd = .ok σ') :
      EventRuns J σ (.command shared cmd env) σ'
  | accept {fd : RawFd} (hfree : σ.freeFd fd = true) :
      EventRuns J σ (.accept fd) (σ.acceptClient fd)
  | request {fd : RawFd} {result : Except String Request} {consumed : Nat} {env : Env}
      {σ' : Server} (hclient : (σ.connOf fd).isSome = true) (hadmits : σ.admits env = true)
      (h : σ.serve J env fd result consumed = .ok σ') :
      EventRuns J σ (.request fd result consumed env) σ'
  | disconnect {fd : RawFd} {conn : Nat} {σ' : Server} (hconn : σ.connOf fd = some conn)
      (h : σ.handleClientDisconnect fd = .ok σ') : EventRuns J σ (.disconnect fd) σ'
  | childExit {pid : Pid} {env : Env} :
      EventRuns J σ (.childExit pid env) (σ.handleChildExit env pid)
  | output {fd : RawFd} {read : PtyRead} {env : Env} :
      EventRuns J σ (.output fd read env) (σ.handleSessionOutput env fd read)

theorem event_runs {J : Codec} {σ σ' : Server} {e : Event} (h : σ.event J e = .ok σ') :
    EventRuns J σ e σ' := by
  cases e with
  | reap env =>
    cases h
    exact .reap
  | command shared cmd env =>
    simp only [event] at h
    split at h
    · rename_i hadmits
      exact .command hadmits h
    · cases h
  | accept fd =>
    simp only [event] at h
    split at h
    · rename_i hfree
      cases h
      exact .accept hfree
    · cases h
  | request fd result consumed env =>
    simp only [event] at h
    split at h
    · rename_i hadmits
      rw [Bool.and_eq_true] at hadmits
      exact .request hadmits.1 hadmits.2 h
    · cases h
  | disconnect fd =>
    simp only [event] at h
    split at h
    · rename_i hclient
      obtain ⟨conn, hconn⟩ := Option.isSome_iff_exists.mp hclient
      exact .disconnect hconn h
    · cases h
  | childExit pid env =>
    cases h
    exact .childExit
  | output fd read env =>
    cases h
    exact .output

theorem event_command {J : Codec} {σ σ' : Server} {shared : WsSharedState} {cmd : WsCommand}
    {env : Env} (h : σ.event J (.command shared cmd env) = .ok σ') :
    { σ with wsShared := shared }.handleWsCommand J env cmd = .ok σ' := by
  cases event_runs h with
  | command _ h => exact h

theorem event_accept {J : Codec} {σ σ' : Server} {fd : RawFd}
    (h : σ.event J (.accept fd) = .ok σ') : σ' = σ.acceptClient fd ∧ σ.freeFd fd = true := by
  cases event_runs h with
  | accept hfree => exact ⟨rfl, hfree⟩

theorem event_request {J : Codec} {σ σ' : Server} {fd : RawFd} {result : Except String Request}
    {consumed : Nat} {env : Env} (h : σ.event J (.request fd result consumed env) = .ok σ') :
    σ.serve J env fd result consumed = .ok σ' := by
  cases event_runs h with
  | request _ _ h => exact h

/-- The sessions an event may move by its handlers. -/
def eventMoves (σ : Server) : Event → Uuid → Prop
  | .command shared cmd env, id => commandMoves env { σ with wsShared := shared } cmd id
  | .request _ result _ _, id => σ.resultMoves result id
  | _, _ => False

/-- Output of a session that is not attached, read by the daemon. -/
inductive Read (id : Uuid) (bytes : List UInt8) (σ : Server) : Server → Prop
  | mk {s s' : Session} (hs : σ.sessions.lookup id = some s) (hfree : s.state ≠ .attached)
      (hfree' : s'.state ≠ .attached)
      (hs' : s'.core =
        { s.core with
          state := s'.state
          sharedRing := s.sharedRing.write bytes
          fed := s.core.fed.map (· ++ bytes) }) :
      Read id bytes σ
        { (σ.putSession id s').emit (.ptyRead id bytes) with
          wsShared := σ.wsShared.broadcast id bytes }

theorem Read.spec {id : Uuid} {bytes : List UInt8} (h : Read id bytes σ σ') :
    ∃ s s' : Session, σ.sessions.lookup id = some s ∧ s.state ≠ .attached ∧ s'.state ≠ .attached ∧
      s'.core =
        { s.core with
          state := s'.state
          sharedRing := s.sharedRing.write bytes
          fed := s.core.fed.map (· ++ bytes) } ∧
      (∀ i, σ'.coreOf i = if i = id then some s'.core else σ.coreOf i) ∧
      (∀ fd, σ'.connOf fd = σ.connOf fd) ∧ σ'.ids = σ.ids ∧
      σ'.trace = [.ptyRead id bytes] ++ σ.trace := by
  obtain @⟨s, s', hs, hfree, hfree', hs'⟩ := h
  exact ⟨s, s', hs, hfree, hfree', hs', coreOf_putSession σ id s', fun _ => rfl, rfl, rfl⟩

theorem handleSessionOutput_cases (hinv : Inv σ) (env : Env) (fd : RawFd) (read : PtyRead) :
    Moves P σ (σ.handleSessionOutput env fd read) ∨
      ∃ id bytes, read = .data bytes ∧ Read id bytes σ (σ.handleSessionOutput env fd read) := by
  cases handleSessionOutput_ends hinv.sessionsOpen.key env fd read with
  | ignored _ h =>
    rw [h]
    exact .inl (.refl σ)
  | @absorbed id s bytes _ _ hs hfree hread h =>
    rw [h]
    exact .inr ⟨id, bytes, hread, .mk hs hfree (s.afterOutput_free hfree env.now bytes)
      (s.afterOutput_core env.now bytes)⟩
  | @ended id s hfound _ hs _ _ h =>
    have hnonneg := hinv.sessionsOpen.nonneg hs
    have hcleanup : ((σ.unregister fd).removeSession id).dropSession env s =
        (σ.removeSession id).dropSession env s := by
      rw [dropSession, dropSession, ← findByMasterFd_master hfound, if_pos hnonneg,
        if_pos hnonneg]
      exact cleanup_unregister (σ.removeSession id) env s
    rw [h, hcleanup]
    exact .inl (drop_moves hs hnonneg env)

theorem Read.inv {id : Uuid} {bytes : List UInt8} (hread : Read id bytes σ σ') (h : Inv σ) :
    Inv σ' := by
  obtain ⟨hs, hfree, hfree', hs'⟩ := hread
  have hok := h.session (coreOf_eq_some hs)
  refine h.replace hs rfl ?_ rfl (fun _ _ => Iff.rfl) rfl rfl rfl
    (show _ = [Act.ptyRead id bytes] ++ σ.trace from rfl) (apart_one fun _ _ => rfl)
    fun conn hlast => List.mem_cons_of_mem _ (h.history hlast)
  have hnone : ¬ (_ : Session).ownerFd.isSome = true := fun hown => hfree (hok.owned.mpr hown)
  rw [hs']
  exact {
    key := hok.key
    known := hok.known
    nonneg := hok.nonneg
    master := hok.master
    owned := ⟨fun h => absurd h hfree', fun h => absurd h hnone⟩
    owner := hok.owner
    previous := by
      intro fd hfd
      obtain ⟨conn, hconn, hlast, hmem⟩ := hok.previous fd hfd
      exact ⟨conn, hconn, hlast, List.mem_cons_of_mem _ hmem⟩
    registered := ⟨fun _ => hfree', fun _ => hok.registered.mpr hfree⟩ }

/-- What an event does to the sessions. -/
inductive Effect (σ : Server) (e : Event) (σ' : Server) : Prop
  | handled (h : Outcome (σ.eventMoves e) (σ.arrive e) σ')
  | lost {fd : RawFd} {conn : Nat} (he : e = .disconnect fd) (hconn : σ.connOf fd = some conn)
      (h : Disconnected fd σ σ')
  | read {fd : RawFd} {id : Uuid} {bytes : List UInt8} {env : Env}
      (he : e = .output fd (.data bytes) env) (h : Read id bytes σ σ')

theorem event_effect (hinv : Inv σ) (h : σ.event J e = .ok σ') : Effect σ e σ' := by
  cases event_runs h with
  | @reap env => exact .handled (.plain (reapDead_moves hinv.sessionsOpen env))
  | command hadmits h => exact .handled (handleWsCommand_outcome hadmits h)
  | accept hfree => exact .handled (.plain (Move.accept hfree).moves)
  | request hclient hadmits h => exact .handled (serve_outcome hadmits hclient h)
  | disconnect hconn h => exact .lost rfl hconn (handleClientDisconnect_disconnected hinv hconn h)
  | @childExit pid env =>
    exact .handled (.plain (handleChildExit_moves hinv.sessionsOpen env pid))
  | @output fd read env =>
    rcases handleSessionOutput_cases hinv env fd read with hmoves | ⟨id, bytes, rfl, hread⟩
    · exact .handled (.plain hmoves)
    · exact .read rfl hread

/-- The table is shared with other threads; no result about ownership looks at it. -/
theorem Inv.withShared (h : Inv σ) (shared : WsSharedState) :
    Inv { σ with wsShared := shared } :=
  h.descriptors rfl rfl rfl (fun hx _ => ⟨hx, Iff.rfl⟩) h.pending (List.nil_append _).symm
    fun _ _ hmem => nomatch hmem

theorem Inv.arrive (h : Inv σ) (e : Event) : Inv (σ.arrive e) := by
  cases e with
  | command shared cmd env => exact h.withShared shared
  | _ => exact h

theorem event_inv (hinv : Inv σ) (h : σ.event J e = .ok σ') : Inv σ' := by
  cases event_effect hinv h with
  | handled hout => exact hout.inv (hinv.arrive e)
  | read he hread => exact hread.inv hinv
  | @lost fd conn he hconn hdisc =>
    subst he
    simp only [event, hconn, Option.isSome_some, if_true] at h
    exact hinv.disconnect hconn h

end Server

end PtyDaemon
