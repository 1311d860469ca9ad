import PtyDaemon.Server.Shutdown
import PtyDaemon.Ws.HandBack

/-!
# The end of the daemon

The world of the WebSocket clients, until the daemon cleans up and after: the connection tasks run
on a thread of their own and take their steps also when the daemon is through.
-/

namespace PtyDaemon

def WsWorld.cleanup (w : WsWorld) (env : Env) : WsWorld :=
  { w with streams := { w.streams with server := w.server.cleanup env } }

structure Closing where
  world : WsWorld
  closed : Bool

namespace Closing

inductive Label
  | world (l : WsWorld.Label)
  /-- the daemon cleans up -/
  | close (env : Env)

def step (J : Codec) (x : Closing) : Label → Option Closing
  | .world l =>
    if x.closed && l.ofDaemon then none
    else (WsWorld.step J x.world l).map fun w => { x with world := w }
  | .close env => if x.closed then none else some ⟨x.world.cleanup env, true⟩

def system (J : Codec) : Transition.System Closing Label where
  init x := (WsWorld.system J).init x.world ∧ x.closed = false
  step := step J

variable {J : Codec} {x x' : Closing}

theorem step_world {l : WsWorld.Label} (h : step J x (.world l) = some x') :
    WsWorld.step J x.world l = some x'.world ∧ x'.closed = x.closed ∧
      (l.ofDaemon = true → x.closed = false) := by
  rw [step] at h
  split at h
  · cases h
  · rename_i hopen
    obtain ⟨w, hw, rfl⟩ := Option.map_eq_some_iff.mp h
    refine ⟨hw, rfl, fun hdaemon => ?_⟩
    rw [hdaemon, Bool.and_true] at hopen
    exact Bool.eq_false_of_not_eq_true hopen

theorem step_close {env : Env} (h : step J x (.close env) = some x') :
    x.closed = false ∧ x'.closed = true ∧ x'.world = x.world.cleanup env := by
  rw [step] at h
  split at h
  · cases h
  · rename_i hopen
    cases h
    exact ⟨Bool.eq_false_of_not_eq_true hopen, rfl, rfl⟩

/-- As long as the daemon has not cleaned up, the world is one that is reached without that. -/
theorem reachable_world (h : (system J).Reachable x) (hopen : x.closed = false) :
    (WsWorld.system J).Reachable x.world := by
  induction h with
  | start hinit => exact .start hinit.1
  | @next x x' l _ _ hstep ih =>
    cases l with
    | world l =>
      obtain ⟨hw, hsame, _⟩ := step_world hstep
      exact (ih (hsame ▸ hopen)).next trivial hw
    | close env =>
      obtain ⟨_, hclosed, _⟩ := step_close (J := J) hstep
      cases hopen.symm.trans hclosed

/-- The daemon's cleanup only takes clients out of the table. -/
theorem cleanup_table {w : WsWorld} (h : WsWorld.TableInv w) (env : Env) :
    WsWorld.TableInv (w.cleanup env) := by
  have hshared := Server.cleanup_wsShared env w.server
  obtain ⟨hnext, hsessions⟩ :=
    WsSharedState.told_clientSessions w.shared.subscribers.keys w.shared
  constructor
  case fresh =>
    intro c conn hconn
    change c < (w.server.cleanup env).wsShared.nextClientId
    rw [hshared]
    exact hnext ▸ h.fresh hconn
  case attached =>
    intro c id hid
    have hid : (w.server.cleanup env).wsShared.clientSessions.lookup c = some id := hid
    rw [hshared] at hid
    exact h.attached (hsessions hid)
  case left => exact h.left
  case queued => exact h.queued

/-- The ownership invariant, until the daemon cleans up. -/
theorem reachable_inv (h : (system J).Reachable x) (hopen : x.closed = false) :
    Server.Inv x.world.server :=
  (WsWorld.reachable_ring (reachable_world h hopen)).server

theorem reachable_table (h : (system J).Reachable x) : WsWorld.TableInv x.world := by
  apply h.invariant_with (fun _ => reachable_inv)
  · rintro x ⟨⟨listener, wakeup, now, hnew⟩, _⟩
    rw [hnew]
    exact WsWorld.reachable_table (J := J) (.start ⟨listener, wakeup, now, rfl⟩)
  · rintro x l x' hinv htable _ hstep
    cases l with
    | close env =>
      obtain ⟨_, _, hworld⟩ := step_close (J := J) hstep
      rw [hworld]
      exact cleanup_table htable env
    | world l =>
      obtain ⟨hw, _, hopen⟩ := step_world hstep
      exact htable.step (fun hdaemon => hinv (hopen hdaemon)) hw

/-- The cleanup leaves no session, and there are none from then on. -/
theorem reachable_ended (h : (system J).Reachable x) :
    x.closed = true → ∀ id, x.world.server.sessions.lookup id = none := by
  apply h.invariant_with (fun _ => reachable_inv)
  · rintro x ⟨_, hopen⟩ hclosed
    cases hopen.symm.trans hclosed
  · rintro x l x' hinv hended _ hstep
    cases l with
    | close env =>
      obtain ⟨hopen, _, hworld⟩ := step_close (J := J) hstep
      rw [hworld]
      exact fun _ => (Server.cleanup_kills env (hinv hopen)).1
    | world l =>
      obtain ⟨hw, hsame, hdaemon⟩ := step_world hstep
      intro hclosed id
      rw [hsame] at hclosed
      have hquiet : l.ofDaemon = true → False := fun h => by cases (hdaemon h).symm.trans hclosed
      cases l with
      | accept =>
        rw [← Option.some.inj hw]
        exact hended hclosed id
      | task c s =>
        obtain ⟨_, _, _, _, _, _, hworld⟩ := WsWorld.step_task hw
        rw [hworld]
        exact hended hclosed id
      | drain env => exact (hquiet rfl).elim
      | daemon e => exact (hquiet rfl).elim
      | clientRead i data =>
        obtain ⟨s, hs, _⟩ := WsWorld.step_clientRead hw
        cases hs.symm.trans (hended hclosed i)

end Closing

end PtyDaemon
