import Mathlib.Logic.Relation
import PtyDaemon.Server.Loop

/-!
# What the handlers do to the ownership of sessions

Every handler is a sequence of a few moves: a session is detached, taken over, attached, given
back, created or removed, a descriptor is opened or closed, and the rest does not touch ownership.
The results about ownership are proved for the moves; the handlers are taken apart here once.
-/

namespace PtyDaemon

/-- The part of a session the ownership results are about. -/
structure Core where
  id : Uuid
  masterFd : RawFd
  state : SessionState
  ownerFd : Option RawFd
  previousOwnerFd : Option RawFd
  sharedRing : SharedRingBuffer
  fed : Option (List UInt8)

def Session.core (s : Session) : Core where
  id := s.id
  masterFd := s.masterFd
  state := s.state
  ownerFd := s.ownerFd
  previousOwnerFd := s.previousOwnerFd
  sharedRing := s.sharedRing
  fed := s.terminalState.map TerminalState.fed

/-- Acts that neither move a session nor pass a descriptor. -/
def Act.plain : Act → Bool
  | .sent _ (.fd _) => false
  | .attached _ _ => false
  | .takenOver _ _ => false
  | .returned _ _ => false
  | .ptyRead _ _ => false
  | _ => true

namespace Server

/-- `σ'` differs from `σ` in nothing that ownership depends on. -/
structure Aside (σ σ' : Server) : Prop where
  sessions : ∀ id,
    (σ'.sessions.lookup id).map Session.core = (σ.sessions.lookup id).map Session.core
  clients : ∀ fd, σ'.connOf fd = σ.connOf fd
  pending : σ'.pendingDupFds = σ.pendingDupFds
  kq : σ'.kq = σ.kq
  fds : σ'.fds = σ.fds
  accepted : σ'.accepted = σ.accepted
  ids : σ'.ids = σ.ids
  listener : σ'.listener = σ.listener
  wsShared : σ'.wsShared = σ.wsShared
  trace : ∃ acts, σ'.trace = acts ++ σ.trace ∧ ∀ a ∈ acts, a.plain = true

namespace Aside

variable {σ σ' σ'' : Server}

theorem refl (σ : Server) : Aside σ σ :=
  ⟨fun _ => rfl, fun _ => rfl, rfl, rfl, rfl, rfl, rfl, rfl, rfl, [], rfl, fun _ h => nomatch h⟩

theorem trans (h : Aside σ σ') (h' : Aside σ' σ'') : Aside σ σ'' := by
  obtain ⟨acts, hacts, hplain⟩ := h.trace
  obtain ⟨acts', hacts', hplain'⟩ := h'.trace
  refine ⟨fun id => (h'.sessions id).trans (h.sessions id),
    fun fd => (h'.clients fd).trans (h.clients fd), h'.pending.trans h.pending, h'.kq.trans h.kq,
    h'.fds.trans h.fds, h'.accepted.trans h.accepted, h'.ids.trans h.ids,
    h'.listener.trans h.listener, h'.wsShared.trans h.wsShared, acts' ++ acts, ?_, ?_⟩
  · rw [hacts', hacts, List.append_assoc]
  · intro a ha
    rcases List.mem_append.mp ha with ha | ha
    · exact hplain' a ha
    · exact hplain a ha

theorem emit (σ : Server) {act : Act} (h : act.plain = true) : Aside σ (σ.emit act) :=
  ⟨fun _ => rfl, fun _ => rfl, rfl, rfl, rfl, rfl, rfl, rfl, rfl, [act], rfl, by simpa using h⟩

theorem putSession {id : Uuid} {s s' : Session} (hs : σ.sessions.lookup id = some s)
    (hcore : s'.core = s.core) : Aside σ (σ.putSession id s') := by
  refine ⟨?_, fun _ => rfl, rfl, rfl, rfl, rfl, rfl, rfl, rfl, [], rfl, fun _ h => nomatch h⟩
  intro i
  rw [Server.putSession, Table.lookup_insert]
  by_cases hi : i = id
  · rw [if_pos hi, hi, hs, Option.map_some, Option.map_some, hcore]
  · rw [if_neg hi]

theorem putClient {fd : RawFd} {c c' : ClientState} (hc : σ.clients.lookup fd = some c)
    (hstream : c'.stream = c.stream) : Aside σ (σ.putClient fd c') := by
  refine ⟨fun _ => rfl, ?_, rfl, rfl, rfl, rfl, rfl, rfl, rfl, [], rfl, fun _ h => nomatch h⟩
  intro fd'
  rw [connOf, connOf, Server.putClient, Table.lookup_insert]
  by_cases h : fd' = fd
  · rw [if_pos h, h, hc, Option.map_some, Option.map_some, hstream]
  · rw [if_neg h]

end Aside

/-- One move. Only sessions in `P` may change hands. -/
inductive Move (P : Uuid → Prop) (σ : Server) : Server → Prop
  | aside {σ' : Server} (h : Aside σ σ') : Move P σ σ'
  | notify {id : Uuid} (hgone : σ.sessions.lookup id = none) :
      Move P σ (σ.notifySessionEnded id)
  | detach {id : Uuid} {s s' : Session} (hP : P id) (hs : σ.sessions.lookup id = some s)
      (hs' : s'.core = { s.core with state := .active, ownerFd := none }) :
      Move P σ ((σ.putSession id s').register s.masterFd)
  | takeOver {id : Uuid} {s s' : Session} {fd : RawFd} (hP : P id)
      (hs : σ.sessions.lookup id = some s) (hfd : s.ownerFd = some fd)
      (hs' : s'.core =
        { s.core with state := .active, ownerFd := none, previousOwnerFd := some fd }) :
      Move P σ (((σ.putSession id s').register s.masterFd).emit (.takenOver id (σ.connOf fd)))
  | forget {id : Uuid} {s s' : Session} (hP : P id) (hs : σ.sessions.lookup id = some s)
      (hs' : s'.core = { s.core with previousOwnerFd := none }) : Move P σ (σ.putSession id s')
  | listen {id : Uuid} {s : Session} (hs : σ.sessions.lookup id = some s)
      (hfree : s.state ≠ .attached) : Move P σ (σ.register s.masterFd)
  | attach {id : Uuid} {s s' : Session} {fd : RawFd} {conn : Nat} (hP : P id)
      (hs : σ.sessions.lookup id = some s) (hfree : s.state ≠ .attached)
      (hconn : σ.connOf fd = some conn)
      (hs' : s'.core = { s.core with state := .attached, ownerFd := some fd }) :
      Move P σ (((σ.unregister s.masterFd).putSession id s').emit (.attached id (some conn)))
  | stash {id : Uuid} {d : RawFd} (hfree : σ.freeFd d = true) :
      Move P σ ((σ.openFd d (.dup id)).stashDup id d)
  | unstash {id : Uuid} {d : RawFd} (hd : σ.pendingDupFds.lookup id = some d) :
      Move P σ ((σ.dropPending id).closeFd d)
  | flash {id : Uuid} {d : RawFd} (hfree : σ.freeFd d = true) :
      Move P σ ((σ.openFd d (.dup id)).closeFd d)
  | create {id : Uuid} {fd : RawFd} {s : Session} {page : PageSize} {ring : SharedRingBuffer}
      (hfree : σ.freeFd fd = true) (hid : id ∉ σ.ids)
      (hring : SharedRingBuffer.create page defaultRingSize = some ring)
      (hs : s.core = ⟨id, fd, .active, none, none, ring, some []⟩) :
      Move P σ
        ((({ σ with ids := id :: σ.ids }.openFd fd (.master id)).register fd).putSession id s)
  | remove {id : Uuid} {s : Session} (hs : σ.sessions.lookup id = some s) :
      Move P σ ((σ.removeSession id).closeFd s.masterFd)
  | unregister {fd : RawFd} (hclosed : σ.fds.lookup fd = none) : Move P σ (σ.unregister fd)
  | accept {fd : RawFd} (hfree : σ.freeFd fd = true) : Move P σ (σ.acceptClient fd)

def Moves (P : Uuid → Prop) : Server → Server → Prop := Relation.ReflTransGen (Move P)

section

variable {P : Uuid → Prop} {σ σ' σ'' : Server}

theorem Move.moves (h : Move P σ σ') : Moves P σ σ' := Relation.ReflTransGen.single h

theorem Aside.moves (h : Aside σ σ') : Moves P σ σ' := (Move.aside h).moves

theorem Moves.refl (σ : Server) : Moves P σ σ := Relation.ReflTransGen.refl

theorem Moves.trans (h : Moves P σ σ') (h' : Moves P σ' σ'') : Moves P σ σ'' :=
  Relation.ReflTransGen.trans h h'

end

/-- The PTY of `id` goes to connection `conn`, its owner from now on. -/
inductive Handover (id : Uuid) (conn : Nat) (σ : Server) : Server → Prop
  | attached {s : Session} {fd d : RawFd} (hs : σ.sessions.lookup id = some s)
      (hstate : s.state = .attached) (howner : s.ownerFd = some fd)
      (hconn : σ.connOf fd = some conn) (hd : σ.pendingDupFds.lookup id = some d) :
      Handover id conn σ
        (((σ.dropPending id).emit (.sent conn (.fd id))).closeFd d)
  | returned {s s' : Session} {fd : RawFd} (hs : σ.sessions.lookup id = some s)
      (hprev : s.previousOwnerFd = some fd) (hconn : σ.connOf fd = some conn)
      (hs' : s'.core =
        { s.core with state := .attached, ownerFd := some fd, previousOwnerFd := none }) :
      Handover id conn σ
        ((((σ.emit (.sent conn (.fd id))).unregister s.masterFd).putSession id s').emit
          (.returned id conn))

/-- A handler makes some moves, and at the end may pass one PTY on. -/
inductive Outcome (P : Uuid → Prop) (σ σ' : Server) : Prop
  | plain (h : Moves P σ σ')
  | passes {τ ρ : Server} {id : Uuid} {conn : Nat} (hP : P id) (h : Moves P σ τ)
      (hpass : Handover id conn τ ρ) (haside : Aside ρ σ')

namespace Outcome

variable {P : Uuid → Prop} {σ τ ρ : Server}

theorem of_moves (h : Moves P σ τ) (h' : Outcome P τ ρ) : Outcome P σ ρ := by
  cases h' with
  | plain hm => exact .plain (h.trans hm)
  | passes hP hm hpass haside => exact .passes hP (h.trans hm) hpass haside

theorem then_aside (h : Outcome P σ τ) (h' : Aside τ ρ) : Outcome P σ ρ := by
  cases h with
  | plain hm => exact .plain (hm.trans h'.moves)
  | passes hP hm hpass haside => exact .passes hP hm hpass (haside.trans h')

end Outcome

end Server

end PtyDaemon
