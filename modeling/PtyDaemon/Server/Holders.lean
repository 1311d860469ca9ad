import PtyDaemon.Server.FdBooks
import PtyDaemon.Wire.Occurrences

/-!
# Who holds a descriptor

Between two events every open master belongs to a session and every open stream to a connection,
and no duplicate waits to be passed on. So the daemon has open then the listener, the two ends of the
pipe, its connections and one master for every session.
-/

namespace PtyDaemon

open Ledger (held)

namespace Server

variable {P : Uuid → Prop} {J : Codec} {σ σ' : Server} {e : Event}

/-- Every open master is the master of a session, and every open stream that of a connection. -/
structure Accounted (σ : Server) : Prop where
  master : ∀ {fd id}, σ.fds.lookup fd = some (.master id) →
    ∃ c, σ.coreOf id = some c ∧ c.masterFd = fd
  client : ∀ {fd conn}, σ.fds.lookup fd = some (.client conn) → σ.connOf fd = some conn

namespace Accounted

/-- Descriptors are only closed, and sessions keep their masters. -/
theorem shrink (h : Accounted σ)
    (hfds : ∀ fd o, σ'.fds.lookup fd = some o → σ.fds.lookup fd = some o)
    (hsessions : ∀ {fd id c}, σ'.fds.lookup fd = some (.master id) → σ.coreOf id = some c →
      ∃ c', σ'.coreOf id = some c' ∧ c'.masterFd = c.masterFd)
    (hconns : ∀ {fd conn}, σ'.fds.lookup fd = some (.client conn) → σ'.connOf fd = σ.connOf fd) :
    Accounted σ' where
  master := by
    intro fd id hfd
    obtain ⟨c, hc, hmaster⟩ := h.master (hfds fd _ hfd)
    obtain ⟨c', hc', hsame⟩ := hsessions hfd hc
    exact ⟨c', hc', hsame.trans hmaster⟩
  client := by
    intro fd conn hfd
    rw [hconns hfd]
    exact h.client (hfds fd _ hfd)

/-- A session is replaced by one with the same master. -/
theorem replace (h : Accounted σ) {id : Uuid} {s s' : Session} (hs : σ.sessions.lookup id = some s)
    (hmaster : s'.masterFd = s.masterFd) (hfds : σ'.fds = σ.fds)
    (hsessions : σ'.sessions = σ.sessions.insert id s') (hclients : σ'.clients = σ.clients) :
    Accounted σ' := by
  have hcore : ∀ i, σ'.coreOf i = if i = id then some s'.core else σ.coreOf i := by
    intro i
    rw [← coreOf_putSession]
    exact congrArg (fun t : Sessions => (t.lookup i).map Session.core) hsessions
  apply h.shrink
  · intro fd o hfd
    rwa [hfds] at hfd
  · intro fd i c _ hc
    rw [hcore]
    split
    · rename_i hi
      rw [hi, coreOf_eq_some hs] at hc
      cases hc
      exact ⟨s'.core, rfl, hmaster⟩
    · exact ⟨c, hc, rfl⟩
  · intro fd conn _
    rw [connOf, connOf, hclients]

private theorem aside (h : Accounted σ) (haside : Aside σ σ') : Accounted σ' := by
  apply h.shrink
  · intro fd o hfd
    rwa [haside.fds] at hfd
  · intro fd id c _ hc
    exact ⟨c, (haside.sessions id).trans hc, rfl⟩
  · intro fd conn _
    exact haside.clients fd

/-- Nothing but filters and the shared table changes. -/
theorem same (h : Accounted σ) (hfds : σ'.fds = σ.fds) (hsessions : σ'.sessions = σ.sessions)
    (hclients : σ'.clients = σ.clients) : Accounted σ' := by
  apply h.shrink
  · intro fd o hfd
    rwa [hfds] at hfd
  · intro fd id c _ hc
    refine ⟨c, ?_, rfl⟩
    rw [coreOf, hsessions]
    exact hc
  · intro fd conn _
    rw [connOf, connOf, hclients]

/-- A duplicate comes or goes. -/
theorem erase (h : Accounted σ) {fd : RawFd} (hfds : σ'.fds = σ.fds.erase fd)
    (hsessions : σ'.sessions = σ.sessions) (hclients : σ'.clients = σ.clients) :
    Accounted σ' := by
  apply h.shrink
  · intro x o hx
    rw [hfds, Table.lookup_erase] at hx
    split at hx
    · cases hx
    · exact hx
  · intro x id c _ hc
    refine ⟨c, ?_, rfl⟩
    rw [coreOf, hsessions]
    exact hc
  · intro x conn _
    rw [connOf, connOf, hclients]

/-- A descriptor is opened for somebody. -/
theorem opened (h : Accounted σ) {fd : RawFd} {object : FdObject}
    (hfds : σ'.fds = σ.fds.insert fd object)
    (hmaster : ∀ id, object = .master id → ∃ c, σ'.coreOf id = some c ∧ c.masterFd = fd)
    (hclient : ∀ conn, object = .client conn → σ'.connOf fd = some conn)
    (hsessions : ∀ {id c}, σ.coreOf id = some c → σ'.coreOf id = some c)
    (hconns : ∀ {x}, x ≠ fd → σ'.connOf x = σ.connOf x) : Accounted σ' := by
  constructor
  · intro x id hx
    rw [hfds, Table.lookup_insert] at hx
    split at hx
    · rename_i hfd
      rw [hfd]
      exact hmaster id (Option.some.inj hx)
    · obtain ⟨c, hc, hsame⟩ := h.master hx
      exact ⟨c, hsessions hc, hsame⟩
  · intro x conn hx
    rw [hfds, Table.lookup_insert] at hx
    split at hx
    · rename_i hfd
      rw [hfd]
      exact hclient conn (Option.some.inj hx)
    · rename_i hfd
      rw [hconns hfd]
      exact h.client hx

private theorem move (h : Accounted σ) (hinv : Inv σ) (hmove : Move P σ σ') : Accounted σ' := by
  cases hmove with
  | aside haside => exact h.aside haside
  | notify _ => exact h.same rfl rfl rfl
  | detach _ hs hs' => exact h.replace hs (congrArg Core.masterFd hs') rfl rfl rfl
  | takeOver _ hs _ hs' => exact h.replace hs (congrArg Core.masterFd hs') rfl rfl rfl
  | forget _ hs hs' => exact h.replace hs (congrArg Core.masterFd hs') rfl rfl rfl
  | listen _ _ => exact h.same rfl rfl rfl
  | attach _ hs _ _ hs' => exact h.replace hs (congrArg Core.masterFd hs') rfl rfl rfl
  | stash _ =>
    exact h.opened rfl (fun _ h => by cases h) (fun _ h => by cases h) (fun hc => hc) fun _ => rfl
  | unstash _ => exact h.erase rfl rfl rfl
  | @flash id d hfree =>
    have hsame : ((σ.openFd d (.dup id)).closeFd d).fds = σ.fds :=
      Table.erase_insert (freeFd_lookup hfree) _
    exact h.same hsame rfl rfl
  | @create id fd s _ ring hfree hid _ hs =>
    have hcore := coreOf_putSession
      (({ σ with ids := id :: σ.ids }.openFd fd (.master id)).register fd) id s
    refine h.opened rfl ?_ (fun _ h => by cases h) ?_ fun _ => rfl
    · intro i hi
      cases hi
      refine ⟨s.core, ?_, by rw [hs]⟩
      rw [hcore, if_pos rfl]
    · intro i c hc
      have hne : i ≠ id := fun hi => hid (hi ▸ (hinv.session hc).known)
      rw [hcore, if_neg hne]
      exact hc
  | @remove id s hs =>
    have hfds := Table.lookup_erase σ.fds s.masterFd
    apply h.shrink
    · intro fd o hfd
      rw [show ((σ.removeSession id).closeFd s.masterFd).fds.lookup fd = _ from hfds fd] at hfd
      split at hfd
      · cases hfd
      · exact hfd
    · intro fd i c hfd hc
      rw [show ((σ.removeSession id).closeFd s.masterFd).fds.lookup fd = _ from hfds fd] at hfd
      split at hfd
      · cases hfd
      · rename_i hne
        -- the master of the removed session is the one that is closed
        have hi : i ≠ id := by
          rintro rfl
          obtain ⟨c', hc', hmaster⟩ := h.master hfd
          rw [coreOf_eq_some hs] at hc'
          cases hc'
          exact hne hmaster.symm
        refine ⟨c, ?_, rfl⟩
        rw [show ((σ.removeSession id).closeFd s.masterFd).coreOf i = _ from
          coreOf_removeSession σ id i, if_neg hi]
        exact hc
    · intro _ _ _
      rfl
  | unregister _ => exact h.same rfl rfl rfl
  | @accept fd hfree =>
    have hconn := fun x => Table.lookup_insert σ.clients fd x ⟨σ.accepted, []⟩
    refine h.opened rfl (fun _ h => by cases h) ?_ (fun hc => hc) ?_
    · intro conn hconn'
      cases hconn'
      rw [connOf, show (σ.acceptClient fd).clients.lookup fd = _ from hconn fd, if_pos rfl]
      rfl
    · intro x hx
      rw [connOf, show (σ.acceptClient fd).clients.lookup x = _ from hconn x, if_neg hx]
      rfl

private theorem moves (h : Accounted σ) (hinv : Inv σ) (hmoves : Moves P σ σ') : Accounted σ' := by
  induction hmoves with
  | refl => exact h
  | tail hprefix hmove ih => exact ih.move (Moves.inv hprefix hinv) hmove

private theorem event (h : Accounted σ) (hinv : Inv σ) (hpending : σ.pendingDupFds = ∅)
    (hevent : σ.event J e = .ok σ') : Accounted σ' := by
  have harrive : Accounted (σ.arrive e) := by
    cases e <;> first | exact h | exact h.same rfl rfl rfl
  cases event_effect hinv hevent with
  | handled hout =>
    cases hout with
    | plain hmoves => exact harrive.moves (hinv.arrive e) hmoves
    | passes _ hmoves hpass haside =>
      refine Accounted.aside ?_ haside
      have hτ := harrive.moves (hinv.arrive e) hmoves
      cases hpass with
      | attached _ _ _ _ _ => exact hτ.erase rfl rfl rfl
      | returned hs _ _ hs' => exact hτ.replace hs (congrArg Core.masterFd hs') rfl rfl rfl
  | read he hread =>
    cases hread with
    | mk hs _ _ hs' => exact h.replace hs (congrArg Core.masterFd hs') rfl rfl rfl
  | @lost fd conn he hconn hdisc =>
    subst he
    simp only [Server.event, hconn, Option.isSome_some, if_true] at hevent
    obtain ⟨_, hposts⟩ := handleClientDisconnect_posts hinv hpending hconn hevent
    have hfds : σ'.fds = σ.fds.erase fd := by
      have htable := hposts.table
      rw [Ledger.replay_closed (hinv.client hconn)] at htable
      exact (Option.some.inj htable).symm
    apply h.shrink
    · intro x o hx
      rw [hfds, Table.lookup_erase] at hx
      split at hx
      · cases hx
      · exact hx
    · intro x id c _ hc
      obtain ⟨s, hs, rfl⟩ := Option.map_eq_some_iff.mp hc
      have hmaster : (s.forget fd).core.masterFd = s.core.masterFd := by rw [s.forget_core fd]
      by_cases howner : s.ownerFd = some fd
      · obtain ⟨ringData, _, hs'⟩ := hdisc.owned hs howner
        exact ⟨_, coreOf_eq_some hs', hmaster⟩
      · exact ⟨_, coreOf_eq_some (hdisc.others hs howner), hmaster⟩
    · intro x conn' hx
      rw [hdisc.conns, if_neg]
      rintro rfl
      rw [hfds, Table.lookup_erase, if_pos rfl] at hx
      cases hx

end Accounted

private theorem Move.nodup (hmove : Move P σ σ') (h : σ.ids.Nodup) : σ'.ids.Nodup := by
  cases hmove with
  | aside haside => rwa [haside.ids]
  | create _ hid _ _ => exact List.nodup_cons.mpr ⟨hid, h⟩
  | _ => exact h

private theorem Moves.nodup (hmoves : Moves P σ σ') (h : σ.ids.Nodup) : σ'.ids.Nodup := by
  induction hmoves with
  | refl => exact h
  | tail _ hmove ih => exact hmove.nodup ih

private theorem event_nodup (hinv : Inv σ) (hevent : σ.event J e = .ok σ') (h : σ.ids.Nodup) :
    σ'.ids.Nodup := by
  have harrive : (σ.arrive e).ids.Nodup := by cases e <;> exact h
  cases event_effect hinv hevent with
  | handled hout =>
    cases hout with
    | plain hmoves => exact hmoves.nodup harrive
    | passes _ hmoves hpass haside =>
      have hτ := hmoves.nodup harrive
      rw [haside.ids]
      cases hpass <;> exact hτ
  | read _ hread =>
    cases hread
    exact h
  | lost _ _ hdisc =>
    rw [hdisc.ids]
    exact h

/-- Between two events: nothing waits to be passed on, and every descriptor has its holder. -/
structure Settled (σ : Server) : Prop where
  inv : Inv σ
  pending : σ.pendingDupFds = ∅
  accounted : Accounted σ
  nodup : σ.ids.Nodup

theorem Settled.event (h : Settled σ) (hevent : σ.event J e = .ok σ') : Settled σ' where
  inv := event_inv h.inv hevent
  pending := (event_posts h.inv h.pending hevent).pending.trans h.pending
  accounted := h.accounted.event h.inv h.pending hevent
  nodup := event_nodup h.inv hevent h.nodup

theorem Settled.aside (h : Settled σ) (haside : Aside σ σ') : Settled σ' where
  inv := h.inv.aside haside
  pending := haside.pending.trans h.pending
  accounted := h.accounted.aside haside
  nodup := by
    rw [haside.ids]
    exact h.nodup

/-- At first there are the listener and the pipe. -/
theorem new_fds {listener : RawFd} {wakeup : Option (RawFd × RawFd)} {now : Nat} {fd : RawFd}
    {o : FdObject} (h : (Server.new listener wakeup now).fds.lookup fd = some o) :
    o = .listener ∨ o = .wakeup := by
  have hlistener : AList.lookup fd (AList.singleton listener FdObject.listener :
      Table RawFd FdObject) = some o → o = .listener := by
    intro ho
    have hmem : (⟨fd, o⟩ : (_ : RawFd) × FdObject) ∈ [⟨listener, .listener⟩] :=
      AList.mem_lookup_iff.mp ho
    cases List.mem_singleton.mp hmem
    rfl
  cases wakeup with
  | none => exact .inl (hlistener h)
  | some p =>
    simp only [Server.new, Table.lookup_insert] at h
    split at h
    · cases h
      exact .inr rfl
    · split at h
      · cases h
        exact .inr rfl
      · exact .inl (hlistener h)

theorem new_pipeOpen {listener : RawFd} {p : RawFd × RawFd} {now : Nat} :
    (Server.new listener (some p) now).fds.lookup p.1 = some .wakeup ∧
      (Server.new listener (some p) now).fds.lookup p.2 = some .wakeup := by
  simp only [Server.new, Table.lookup_insert, if_true]
  constructor
  · split <;> rfl
  · trivial

theorem Settled.new (listener : RawFd) (wakeup : Option (RawFd × RawFd)) (now : Nat) :
    Settled (Server.new listener wakeup now) where
  inv := new_inv listener wakeup now
  pending := rfl
  accounted := by
    constructor
    · intro fd id hfd
      rcases new_fds hfd with h | h <;> cases h
    · intro fd conn hfd
      rcases new_fds hfd with h | h <;> cases h
  nodup := List.nodup_nil

/-! ## While no event is handled -/

variable {id : Uuid} {m : Occurrence}

/-- Nothing is on its way to a client. -/
structure AtRest (σ : Server) : Prop where
  settled : Settled σ
  dups : ∀ fd id, σ.fds.lookup fd ≠ some (.dup id)

theorem AtRest.event (h : AtRest σ) (hevent : σ.event J e = .ok σ') : AtRest σ' where
  settled := h.settled.event hevent
  dups fd id := by
    have hposts := event_posts h.settled.inv h.settled.pending hevent
    have hbalance := Ledger.balance (.dup id) hposts.table
    have hheld : held (.dup id) σ.fds = 0 := Ledger.held_eq_zero fun fd => h.dups fd id
    rw [hposts.dups, hheld] at hbalance
    exact Ledger.ne_of_held_eq_zero (by omega) fd

private theorem AtRest.aside (h : AtRest σ) (haside : Aside σ σ') : AtRest σ' where
  settled := h.settled.aside haside
  dups := by
    rw [haside.fds]
    exact h.dups

private theorem AtRest.occur (h : AtRest σ) (hstep : σ.occur J m = some σ') : AtRest σ' := by
  rcases occur_cases hstep with ⟨e, _, hevent⟩ | ⟨_, haside, _⟩
  · exact h.event hevent
  · exact h.aside haside

private theorem new_atRest (listener : RawFd) (wakeup : Option (RawFd × RawFd)) (now : Nat) :
    AtRest (Server.new listener wakeup now) where
  settled := Settled.new listener wakeup now
  dups fd id hfd := by
    rcases new_fds hfd with h | h
    · cases h
    · cases h

theorem occurrences_atRest (h : (occurrences J).Reachable σ) : AtRest σ := by
  apply h.invariant
  · rintro _ ⟨listener, wakeup, now, rfl⟩
    exact new_atRest listener wakeup now
  · intro σ m σ' hrest _ hstep
    exact hrest.occur hstep

end Server

end PtyDaemon
