import PtyDaemon.Server.Holders
import PtyDaemon.Wire.Turns

/-!
# Descriptors are closed once

In every run the ledger of the descriptors opened and closed can be replayed: no number is closed
that refers to something else, and what has been opened is either closed or held by a session, a
connection, the listener or the pipe. At the end `cleanup` closes the masters and the pipe, running
it once more closes nothing, and the fields dropped after it close the rest.
-/

namespace PtyDaemon

open Ledger (replay opens closes held)

namespace Server

variable {J : Codec} {env : Env} {σ σ' : Server}

/-- The requests of a buffer one after another. -/
theorem decodeLoop_posts {fd : RawFd} {envs : List Env} (h : Settled σ)
    (hloop : decodeLoop J fd envs σ = .ok σ') :
    Settled σ' ∧ Posts (decodeLoopCalls J fd envs σ) σ σ' := by
  induction envs generalizing σ with
  | nil =>
    unfold decodeLoop at hloop
    split at hloop
    · cases hloop
    · split at hloop
      · cases hloop
        exact ⟨h, (Still.refl _).posts⟩
      · cases hloop
      · rename_i heq
        cases heq
  | cons env envs ih =>
    unfold decodeLoop at hloop
    cases hclient : σ.clients.lookup fd with
    | none =>
      rw [hclient] at hloop
      cases hloop
    | some client =>
      rw [hclient] at hloop
      dsimp only at hloop
      cases hmessage : tryDecodeMessage J.request client.readBuf with
      | none =>
        rw [hmessage] at hloop
        cases hloop
        simp only [decodeLoopCalls, hclient, hmessage]
        exact ⟨h, (Still.refl _).posts⟩
      | some message =>
        obtain ⟨result, consumed⟩ := message
        rw [hmessage] at hloop
        dsimp only at hloop
        split at hloop
        · rename_i hadmits
          obtain ⟨τ, hτ, hloop⟩ := ok_of_bind hloop
          have hconn : (σ.connOf fd).isSome = true := by
            rw [connOf, hclient, Option.map_some, Option.isSome_some]
          have hevent : σ.event J (.request fd result consumed env) = .ok τ := by
            rw [Server.event, hconn, hadmits, Bool.and_self, if_pos rfl]
            exact hτ
          obtain ⟨hsettled, hposts⟩ := ih (h.event hevent) hloop
          refine ⟨hsettled, ?_⟩
          simp only [decodeLoopCalls, hclient, hmessage, hτ]
          exact (event_posts h.inv h.pending hevent).trans hposts
        · cases hloop

/-! ## The end -/

private theorem killSession_posts (env : Env) {id : Uuid} {s : Session}
    (hs : σ.sessions.lookup id = some s)
    (hmaster : σ.fds.lookup s.masterFd = some (.master s.id)) :
    Posts (σ.killSessionCalls id) σ (σ.killSession env id) := by
  simp only [killSessionCalls, killSession, hs, Session.endCalls_eq]
  have hremoved : Still σ (σ.removeSession id) := ⟨rfl, rfl, rfl, rfl, rfl, rfl⟩
  exact hremoved.then (cleanupSession_posts env hmaster)

private theorem killAll_posts (env : Env) {ids : List Uuid} (hnodup : ids.Nodup)
    (hlive : ∀ id ∈ ids, ∃ s, σ.sessions.lookup id = some s ∧ s.id = id ∧
      σ.fds.lookup s.masterFd = some (.master id)) :
    Posts (σ.killAllCalls env ids) σ (ids.foldl (killSession env) σ) ∧
      ∀ fd o, (ids.foldl (killSession env) σ).fds.lookup fd = some o →
        σ.fds.lookup fd = some o := by
  induction ids generalizing σ with
  | nil => exact ⟨(Still.refl σ).posts, fun _ _ h => h⟩
  | cons id ids ih =>
    obtain ⟨s, hs, rfl, hmaster⟩ := hlive id List.mem_cons_self
    rw [List.nodup_cons] at hnodup
    have hfds : (σ.killSession env s.id).fds = σ.fds.erase s.masterFd := by
      simp only [killSession, hs]
      exact (cleanupSession_fds env (σ.removeSession s.id) s).1
    have hrest := ih hnodup.2 fun i hi => by
      obtain ⟨t, ht, hid, htmaster⟩ := hlive i (List.mem_cons_of_mem _ hi)
      have hne : i ≠ s.id := fun h => hnodup.1 (h ▸ hi)
      have hother : t.masterFd ≠ s.masterFd := by
        intro heq
        rw [heq, hmaster] at htmaster
        exact hne (FdObject.master.inj (Option.some.inj htmaster)).symm
      refine ⟨t, ?_, hid, ?_⟩
      · rw [killSession_lookup, if_neg hne]
        exact ht
      · rw [hfds, Table.lookup_erase, if_neg hother]
        exact htmaster
    refine ⟨(killSession_posts env hs hmaster).trans hrest.1, fun fd o hfd => ?_⟩
    have hfd := hrest.2 fd o hfd
    rw [hfds, Table.lookup_erase] at hfd
    split at hfd
    · cases hfd
    · exact hfd

private theorem killAllCalls_closed (env : Env) (σ : Server) (ids : List Uuid) :
    ∀ call ∈ σ.killAllCalls env ids, ∃ fd id, call = .closed fd (.master id) := by
  induction ids generalizing σ with
  | nil =>
    intro call hcall
    cases hcall
  | cons id ids ih =>
    intro call hcall
    rcases List.mem_append.mp hcall with hcall | hcall
    · unfold killSessionCalls at hcall
      split at hcall
      · cases hcall
      · rw [Session.endCalls_eq] at hcall
        exact ⟨_, _, List.mem_singleton.mp hcall⟩
    · exact ih _ call hcall

/-- The pipe has two ends, both open. -/
def PipeOpen (σ : Server) : Prop :=
  ∀ p, σ.wsWakeupPipe = some p →
    p.1 ≠ p.2 ∧ σ.fds.lookup p.1 = some .wakeup ∧ σ.fds.lookup p.2 = some .wakeup

private theorem closePipe_posts (h : PipeOpen σ) :
    replay σ.closePipeCalls σ.fds = some σ.closePipe.fds ∧
      σ.closePipe.fdOps = (σ.closePipeCalls.map FdCall.op).reverse ++ σ.fdOps ∧
      σ.closePipe.wsWakeupPipe = none ∧
      (∀ fd o, σ.closePipe.fds.lookup fd = some o → σ.fds.lookup fd = some o) ∧
      (∀ p, σ.wsWakeupPipe = some p →
        σ.closePipe.fds.lookup p.1 = none ∧ σ.closePipe.fds.lookup p.2 = none) ∧
      σ.closePipe.sessions = σ.sessions ∧ σ.closePipe.pendingDupFds = σ.pendingDupFds := by
  cases hp : σ.wsWakeupPipe with
  | none =>
    simp only [closePipeCalls, closePipe, hp]
    exact ⟨rfl, rfl, trivial, fun _ _ h => h, fun _ h => (nomatch h), trivial, trivial⟩
  | some p =>
    obtain ⟨readFd, writeFd⟩ := p
    obtain ⟨hne, hread, hwrite⟩ := h _ hp
    simp only [closePipeCalls, closePipe, hp]
    have hwrite' : AList.lookup writeFd (σ.fds.erase readFd) = some .wakeup := by
      rw [Table.lookup_erase, if_neg hne.symm]
      exact hwrite
    have hlookup : ∀ fd, AList.lookup fd ((σ.closeFd readFd).closeFd writeFd).fds =
        if fd = writeFd then none else if fd = readFd then none else σ.fds.lookup fd := by
      intro fd
      change AList.lookup fd ((σ.fds.erase readFd).erase writeFd) = _
      rw [Table.lookup_erase, Table.lookup_erase]
    refine ⟨?_, rfl, trivial, fun fd o hfd => ?_, ?_, rfl, rfl⟩
    · exact Ledger.replay_trans (Ledger.replay_closed hread) (Ledger.replay_closed hwrite')
    · have hfd := (hlookup fd).symm.trans hfd
      split at hfd
      · cases hfd
      · split at hfd
        · cases hfd
        · exact hfd
    · rintro p ⟨⟩
      rw [hlookup, hlookup]
      simp

/-- Where nothing is left there is nothing to close. -/
theorem cleanupCalls_eq_nil (env : Env) (hsessions : ∀ id, σ.sessions.lookup id = none)
    (hpending : σ.pendingDupFds = ∅) (hpipe : σ.wsWakeupPipe = none) :
    σ.cleanupCalls env = [] := by
  have hvalues : Table.values σ.tellAll.sessions = [] := Table.values_eq_nil hsessions
  have hlist : σ.tellAll.sessions.list = [] := by
    rw [Sessions.list, hvalues]
    exact List.mergeSort_nil
  have hpending' : σ.tellAll.pendingDupFds = ∅ := hpending
  have hpipe' : σ.tellAll.closeAllPending.wsWakeupPipe = none := by
    simp only [closeAllPending, hpending']
    exact hpipe
  simp only [cleanupCalls, hlist, List.map_nil, killAllCalls, List.foldl_nil,
    closeAllPendingCalls, hpending', closePipeCalls, hpipe']
  rfl

/-- The calls of `cleanup` can be made, they close every master and the pipe, and a second `cleanup`
makes none. -/
structure Cleaned (env : Env) (σ : Server) : Prop where
  ops : (σ.cleanup env).fdOps = ((σ.cleanupCalls env).map FdCall.op).reverse ++ σ.fdOps
  table : replay (σ.cleanupCalls env) σ.fds = some (σ.cleanup env).fds
  masters : ∀ fd id, (σ.cleanup env).fds.lookup fd ≠ some (.master id)
  pipe : ∀ p, σ.wsWakeupPipe = some p →
    (σ.cleanup env).fds.lookup p.1 = none ∧ (σ.cleanup env).fds.lookup p.2 = none
  onlyCloses : ∀ call ∈ σ.cleanupCalls env,
    (∃ fd id, call = .closed fd (.master id)) ∨ ∃ fd, call = .closed fd .wakeup
  again : ∀ env', (σ.cleanup env).cleanupCalls env' = []

private theorem Settled.cleaned (h : Settled σ) (hpipe : PipeOpen σ) (env : Env) :
    Cleaned env σ := by
  have hkey := fun {id s} => @SessionsOpen.key σ h.inv.sessionsOpen id s
  have hnodup : (σ.tellAll.sessions.list.map Session.id).Nodup :=
    ((List.mergeSort_perm σ.sessions.values _).map _).nodup_iff.mpr
      (Table.nodup_map_values fun _ _ hs => hkey hs)
  have hlive : ∀ id ∈ σ.tellAll.sessions.list.map Session.id, ∃ s,
      σ.tellAll.sessions.lookup id = some s ∧ s.id = id ∧
        σ.tellAll.fds.lookup s.masterFd = some (.master id) := by
    intro id hid
    obtain ⟨s, hs, rfl⟩ := List.mem_map.mp hid
    obtain ⟨k, hk⟩ := Table.mem_values.mp (List.mem_mergeSort.mp hs)
    obtain ⟨hid, _, hmaster⟩ := h.inv.masterOpen hk
    exact ⟨s, hid.symm ▸ hk, rfl, hmaster⟩
  obtain ⟨hkilled, hshrunk⟩ := killAll_posts env hnodup hlive
  obtain ⟨hgone, hmasters⟩ := cleanup_kills env h.inv
  -- the daemon after the sessions, and after what is still to be passed on: nothing
  let τ := (σ.tellAll.sessions.list.map Session.id).foldl (killSession env) σ.tellAll
  have hτ : τ.pendingDupFds = ∅ := hkilled.pending.trans h.pending
  have hnothing : τ.closeAllPendingCalls = [] := by
    rw [closeAllPendingCalls, hτ]
    rfl
  have hsame : Still τ τ.closeAllPending := by
    simp only [closeAllPending, hτ]
    exact ⟨rfl, hτ.symm, rfl, rfl, rfl, rfl⟩
  have hpipeOpen : PipeOpen τ.closeAllPending := by
    intro p hp
    rw [hsame.pipe, hkilled.pipe] at hp
    obtain ⟨hne, hread, hwrite⟩ := hpipe p hp
    rw [hsame.fds]
    have hclosed := (Nat.add_eq_zero_iff.mp hkilled.wakeup).2
    exact ⟨hne, Ledger.replay_kept hkilled.table hread hclosed,
      Ledger.replay_kept hkilled.table hwrite hclosed⟩
  obtain ⟨htable, hops, hnone, hfewer, hends, hsessions, hpending⟩ := closePipe_posts hpipeOpen
  have hdone : σ.cleanup env = τ.closeAllPending.closePipe := rfl
  have hcalls : σ.cleanupCalls env =
      σ.tellAll.killAllCalls env (σ.tellAll.sessions.list.map Session.id) ++
        τ.closeAllPending.closePipeCalls := by
    rw [cleanupCalls, show _ = τ.closeAllPendingCalls from rfl]
    simp [hnothing, τ]
  constructor
  case ops =>
    rw [hcalls, hdone, hops, hsame.ops, hkilled.ops, List.map_append, List.reverse_append,
      List.append_assoc]
    rfl
  case table =>
    rw [hcalls, hdone]
    refine Ledger.replay_trans hkilled.table ?_
    rw [← hsame.fds]
    exact htable
  case masters =>
    intro fd id hfd
    have hbefore := hshrunk fd _ (hsame.fds ▸ hfewer fd _ (hdone ▸ hfd))
    obtain ⟨c, hc, rfl⟩ := h.accounted.master hbefore
    obtain ⟨s, hs, rfl⟩ := Option.map_eq_some_iff.mp hc
    have hclosed := (hmasters hs).closed
    rw [show s.core.masterFd = s.masterFd from rfl, hclosed] at hfd
    cases hfd
  case pipe =>
    intro p hp
    rw [hdone]
    apply hends p
    rw [hsame.pipe, hkilled.pipe]
    exact hp
  case onlyCloses =>
    intro call hcall
    rw [hcalls] at hcall
    rcases List.mem_append.mp hcall with hcall | hcall
    · exact .inl (killAllCalls_closed env _ _ call hcall)
    · unfold closePipeCalls at hcall
      split at hcall
      · cases hcall
      · simp only [List.mem_cons, List.not_mem_nil, or_false] at hcall
        rcases hcall with rfl | rfl
        · exact .inr ⟨_, rfl⟩
        · exact .inr ⟨_, rfl⟩
  case again =>
    intro env'
    refine cleanupCalls_eq_nil env' hgone ?_ hnone
    rw [hdone]
    exact (hpending.trans hsame.pending).trans hτ

private theorem closeAll_fds (σ : Server) (fds : List RawFd) :
    (fds.foldl closeFd σ).fds = fds.foldl (fun t fd => t.erase fd) σ.fds ∧
      (fds.foldl closeFd σ).fdOps = (fds.map FdOp.closed).reverse ++ σ.fdOps := by
  induction fds generalizing σ with
  | nil => exact ⟨rfl, rfl⟩
  | cons fd fds ih =>
    obtain ⟨hfds, hops⟩ := ih (σ.closeFd fd)
    refine ⟨hfds, hops.trans ?_⟩
    rw [List.map_cons, List.reverse_cons, List.append_assoc]
    rfl

/-- The fields that are dropped, each with what it holds. -/
private def fields (σ : Server) : List (RawFd × FdObject) :=
  (σ.listener, .listener) :: σ.clients.entries.map fun e => (e.1, .client e.2.stream)

private theorem fields_numbers (σ : Server) :
    σ.fields.map Prod.fst = σ.listener :: σ.clients.keys := by
  simp [fields, AList.keys, List.keys, Function.comp_def]

private theorem dropFieldsCalls_eq (σ : Server) :
    σ.dropFieldsCalls = σ.fields.map fun e => .closed e.1 e.2 := by
  simp [dropFieldsCalls, fields, Function.comp_def]

private theorem dropFields_ops (σ : Server) :
    σ.dropFields.fdOps = (σ.dropFieldsCalls.map FdCall.op).reverse ++ σ.fdOps := by
  have hops := (closeAll_fds (σ.closeFd σ.listener) σ.clients.keys).2
  have hcalls : σ.dropFieldsCalls.map FdCall.op =
      .closed σ.listener :: σ.clients.keys.map FdOp.closed := by
    have hnumbers := congrArg (List.map FdOp.closed) (fields_numbers σ)
    rw [List.map_map] at hnumbers
    rw [dropFieldsCalls_eq, List.map_map]
    exact hnumbers
  rw [dropFields, hops, hcalls, List.reverse_cons, List.append_assoc]
  rfl

/-- What the server itself has open: the listener, and the pipe while it has one. -/
structure OwnOpen (σ : Server) : Prop where
  listener : ∀ fd, σ.fds.lookup fd = some .listener ↔ fd = σ.listener
  wakeup : ∀ fd, σ.fds.lookup fd = some .wakeup →
    ∃ p, σ.wsWakeupPipe = some p ∧ (fd = p.1 ∨ fd = p.2)

/-- After `cleanup` the listener and the streams of the clients are closed, and nothing is left
open. -/
theorem Cleaned.dropped {τ : Server} (h : Settled σ) (hcleaned : Cleaned env σ)
    (hown : OwnOpen σ) (hdups : ∀ fd id, σ.fds.lookup fd ≠ some (.dup id))
    (hτ : σ.cleanup env = τ) :
    replay τ.dropFieldsCalls τ.fds = some τ.dropFields.fds ∧
      ∀ fd, τ.dropFields.fds.lookup fd = none := by
  obtain ⟨hclients, hlistener⟩ := cleanup_clients env σ
  have htable := hcleaned.table
  have hmasters := hcleaned.masters
  have hpipe := hcleaned.pipe
  rw [hτ] at hclients hlistener htable hmasters hpipe
  -- what is neither a master nor an end of the pipe is as before
  have hkept : ∀ {fd o}, (∀ id, o ≠ .master id) → o ≠ .wakeup → σ.fds.lookup fd = some o →
      τ.fds.lookup fd = some o := by
    intro fd o hmaster hwakeup hfd
    apply Ledger.replay_kept htable hfd
    apply List.countP_eq_zero.mpr
    intro call hcall
    rcases hcleaned.onlyCloses call hcall with ⟨_, id, rfl⟩ | ⟨_, rfl⟩
    · simpa using (hmaster id).symm
    · simpa using hwakeup.symm
  have hold : ∀ {fd o}, τ.fds.lookup fd = some o → σ.fds.lookup fd = some o := by
    intro fd o hfd
    apply Ledger.replay_old htable hfd
    apply Ledger.opens_eq_zero
    intro call hcall
    rcases hcleaned.onlyCloses call hcall with ⟨_, _, rfl⟩ | ⟨_, rfl⟩ <;> exact ⟨_, _, rfl⟩
  have hstream : ∀ {fd client}, τ.clients.lookup fd = some client →
      τ.fds.lookup fd = some (.client client.stream) := by
    intro fd client hclient
    have hconn : σ.connOf fd = some client.stream := by
      rw [connOf, ← hclients, hclient, Option.map_some]
    exact hkept (by simp) (by simp) (h.inv.client hconn)
  have hfds : τ.dropFields.fds =
      (τ.fields.map Prod.fst).foldl (fun t fd => t.erase fd) τ.fds := by
    rw [dropFields, (closeAll_fds _ _).1, fields_numbers, List.foldl_cons]
    rfl
  have hopen : τ.fds.lookup τ.listener = some .listener := by
    apply hkept (by simp) (by simp)
    rw [hlistener]
    exact (hown.listener _).mpr rfl
  constructor
  · rw [dropFieldsCalls_eq, hfds]
    apply Ledger.replay_closeAll
    · rw [fields_numbers, List.nodup_cons]
      refine ⟨?_, τ.clients.keys_nodup⟩
      intro hmem
      obtain ⟨client, hclient⟩ := Option.isSome_iff_exists.mp (AList.lookup_isSome.mpr hmem)
      rw [hstream hclient] at hopen
      cases hopen
    · intro e he
      rcases List.mem_cons.mp he with rfl | he
      · exact hopen
      · obtain ⟨entry, hentry, rfl⟩ := List.mem_map.mp he
        exact hstream (AList.mem_lookup_iff.mpr hentry)
  · intro fd
    rw [hfds, Ledger.lookup_eraseAll, fields_numbers]
    split
    · rfl
    · rename_i hnot
      rw [List.mem_cons, not_or] at hnot
      cases hfd : τ.fds.lookup fd with
      | none => rfl
      | some o =>
        cases o with
        | listener =>
          have hfd := (hown.listener fd).mp (hold hfd)
          exact absurd (hfd.trans hlistener.symm) hnot.1
        | wakeup =>
          obtain ⟨p, hp, hends⟩ := hown.wakeup fd (hold hfd)
          rcases hends with rfl | rfl
          · cases hfd.symm.trans (hpipe p hp).1
          · cases hfd.symm.trans (hpipe p hp).2
        | client conn =>
          have hconn := h.accounted.client (hold hfd)
          rw [connOf, ← hclients] at hconn
          obtain ⟨client, hclient, _⟩ := Option.map_eq_some_iff.mp hconn
          have hmem := AList.lookup_isSome.mp (Option.isSome_of_eq_some hclient)
          exact absurd hmem hnot.2
        | master id => exact absurd hfd (hmasters fd id)
        | dup id => exact absurd (hold hfd) (hdups fd id)

end Server

namespace Wire

open Server

variable {J : Codec} {w w' : Wire} {l : Label} {x x' : Transition.Recorded Wire FdCall}

/-- The calls on descriptors made in a step. -/
def fdCalls (J : Codec) (w : Wire) : Label → List FdCall
  | .data fd bytes envs =>
    match w.server.clients.lookup fd with
    | none => []
    | some client =>
      decodeLoopCalls J fd envs
        (w.server.putClient fd { client with readBuf := client.readBuf ++ bytes })
  | .daemon e => w.server.eventCalls J e
  | .tick _ _ => []

/-- The newest call comes first. -/
def fdNote (J : Codec) (w : Wire) (l : Label) (_ : Wire) : List FdCall := (w.fdCalls J l).reverse

private theorem step_posts (h : Settled w.server) (hstep : step J w l = some w') :
    Settled w'.server ∧ Posts (w.fdCalls J l) w.server w'.server := by
  cases l with
  | tick running idleSince =>
    cases hstep
    exact ⟨h.aside ⟨fun _ => rfl, fun _ => rfl, rfl, rfl, rfl, rfl, rfl, rfl, rfl, [], rfl,
      fun _ h => by cases h⟩, Still.posts ⟨rfl, rfl, rfl, rfl, rfl, rfl⟩⟩
  | daemon e =>
    rw [step] at hstep
    split at hstep
    · cases hstep
    · obtain ⟨σ', hevent, rfl⟩ := Option.map_eq_some_iff.mp hstep
      have hevent := ok_of_toOption hevent
      exact ⟨h.event hevent, event_posts h.inv h.pending hevent⟩
  | data fd bytes envs =>
    obtain ⟨conn, hconn, hstep⟩ := Option.bind_eq_some_iff.mp hstep
    obtain ⟨client, hclient, _⟩ := Option.map_eq_some_iff.mp hconn
    obtain ⟨p, hlog, rfl⟩ := Option.map_eq_some_iff.mp hstep
    have hloop : w.server.handleClientData J envs fd (.data bytes) = .ok p.1 := by
      rw [handleClientData_eq_log, ok_of_toOption hlog]
      rfl
    rw [handleClientData, hclient] at hloop
    have hput : Aside w.server
        (w.server.putClient fd { client with readBuf := client.readBuf ++ bytes }) :=
      .putClient hclient rfl
    have hstill : Still w.server
        (w.server.putClient fd { client with readBuf := client.readBuf ++ bytes }) :=
      ⟨rfl, rfl, rfl, rfl, rfl, rfl⟩
    obtain ⟨hsettled, hposts⟩ := decodeLoop_posts (h.aside hput) hloop
    simp only [fdCalls, hclient]
    exact ⟨hsettled, hstill.then hposts⟩

/-- What the ledger of a run says about the daemon at its end. -/
structure Accounts (x : Transition.Recorded Wire FdCall) (t : Table RawFd FdObject) : Prop where
  settled : Settled x.state.server
  ops : x.state.server.fdOps = x.log.map FdCall.op
  table : replay x.log.reverse t = some x.state.server.fds
  ids : ∀ id, x.state.server.ids.count id = opens (.master id) x.log.reverse
  dups : ∀ id, opens (.dup id) x.log.reverse = closes (.dup id) x.log.reverse
  listening : opens .listener x.log.reverse + closes .listener x.log.reverse = 0
  wakeup : opens .wakeup x.log.reverse + closes .wakeup x.log.reverse = 0

private theorem reachable_accounts (h : ((system J).record (fdNote J)).Reachable x) :
    ∃ listener wakeup now, x.state.server.listener = listener ∧
      x.state.server.wsWakeupPipe = wakeup ∧ Accounts x (Server.new listener wakeup now).fds := by
  apply h.invariant
  · rintro ⟨_, _⟩ ⟨⟨listener, wakeup, now, rfl⟩, rfl⟩
    exact ⟨listener, wakeup, now, rfl, rfl, .new listener wakeup now, rfl, rfl, fun _ => rfl,
      fun _ => rfl, rfl, rfl⟩
  · rintro y l y' ⟨listener, wakeup, now, hlistener, hpipe, haccounts⟩ _ hstep
    obtain ⟨hstep, hlog⟩ := Transition.System.step_record hstep
    obtain ⟨hsettled, hposts⟩ := step_posts haccounts.settled hstep
    have hcalls : y'.log.reverse = y.log.reverse ++ y.state.fdCalls J l := by
      rw [hlog, fdNote, List.reverse_append, List.reverse_reverse]
    have hops : y'.state.server.fdOps = y'.log.map FdCall.op := by
      rw [hposts.ops, haccounts.ops, hlog, fdNote, List.map_append, List.map_reverse]
    refine ⟨listener, wakeup, now, hposts.listener.trans hlistener, hposts.pipe.trans hpipe,
      hsettled, hops, ?_, ?_, ?_, ?_, ?_⟩
    all_goals rw [hcalls]
    · exact Ledger.replay_trans haccounts.table hposts.table
    · intro id
      rw [hposts.ids, haccounts.ids, Ledger.opens_append]
    · intro id
      rw [Ledger.opens_append, Ledger.closes_append, haccounts.dups, hposts.dups]
    · have hbefore := haccounts.listening
      have hnew := hposts.listening
      rw [Ledger.opens_append, Ledger.closes_append]
      omega
    · have hbefore := haccounts.wakeup
      have hnew := hposts.wakeup
      rw [Ledger.opens_append, Ledger.closes_append]
      omega

/-- Every session that is there holds its master, and no other does. -/
theorem held_master {σ : Server} (h : Settled σ) (id : Uuid) :
    held (.master id) σ.fds = if (σ.sessions.lookup id).isSome then 1 else 0 := by
  cases hs : σ.sessions.lookup id with
  | none =>
    rw [if_neg (by simp)]
    apply Ledger.held_eq_zero
    intro fd hfd
    obtain ⟨c, hc, _⟩ := h.accounted.master hfd
    rw [coreOf, hs] at hc
    cases hc
  | some s =>
    obtain ⟨hid, _, hmaster⟩ := h.inv.masterOpen hs
    rw [hid] at hmaster
    rw [if_pos (by simp)]
    apply Ledger.held_eq_one hmaster
    intro fd hfd
    obtain ⟨c, hc, rfl⟩ := h.accounted.master hfd
    rw [coreOf_eq_some hs] at hc
    cases hc
    rfl

/-- The descriptors of a run that has come as far as `x`, from the table it started with. -/
structure ClosedOnce (x : Transition.Recorded Wire FdCall) (t : Table RawFd FdObject) : Prop where
  /-- the ledger lists what the handlers have opened and closed -/
  ops : x.state.server.fdOps = x.log.map FdCall.op
  /-- no call was made on a number that referred to something else -/
  table : replay x.log.reverse t = some x.state.server.fds
  pending : x.state.server.pendingDupFds = ∅
  dups : ∀ id, closes (.dup id) x.log.reverse = opens (.dup id) x.log.reverse ∧
    ∀ fd, x.state.server.fds.lookup fd ≠ some (.dup id)
  masters : ∀ id, opens (.master id) x.log.reverse = (if id ∈ x.state.server.ids then 1 else 0) ∧
    closes (.master id) x.log.reverse =
      if id ∈ x.state.server.ids ∧ x.state.server.sessions.lookup id = none then 1 else 0
  /-- if the loop ends here: `cleanup`, and `cleanup` from `Drop` -/
  ended : ∀ env env',
    (x.state.server.cleanup env).fdOps =
      (x.log.reverse ++ x.state.server.cleanupCalls env).reverse.map FdCall.op ∧
    replay (x.log.reverse ++ x.state.server.cleanupCalls env) t =
      some (x.state.server.cleanup env).fds ∧
    (∀ id, closes (.master id) (x.log.reverse ++ x.state.server.cleanupCalls env) =
      if id ∈ x.state.server.ids then 1 else 0) ∧
    (x.state.server.cleanup env).cleanupCalls env' = []
  /-- and no descriptor is left open by the fields that are dropped then -/
  dropped : (∀ p, x.state.server.wsWakeupPipe = some p →
      x.state.server.listener ≠ p.1 ∧ x.state.server.listener ≠ p.2) → ∀ env,
    (x.state.server.cleanup env).dropFields.fdOps =
      (x.log.reverse ++ x.state.server.cleanupCalls env ++
        (x.state.server.cleanup env).dropFieldsCalls).reverse.map FdCall.op ∧
    replay (x.log.reverse ++ x.state.server.cleanupCalls env ++
        (x.state.server.cleanup env).dropFieldsCalls) t =
      some (x.state.server.cleanup env).dropFields.fds ∧
    ∀ fd, (x.state.server.cleanup env).dropFields.fds.lookup fd = none

/-- What a server has open at first is what it holds itself. -/
theorem new_own {listener : RawFd} {wakeup : Option (RawFd × RawFd)} {now : Nat}
    (hapart : ∀ p, wakeup = some p → listener ≠ p.1 ∧ listener ≠ p.2) :
    OwnOpen (Server.new listener wakeup now) := by
  have hlistener : ∀ fd, AList.lookup fd (AList.singleton listener FdObject.listener :
      Table RawFd FdObject) = if fd = listener then some .listener else none := by
    intro fd
    exact Table.lookup_insert ∅ listener fd FdObject.listener
  cases wakeup with
  | none =>
    constructor
    · intro fd
      rw [show (Server.new listener none now).fds.lookup fd = _ from hlistener fd]
      split
      · exact iff_of_true rfl ‹_›
      · exact iff_of_false (by simp) ‹_›
    · intro fd hfd
      rw [show (Server.new listener none now).fds.lookup fd = _ from hlistener fd] at hfd
      split at hfd <;> cases hfd
  | some p =>
    obtain ⟨hread, hwrite⟩ := hapart p rfl
    have hlookup : ∀ fd, (Server.new listener (some p) now).fds.lookup fd =
        if fd = p.2 then some .wakeup else if fd = p.1 then some .wakeup
        else if fd = listener then some .listener else none := by
      intro fd
      simp only [Server.new, Table.lookup_insert, hlistener]
    constructor
    · intro fd
      rw [hlookup, show (Server.new listener (some p) now).listener = listener from rfl]
      by_cases hfd : fd = listener
      · subst hfd
        simp [hread, hwrite]
      · split
        · simp [hfd]
        · split <;> simp [hfd]
    · intro fd hfd
      refine ⟨p, rfl, ?_⟩
      rw [hlookup] at hfd
      split at hfd
      · exact .inr ‹_›
      · split at hfd
        · exact .inl ‹_›
        · split at hfd <;> cases hfd

private theorem Accounts.own {listener : RawFd} {wakeup : Option (RawFd × RawFd)} {now : Nat}
    (h : Accounts x (Server.new listener wakeup now).fds)
    (hlistener : x.state.server.listener = listener)
    (hwakeup : x.state.server.wsWakeupPipe = wakeup)
    (hapart : ∀ p, wakeup = some p → listener ≠ p.1 ∧ listener ≠ p.2) :
    OwnOpen x.state.server := by
  have hnew : OwnOpen (Server.new listener wakeup now) := new_own hapart
  obtain ⟨hopens, hcloses⟩ := Nat.add_eq_zero_iff.mp h.listening
  constructor
  · intro fd
    rw [hlistener]
    constructor
    · intro hfd
      exact (hnew.listener fd).mp (Ledger.replay_old h.table hfd hopens)
    · rintro rfl
      exact Ledger.replay_kept h.table ((hnew.listener _).mpr rfl) hcloses
  · intro fd hfd
    rw [hwakeup]
    exact hnew.wakeup fd (Ledger.replay_old h.table hfd (Nat.add_eq_zero_iff.mp h.wakeup).1)

private theorem Accounts.closedOnce {listener : RawFd} {wakeup : Option (RawFd × RawFd)} {now : Nat}
    (h : Accounts x (Server.new listener wakeup now).fds)
    (hlistener : x.state.server.listener = listener)
    (hwakeup : x.state.server.wsWakeupPipe = wakeup) (hpipe : ∀ p, wakeup = some p → p.1 ≠ p.2) :
    ClosedOnce x (Server.new listener wakeup now).fds := by
  have hstart : ∀ o : FdObject, o ≠ .listener → o ≠ .wakeup →
      held o (Server.new listener wakeup now).fds = 0 := by
    intro o hlistener hw
    apply Ledger.held_eq_zero
    intro fd hfd
    rcases new_fds hfd with h | h
    · exact hlistener h
    · exact hw h
  have hopens : ∀ id, opens (.master id) x.log.reverse =
      if id ∈ x.state.server.ids then 1 else 0 := by
    intro id
    rw [← h.ids]
    split
    · rename_i hid
      exact List.count_eq_one_of_mem h.settled.nodup hid
    · rename_i hid
      exact List.count_eq_zero_of_not_mem hid
  have hdups : ∀ fd id, x.state.server.fds.lookup fd ≠ some (.dup id) := by
    intro fd id
    refine Ledger.ne_of_held_eq_zero ?_ fd
    have hbalance := Ledger.balance (.dup id) h.table
    rw [hstart _ (by simp) (by simp), h.dups] at hbalance
    omega
  have hpipeOpen : PipeOpen x.state.server := by
    intro p hp
    rw [hwakeup] at hp
    have htable := h.table
    rw [hp] at htable
    obtain ⟨hread, hwrite⟩ := @new_pipeOpen listener p now
    have hclosed := (Nat.add_eq_zero_iff.mp h.wakeup).2
    exact ⟨hpipe p hp, Ledger.replay_kept htable hread hclosed,
      Ledger.replay_kept htable hwrite hclosed⟩
  have hops : ∀ env, (x.state.server.cleanup env).fdOps =
      (x.log.reverse ++ x.state.server.cleanupCalls env).reverse.map FdCall.op := by
    intro env
    rw [(h.settled.cleaned hpipeOpen env).ops, h.ops, List.reverse_append, List.reverse_reverse,
      List.map_append, List.map_reverse]
  constructor
  case ops => exact h.ops
  case table => exact h.table
  case pending => exact h.settled.pending
  case dups => exact fun id => ⟨(h.dups id).symm, fun fd => hdups fd id⟩
  case masters =>
    intro id
    refine ⟨hopens id, ?_⟩
    have hbalance := Ledger.balance (.master id) h.table
    rw [hstart _ (by simp) (by simp), held_master h.settled, hopens] at hbalance
    cases hs : x.state.server.sessions.lookup id with
    | none =>
      simp only [hs, Option.isSome_none, Bool.false_eq_true, if_false] at hbalance
      simp only [and_true]
      omega
    | some s =>
      have hknown := (h.settled.inv.session (coreOf_eq_some hs)).known
      simp only [hs, hknown, Option.isSome_some, if_true] at hbalance
      simp only [reduceCtorEq, and_false, if_false]
      omega
  case ended =>
    intro env env'
    have hcleaned := h.settled.cleaned hpipeOpen env
    have hall := Ledger.replay_trans h.table hcleaned.table
    refine ⟨hops env, hall, fun id => ?_, hcleaned.again env'⟩
    have hbalance := Ledger.balance (.master id) hall
    have hnone : opens (.master id) (x.state.server.cleanupCalls env) = 0 := by
      apply Ledger.opens_eq_zero
      intro call hcall
      rcases hcleaned.onlyCloses call hcall with ⟨fd, i, rfl⟩ | ⟨fd, rfl⟩
      · exact ⟨_, _, rfl⟩
      · exact ⟨_, _, rfl⟩
    have hheld : held (.master id) (x.state.server.cleanup env).fds = 0 :=
      Ledger.held_eq_zero fun fd => hcleaned.masters fd id
    rw [hstart _ (by simp) (by simp), hheld, Ledger.opens_append, hnone, hopens] at hbalance
    omega
  case dropped =>
    intro hapart env
    have hown := h.own hlistener hwakeup (hlistener ▸ hwakeup ▸ hapart)
    have hcleaned := h.settled.cleaned hpipeOpen env
    obtain ⟨htable, hnone⟩ := hcleaned.dropped h.settled hown hdups rfl
    refine ⟨?_, ?_, hnone⟩
    · simp only [dropFields_ops, hops, List.reverse_append, List.map_append, List.map_reverse]
    · exact Ledger.replay_trans (Ledger.replay_trans h.table hcleaned.table) htable

/-- Every head of the loop is reached by a run with a ledger. In each such run the ledger is that of
the calls made, and it can be replayed; nothing waits to be passed on; every duplicate has been closed, and every master of a
session that is gone; and the calls of `cleanup` and `Drop` at its end close the rest, once, until
nothing is left open. -/
theorem fds_closed_once (J : Codec) :
    (∀ σ, (Server.loop J).Reachable σ →
      ∃ x, ((system J).record (fdNote J)).Reachable x ∧ x.state.server = σ) ∧
    ∀ x, ((system J).record (fdNote J)).Reachable x →
      (∀ p, x.state.server.wsWakeupPipe = some p → p.1 ≠ p.2) →
      ∃ listener wakeup now, ClosedOnce x (Server.new listener wakeup now).fds := by
  constructor
  · intro σ hσ
    obtain ⟨w, hw, rfl⟩ := loop_reachable hσ
    obtain ⟨x, hx, rfl⟩ := Transition.System.Reach.recorded (fdNote J) hw
    exact ⟨x, hx, rfl⟩
  · intro x hx hpipe
    obtain ⟨listener, wakeup, now, hlistener, hwakeup, haccounts⟩ := reachable_accounts hx
    exact ⟨listener, wakeup, now, haccounts.closedOnce hlistener hwakeup (hwakeup ▸ hpipe)⟩

/-- A client connects, creates session 7 and attaches it: one duplicate, opened and closed. -/
theorem fds_closed_once_attached :
    ∃ x, ((system acking).record (fdNote acking)).Reachable x ∧
      opens (.dup 7) x.log.reverse = 1 ∧ closes (.dup 7) x.log.reverse = 1 := by
  have hrun : (((system acking).record (fdNote acking)).exec ⟨new 3 none 0, []⟩
      [.daemon (.accept 5), .data 5 (encodeMessage [0]) [calm],
        .data 5 (encodeMessage [1]) [calmLater]]).map
      (fun x => (opens (.dup 7) x.log.reverse, x.state.server.wsWakeupPipe)) =
      some (1, none) := by decide +kernel
  obtain ⟨x, hexec, hfacts⟩ := Option.map_eq_some_iff.mp hrun
  obtain ⟨hopens, hpipe⟩ := Prod.mk.inj hfacts
  have hstart : ((system acking).record (fdNote acking)).Reachable ⟨new 3 none 0, []⟩ :=
    .start ⟨init_new acking 3 none 0, rfl⟩
  have hreach := hstart.exec hexec
  obtain ⟨_, _, _, hclosed⟩ := (fds_closed_once acking).2 x hreach (by simp [hpipe])
  exact ⟨x, hreach, hopens, (hclosed.dups 7).1.trans hopens⟩

end Wire

end PtyDaemon
