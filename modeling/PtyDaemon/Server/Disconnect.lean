import PtyDaemon.Server.Ownership

/-!
# The loss of a connection

What `handle_client_disconnect` leaves of every session: those the connection owned are detached
after their ring has been replayed into the parser, the others at most forget it.
-/

namespace PtyDaemon

/-- The session after a crash detach. -/
def Session.crashed (s : Session) (ringData : List UInt8) : Session :=
  (s.replay ringData).detach none

namespace Server

variable {σ σ' : Server}

/-- The sessions `l`, each with its master, have been detached after a crash. -/
structure Crashed (l : List (Uuid × RawFd)) (σ σ' : Server) : Prop where
  hit : ∀ {id s}, id ∈ l.map Prod.fst → σ.sessions.lookup id = some s →
    ∃ ringData, s.sharedRing.dump = some ringData ∧
      σ'.sessions.lookup id = some (s.crashed ringData)
  missed : ∀ {id}, id ∉ l.map Prod.fst → σ'.sessions.lookup id = σ.sessions.lookup id
  pending : ∀ {id d}, σ'.pendingDupFds.lookup id = some d →
    id ∉ l.map Prod.fst ∧ σ.pendingDupFds.lookup id = some d
  fds : ∀ {fd}, (∀ id ∈ l.map Prod.fst, σ.pendingDupFds.lookup id ≠ some fd) →
    σ'.fds.lookup fd = σ.fds.lookup fd
  kq : ∀ {fd}, (∀ id ∈ l.map Prod.fst, σ.pendingDupFds.lookup id ≠ some fd) →
    (fd ∈ σ'.kq ↔ fd ∈ σ.kq ∨ fd ∈ l.map Prod.snd)
  clients : σ'.clients = σ.clients
  accepted : σ'.accepted = σ.accepted
  ids : σ'.ids = σ.ids
  listener : σ'.listener = σ.listener
  wsShared : σ'.wsShared = σ.wsShared
  trace : σ'.trace = σ.trace

private theorem closePending_spec (σ : Server) (id : Uuid) :
    (∀ {i d}, (σ.closePending id).pendingDupFds.lookup i = some d →
      i ≠ id ∧ σ.pendingDupFds.lookup i = some d) ∧
    (∀ {fd}, σ.pendingDupFds.lookup id ≠ some fd →
      (σ.closePending id).fds.lookup fd = σ.fds.lookup fd ∧
        (fd ∈ (σ.closePending id).kq ↔ fd ∈ σ.kq)) ∧
    σ.closePending id =
      { σ with
        pendingDupFds := (σ.closePending id).pendingDupFds
        fds := (σ.closePending id).fds
        kq := (σ.closePending id).kq
        fdOps := (σ.closePending id).fdOps } := by
  unfold closePending
  cases hd : σ.pendingDupFds.lookup id with
  | none =>
    refine ⟨?_, fun _ => ⟨rfl, Iff.rfl⟩, rfl⟩
    intro i d hi
    refine ⟨?_, hi⟩
    rintro rfl
    cases hd.symm.trans hi
  | some d =>
    refine ⟨?_, ?_, rfl⟩
    · intro i x hx
      have hx := (Table.lookup_erase σ.pendingDupFds id i).symm.trans hx
      by_cases hi : i = id
      · rw [if_pos hi] at hx
        cases hx
      · exact ⟨hi, (if_neg hi).symm.trans hx⟩
    · intro fd hfd
      have hne : fd ≠ d := fun he => hfd (congrArg some he.symm)
      refine ⟨(lookup_closeFd (σ.dropPending id) d fd).trans (if_neg hne), ?_⟩
      exact Finset.mem_erase.trans (and_iff_right hne)

private theorem crashDetach_crashed {id : Uuid} {s : Session} (hs : σ.sessions.lookup id = some s)
    (h : σ.crashDetach id s.masterFd = .ok σ') : Crashed [(id, s.masterFd)] σ σ' := by
  obtain ⟨hpending, hfds, heq⟩ := closePending_spec σ id
  unfold crashDetach at h
  dsimp only at h
  revert h hpending hfds heq
  generalize σ.closePending id = τ
  intro h hpending hfds heq
  have hτ : τ.sessions.lookup id = some s := by
    rw [heq]
    exact hs
  simp only [hτ] at h
  split at h
  · cases h
  · rename_i ringData hdump
    cases h
    have hmem : ∀ {i}, i ∈ [(id, s.masterFd)].map Prod.fst ↔ i = id := List.mem_singleton
    constructor
    case hit =>
      intro i t hi ht
      cases hmem.mp hi
      cases Option.some.inj (hs.symm.trans ht)
      exact ⟨ringData, hdump, lookup_putSession_self τ id _⟩
    case missed =>
      intro i hi
      refine (lookup_putSession τ id i _).trans ((if_neg fun he => hi (hmem.mpr he)).trans ?_)
      rw [heq]
    case pending =>
      intro i d hd
      obtain ⟨hi, hd⟩ := hpending hd
      exact ⟨fun h => hi (hmem.mp h), hd⟩
    case fds => exact fun hfd => (hfds (hfd id (hmem.mpr rfl))).1
    case kq =>
      intro fd hfd
      have hkq := (hfds (hfd id (hmem.mpr rfl))).2
      refine Finset.mem_insert.trans ((or_congr_right hkq).trans ?_)
      rw [List.map_singleton, List.mem_singleton]
      exact or_comm
    all_goals rw [heq]; rfl

private theorem crashAll_crashed {l : List (Uuid × RawFd)} (hnodup : (l.map Prod.fst).Nodup)
    (hl : ∀ p ∈ l, ∃ s, σ.sessions.lookup p.1 = some s ∧ s.masterFd = p.2)
    (h : l.foldlM (fun σ p => σ.crashDetach p.1 p.2) σ = .ok σ') : Crashed l σ σ' := by
  induction l generalizing σ with
  | nil =>
    cases h
    exact ⟨fun h => (nomatch h), fun _ => rfl, fun hd => ⟨fun h => (nomatch h), hd⟩, fun _ => rfl,
      fun _ => (or_iff_left fun h => (nomatch h)).symm, rfl, rfl, rfl, rfl, rfl, rfl⟩
  | cons p l ih =>
    rw [List.foldlM_cons] at h
    obtain ⟨τ, hτ, h⟩ := ok_of_bind h
    obtain ⟨s, hs, hmaster⟩ := hl p List.mem_cons_self
    rw [← hmaster] at hτ
    have hfirst := crashDetach_crashed hs hτ
    rw [List.map_cons, List.nodup_cons] at hnodup
    have hhead : ∀ {i}, i ∈ [(p.1, s.masterFd)].map Prod.fst ↔ i = p.1 := List.mem_singleton
    have hkept : ∀ {i}, i ∈ l.map Prod.fst → τ.sessions.lookup i = σ.sessions.lookup i :=
      fun hi => hfirst.missed fun h => hnodup.1 (hhead.mp h ▸ hi)
    have hrest := ih hnodup.2 (fun q hq => by
      rw [hkept (List.mem_map_of_mem hq)]
      exact hl q (List.mem_cons_of_mem p hq)) h
    have hcons : ∀ {i}, i ∈ (p :: l).map Prod.fst ↔ i = p.1 ∨ i ∈ l.map Prod.fst := List.mem_cons
    have hclosed : ∀ {fd}, (∀ i ∈ (p :: l).map Prod.fst, σ.pendingDupFds.lookup i ≠ some fd) →
        (∀ i ∈ [(p.1, s.masterFd)].map Prod.fst, σ.pendingDupFds.lookup i ≠ some fd) ∧
          ∀ i ∈ l.map Prod.fst, τ.pendingDupFds.lookup i ≠ some fd := by
      intro fd hfd
      refine ⟨fun i hi => hfd i (hcons.mpr (.inl (hhead.mp hi))), fun i hi hd => ?_⟩
      exact hfd i (hcons.mpr (.inr hi)) (hfirst.pending hd).2
    constructor
    case hit =>
      intro i t hi ht
      rcases hcons.mp hi with rfl | hi
      · obtain ⟨ringData, hdump, hlookup⟩ := hfirst.hit (hhead.mpr rfl) ht
        exact ⟨ringData, hdump, (hrest.missed hnodup.1).trans hlookup⟩
      · exact hrest.hit hi ((hkept hi).trans ht)
    case missed =>
      intro i hi
      rw [hcons, not_or] at hi
      exact (hrest.missed hi.2).trans (hfirst.missed fun h => hi.1 (hhead.mp h))
    case pending =>
      intro i d hd
      obtain ⟨hi, hd⟩ := hrest.pending hd
      obtain ⟨hi', hd⟩ := hfirst.pending hd
      exact ⟨fun h => (hcons.mp h).elim (fun h => hi' (hhead.mpr h)) hi, hd⟩
    case fds =>
      intro fd hfd
      exact (hrest.fds (hclosed hfd).2).trans (hfirst.fds (hclosed hfd).1)
    case kq =>
      intro fd hfd
      rw [hrest.kq (hclosed hfd).2, hfirst.kq (hclosed hfd).1, or_assoc]
      simp only [List.map_cons, List.map_nil, List.mem_cons, List.not_mem_nil, or_false, hmaster]
    case clients => exact hrest.clients.trans hfirst.clients
    case accepted => exact hrest.accepted.trans hfirst.accepted
    case ids => exact hrest.ids.trans hfirst.ids
    case listener => exact hrest.listener.trans hfirst.listener
    case wsShared => exact hrest.wsShared.trans hfirst.wsShared
    case trace => exact hrest.trace.trans hfirst.trace

end Server

/-- The session does not name `fd` as its previous owner. -/
def Session.forget (s : Session) (fd : RawFd) : Session :=
  if s.previousOwnerFd = some fd then s.clearPrevious else s

theorem Session.forget_core (s : Session) (fd : RawFd) :
    (s.forget fd).core =
      { s.core with
        previousOwnerFd := if s.previousOwnerFd = some fd then none else s.previousOwnerFd } := by
  unfold forget
  by_cases h : s.previousOwnerFd = some fd
  · rw [if_pos h, if_pos h]
    rfl
  · rw [if_neg h, if_neg h]
    rfl

theorem Session.forget_ownerFd (s : Session) (fd : RawFd) : (s.forget fd).ownerFd = s.ownerFd := by
  unfold forget
  split <;> rfl

private theorem Session.forget_previous {s : Session} {fd x : RawFd}
    (h : (s.forget fd).previousOwnerFd = some x) : x ≠ fd := by
  rintro rfl
  have hx := (congrArg Core.previousOwnerFd (s.forget_core x)).symm.trans h
  dsimp only at hx
  split at hx
  · cases hx
  · rename_i hne
    exact hne hx

namespace Server

variable {σ σ' : Server} {fd : RawFd}

/-- What the loss of connection `fd` leaves of the sessions. -/
structure Disconnected (fd : RawFd) (σ σ' : Server) : Prop where
  owned : ∀ {id s}, σ.sessions.lookup id = some s → s.ownerFd = some fd →
    ∃ ringData, (s.forget fd).sharedRing.dump = some ringData ∧
      σ'.sessions.lookup id = some ((s.forget fd).crashed ringData)
  others : ∀ {id s}, σ.sessions.lookup id = some s → s.ownerFd ≠ some fd →
    σ'.sessions.lookup id = some (s.forget fd)
  absent : ∀ {id}, σ.sessions.lookup id = none → σ'.sessions.lookup id = none
  conns : ∀ x, σ'.connOf x = if x = fd then none else σ.connOf x
  accepted : σ'.accepted = σ.accepted
  ids : σ'.ids = σ.ids
  wsShared : σ'.wsShared = σ.wsShared
  trace : σ'.trace = σ.trace

/-- The state in which the sessions to detach are collected. -/
def dropped (σ : Server) (fd : RawFd) : Server :=
  ((σ.unregister fd).removeClient fd).forgetPrevious fd

theorem lookup_dropped (σ : Server) (fd : RawFd) (id : Uuid) :
    (σ.dropped fd).sessions.lookup id =
      (σ.sessions.lookup id).map fun s => s.forget fd := by
  have hsessions : ((σ.unregister fd).removeClient fd).sessions = σ.sessions := by
    unfold removeClient
    split <;> rfl
  refine (Table.lookup_mapVals _ _ id).trans ?_
  rw [hsessions]
  rfl

private theorem dropped_parts {conn : Nat} (hconn : σ.connOf fd = some conn) :
    (σ.dropped fd).clients = σ.clients.erase fd ∧ (σ.dropped fd).fds = σ.fds.erase fd ∧
      (σ.dropped fd).kq = σ.kq.erase fd ∧
      (σ.dropped fd).pendingDupFds = σ.pendingDupFds ∧ (σ.dropped fd).trace = σ.trace ∧
      (σ.dropped fd).ids = σ.ids ∧ (σ.dropped fd).accepted = σ.accepted ∧
      (σ.dropped fd).wsShared = σ.wsShared := by
  obtain ⟨client, hclient, _⟩ := Option.map_eq_some_iff.mp hconn
  have hkq : ((σ.kq.erase fd).erase fd) = σ.kq.erase fd := Finset.erase_idem
  simp only [dropped, removeClient, forgetPrevious, closeFd, unregister, hclient, hkq, and_self]

/-- The sessions of the connection that went away, each with its master. -/
def toDetach (σ : Server) (fd : RawFd) : List (Uuid × RawFd) :=
  (σ.sessions.list.filter fun s => s.ownerFd = some fd).map fun s => (s.id, s.masterFd)

theorem handleClientDisconnect_eq (σ : Server) (fd : RawFd) :
    σ.handleClientDisconnect fd = ((σ.dropped fd).toDetach fd).foldlM
      (fun σ p => σ.crashDetach p.1 p.2) (σ.dropped fd) := rfl

theorem mem_toDetach {p : Uuid × RawFd} :
    p ∈ σ.toDetach fd ↔ ∃ id s, σ.sessions.lookup id = some s ∧ s.ownerFd = some fd ∧
      p = (s.id, s.masterFd) := by
  simp only [toDetach, List.mem_map, List.mem_filter, decide_eq_true_eq, Sessions.list,
    List.mem_mergeSort, Table.mem_values]
  constructor
  · rintro ⟨s, ⟨⟨id, hid⟩, howner⟩, rfl⟩
    exact ⟨id, s, hid, howner, rfl⟩
  · rintro ⟨id, s, hid, howner, rfl⟩
    exact ⟨s, ⟨⟨id, hid⟩, howner⟩, rfl⟩

private theorem nodup_toDetach (hkey : ∀ {id s}, σ.sessions.lookup id = some s → s.id = id) :
    ((σ.toDetach fd).map Prod.fst).Nodup := by
  have hids : (σ.sessions.list.map Session.id).Nodup :=
    ((List.mergeSort_perm σ.sessions.values _).map _).nodup_iff.mpr
      (Table.nodup_map_values fun id s hs => hkey hs)
  rw [toDetach, List.map_map]
  exact hids.sublist (List.filter_sublist.map _)

private theorem disconnect_crashed (hinv : Inv σ)
    (h : σ.handleClientDisconnect fd = .ok σ') :
    Crashed ((σ.dropped fd).toDetach fd) (σ.dropped fd) σ' ∧
      ∀ {id}, id ∈ ((σ.dropped fd).toDetach fd).map Prod.fst ↔
        ∃ s, σ.sessions.lookup id = some s ∧ s.ownerFd = some fd := by
  have hkey : ∀ {id s}, (σ.dropped fd).sessions.lookup id = some s → s.id = id := by
    intro id s hs
    rw [lookup_dropped] at hs
    obtain ⟨t, ht, rfl⟩ := Option.map_eq_some_iff.mp hs
    have hid : (t.forget fd).id = t.id := congrArg Core.id (t.forget_core fd)
    rw [hid]
    exact hinv.sessionsOpen.key ht
  refine ⟨crashAll_crashed (nodup_toDetach hkey) ?_ h, ?_⟩
  · intro p hp
    obtain ⟨id, s, hs, _, rfl⟩ := mem_toDetach.mp hp
    exact ⟨s, (hkey hs).symm ▸ hs, rfl⟩
  · intro id
    rw [List.mem_map]
    constructor
    · rintro ⟨p, hp, rfl⟩
      obtain ⟨i, s, hs, howner, rfl⟩ := mem_toDetach.mp hp
      have hi := hkey hs
      rw [lookup_dropped] at hs
      obtain ⟨t, ht, rfl⟩ := Option.map_eq_some_iff.mp hs
      rw [Session.forget_ownerFd] at howner
      exact ⟨t, hi.symm ▸ ht, howner⟩
    · rintro ⟨t, ht, howner⟩
      have hs : (σ.dropped fd).sessions.lookup id = some (t.forget fd) := by
        rw [lookup_dropped, ht, Option.map_some]
      rw [← Session.forget_ownerFd t fd] at howner
      exact ⟨_, mem_toDetach.mpr ⟨id, _, hs, howner, rfl⟩, hkey hs⟩

theorem handleClientDisconnect_disconnected (hinv : Inv σ) {conn : Nat}
    (hconn : σ.connOf fd = some conn) (h : σ.handleClientDisconnect fd = .ok σ') :
    Disconnected fd σ σ' := by
  obtain ⟨hcrashed, hmem⟩ := disconnect_crashed hinv h
  obtain ⟨hclients, _, _, _, htrace, hids, haccepted, hws⟩ := dropped_parts hconn
  have hlookup : ∀ {id s}, σ.sessions.lookup id = some s →
      (σ.dropped fd).sessions.lookup id = some (s.forget fd) := by
    intro id s hs
    rw [lookup_dropped, hs, Option.map_some]
  constructor
  case owned =>
    intro id s hs howner
    exact hcrashed.hit (hmem.mpr ⟨s, hs, howner⟩) (hlookup hs)
  case others =>
    intro id s hs howner
    refine (hcrashed.missed fun hid => ?_).trans (hlookup hs)
    obtain ⟨t, ht, htowner⟩ := hmem.mp hid
    cases Option.some.inj (hs.symm.trans ht)
    exact howner htowner
  case absent =>
    intro id hnone
    rw [hcrashed.missed fun hid => ?_, lookup_dropped, hnone, Option.map_none]
    obtain ⟨t, ht, _⟩ := hmem.mp hid
    cases hnone.symm.trans ht
  case conns =>
    intro x
    rw [connOf, hcrashed.clients, hclients, Table.lookup_erase]
    split <;> rfl
  case accepted => exact hcrashed.accepted.trans haccepted
  case ids => exact hcrashed.ids.trans hids
  case wsShared => exact hcrashed.wsShared.trans hws
  case trace => exact hcrashed.trace.trans htrace

private theorem mem_masters (hinv : Inv σ) {id : Uuid} {s : Session}
    (hs : σ.sessions.lookup id = some s) :
    s.masterFd ∈ ((σ.dropped fd).toDetach fd).map Prod.snd ↔ s.ownerFd = some fd := by
  rw [List.mem_map]
  constructor
  · rintro ⟨p, hp, hmaster⟩
    obtain ⟨i, t', ht', howner, rfl⟩ := mem_toDetach.mp hp
    rw [lookup_dropped] at ht'
    obtain ⟨t, ht, rfl⟩ := Option.map_eq_some_iff.mp ht'
    have hmaster : t.masterFd = s.masterFd :=
      (congrArg Core.masterFd (t.forget_core fd)).symm.trans hmaster
    rw [Session.forget_ownerFd] at howner
    by_cases hi : i = id
    · subst hi
      cases Option.some.inj (hs.symm.trans ht)
      exact howner
    · have hoki := hinv.session (coreOf_eq_some ht)
      exact absurd hmaster (hoki.master_ne (hinv.session (coreOf_eq_some hs)) hi)
  · intro howner
    have hs' : (σ.dropped fd).sessions.lookup id = some (s.forget fd) := by
      rw [lookup_dropped, hs, Option.map_some]
    rw [← Session.forget_ownerFd s fd] at howner
    exact ⟨_, mem_toDetach.mpr ⟨id, _, hs', howner, rfl⟩,
      congrArg Core.masterFd (s.forget_core fd)⟩

private theorem SessionOk.forget {id : Uuid} {c : Core} (h : SessionOk σ id c) (fd : RawFd) :
    SessionOk σ id
      { c with
        previousOwnerFd := if c.previousOwnerFd = some fd then none else c.previousOwnerFd } := by
  refine { h with previous := fun x hx => h.previous x ?_ }
  dsimp only at hx
  split at hx
  · cases hx
  · exact hx

private theorem disconnect_stays (hinv : Inv σ) {conn : Nat} (hconn : σ.connOf fd = some conn)
    (h : σ.handleClientDisconnect fd = .ok σ') {x : RawFd} {object : FdObject}
    (hx : σ.fds.lookup x = some object) (hne : x ≠ fd)
    (hdup : ∀ id, object = .dup id → id ∉ ((σ.dropped fd).toDetach fd).map Prod.fst) :
    σ'.fds.lookup x = some object ∧
      (x ∈ σ'.kq ↔ x ∈ σ.kq ∨ x ∈ ((σ.dropped fd).toDetach fd).map Prod.snd) := by
  obtain ⟨hcrashed, _⟩ := disconnect_crashed hinv h
  obtain ⟨_, hfds, hkq, hpending, _, _, _, _⟩ := dropped_parts hconn
  have hopen : ∀ id ∈ ((σ.dropped fd).toDetach fd).map Prod.fst,
      (σ.dropped fd).pendingDupFds.lookup id ≠ some x := by
    intro id hid hd
    rw [hpending] at hd
    exact hdup id (Option.some.inj (hx.symm.trans (hinv.pending hd))) hid
  constructor
  · rw [hcrashed.fds hopen, hfds, Table.lookup_erase, if_neg hne]
    exact hx
  · rw [hcrashed.kq hopen, hkq, Finset.mem_erase, and_iff_right hne]

private theorem disconnect_sessionOk (hinv : Inv σ) {conn : Nat} (hconn : σ.connOf fd = some conn)
    (h : σ.handleClientDisconnect fd = .ok σ') {id : Uuid} {s : Session}
    (hs : σ.sessions.lookup id = some s) {c : Core} (hc : σ'.coreOf id = some c) :
    SessionOk σ' id c := by
  have hdisc := handleClientDisconnect_disconnected hinv hconn h
  have hconns : ∀ {x conn'}, x ≠ fd → σ.connOf x = some conn' → σ'.connOf x = some conn' :=
    fun hx hconn' => (hdisc.conns _).trans ((if_neg hx).trans hconn')
  have hok := hinv.session (coreOf_eq_some hs)
  have hforget : SessionOk σ id (s.forget fd).core := by
    rw [Session.forget_core]
    exact hok.forget fd
  have hmasterFd : (s.forget fd).masterFd = s.masterFd :=
    congrArg Core.masterFd (s.forget_core fd)
  have hstay := disconnect_stays hinv hconn h hok.master
    (ne_of_object hok.master (hinv.client hconn) fun h => (by cases h)) fun _ h => (by cases h)
  have hmaster : σ'.fds.lookup (s.forget fd).masterFd = some (.master id) := by
    rw [hmasterFd]
    exact hstay.1
  have hmasterKq : (s.forget fd).masterFd ∈ σ'.kq ↔
      (s.forget fd).masterFd ∈ σ.kq ∨ s.ownerFd = some fd := by
    rw [hmasterFd]
    exact hstay.2.trans (or_congr_right (mem_masters hinv hs))
  by_cases howner : s.ownerFd = some fd
  · obtain ⟨ringData, _, hlookup⟩ := hdisc.owned hs howner
    cases Option.some.inj ((coreOf_eq_some hlookup).symm.trans hc)
    exact {
      key := hforget.key
      known := hdisc.ids ▸ hforget.known
      nonneg := hforget.nonneg
      master := hmaster
      owned := ⟨fun h => (by cases h), fun h => (by cases h)⟩
      owner := fun x hx => (by cases hx)
      previous := by
        intro x hx
        obtain ⟨conn', hconn', hlast, hattached⟩ := hforget.previous x hx
        refine ⟨conn', hconns (Session.forget_previous hx) hconn', ?_, ?_⟩
        · rwa [hdisc.trace]
        · rwa [hdisc.trace]
      registered := by
        refine ⟨fun _ h => (by cases h), fun _ => ?_⟩
        exact hmasterKq.mpr (.inr howner) }
  · cases Option.some.inj ((coreOf_eq_some (hdisc.others hs howner)).symm.trans hc)
    refine hforget.keep ⟨?_, ?_, ?_, ?_, [], hdisc.trace, fun _ h => by cases h⟩
    · rw [hdisc.ids]
      exact List.Subset.refl _
    · exact hmaster.trans hforget.master.symm
    · exact hmasterKq.trans (or_iff_left howner)
    · intro x conn' hx hconn'
      refine hconns ?_ hconn'
      rcases hx with hx | hx
      · rintro rfl
        exact howner ((s.forget_ownerFd x).symm.trans hx)
      · exact Session.forget_previous hx

theorem Inv.disconnect (hinv : Inv σ) {conn : Nat} (hconn : σ.connOf fd = some conn)
    (h : σ.handleClientDisconnect fd = .ok σ') : Inv σ' := by
  have hdisc := handleClientDisconnect_disconnected hinv hconn h
  obtain ⟨hcrashed, _⟩ := disconnect_crashed hinv h
  obtain ⟨_, _, _, hpending, _, _, _, _⟩ := dropped_parts hconn
  constructor
  case session =>
    intro id c hc
    cases hs : σ.sessions.lookup id with
    | none =>
      rw [coreOf, hdisc.absent hs] at hc
      cases hc
    | some s => exact disconnect_sessionOk hinv hconn h hs hc
  case client =>
    intro x conn' hconn'
    rw [hdisc.conns] at hconn'
    by_cases hx : x = fd
    · rw [if_pos hx] at hconn'
      cases hconn'
    · rw [if_neg hx] at hconn'
      exact (disconnect_stays hinv hconn h (hinv.client hconn') hx fun _ h => (by cases h)).1
  case pending =>
    intro id d hd
    obtain ⟨hid, hd⟩ := hcrashed.pending hd
    rw [hpending] at hd
    have hdup := hinv.pending hd
    have hne := ne_of_object hdup (hinv.client hconn) fun h => (by cases h)
    refine (disconnect_stays hinv hconn h hdup hne ?_).1
    intro i hi
    cases hi
    exact hid
  case history =>
    intro id conn' hlast
    rw [hdisc.trace] at hlast ⊢
    exact hinv.history hlast

end Server

end PtyDaemon
