import PtyDaemon.Server.HandlerMoves

/-!
# Who owns a session

The joint invariant of sessions, connections, descriptors and read filters. The owner a session
records is the connection that attached it, so the trace says who that was; descriptor numbers
come back, connection numbers do not.
-/

namespace PtyDaemon

/-- The connection that got session `id` last. -/
def lastOwner (id : Uuid) : List Act → Option Nat
  | [] => none
  | .attached i conn :: rest => if i = id then conn else lastOwner id rest
  | .returned i conn :: rest => if i = id then some conn else lastOwner id rest
  | _ :: rest => lastOwner id rest

/-- The connection from which session `id` was taken over last. -/
def lastTaken (id : Uuid) : List Act → Option Nat
  | [] => none
  | .takenOver i conn :: rest => if i = id then conn else lastTaken id rest
  | _ :: rest => lastTaken id rest

/-- The act is no attachment, takeover or return of session `id`. -/
def Act.apart (id : Uuid) : Act → Bool
  | .attached i _ => i != id
  | .takenOver i _ => i != id
  | .returned i _ => i != id
  | _ => true

private theorem Act.apart_of_plain {a : Act} (h : a.plain = true) (id : Uuid) :
    a.apart id = true := by
  cases a <;> first | rfl | cases h

private theorem lastOwner_cons {id : Uuid} {a : Act} (h : a.apart id = true) (trace : List Act) :
    lastOwner id (a :: trace) = lastOwner id trace := by
  cases a <;> first | rfl | exact if_neg (bne_iff_ne.mp h)

private theorem lastTaken_cons {id : Uuid} {a : Act} (h : a.apart id = true) (trace : List Act) :
    lastTaken id (a :: trace) = lastTaken id trace := by
  cases a <;> first | rfl | exact if_neg (bne_iff_ne.mp h)

private theorem lastOwner_append {id : Uuid} {acts : List Act} (h : ∀ a ∈ acts, a.apart id = true)
    (trace : List Act) : lastOwner id (acts ++ trace) = lastOwner id trace := by
  induction acts with
  | nil => rfl
  | cons a acts ih =>
    rw [List.cons_append, lastOwner_cons (h a List.mem_cons_self)]
    exact ih fun b hb => h b (List.mem_cons_of_mem a hb)

private theorem lastTaken_append {id : Uuid} {acts : List Act} (h : ∀ a ∈ acts, a.apart id = true)
    (trace : List Act) : lastTaken id (acts ++ trace) = lastTaken id trace := by
  induction acts with
  | nil => rfl
  | cons a acts ih =>
    rw [List.cons_append, lastTaken_cons (h a List.mem_cons_self)]
    exact ih fun b hb => h b (List.mem_cons_of_mem a hb)

namespace Server

variable {P : Uuid → Prop} {σ σ' : Server}

def coreOf (σ : Server) (id : Uuid) : Option Core := (σ.sessions.lookup id).map Session.core

theorem coreOf_eq_some {id : Uuid} {s : Session} (hs : σ.sessions.lookup id = some s) :
    σ.coreOf id = some s.core := by
  rw [coreOf, hs, Option.map_some]

theorem coreOf_putSession (σ : Server) (id : Uuid) (s : Session) (i : Uuid) :
    (σ.putSession id s).coreOf i = if i = id then some s.core else σ.coreOf i := by
  rw [coreOf, lookup_putSession]
  split <;> rfl

theorem coreOf_removeSession (σ : Server) (id i : Uuid) :
    (σ.removeSession id).coreOf i = if i = id then none else σ.coreOf i := by
  rw [coreOf, removeSession, Table.lookup_erase]
  split <;> rfl

/-- A session stands as it should among connections, descriptors and filters. -/
structure SessionOk (σ : Server) (id : Uuid) (c : Core) : Prop where
  key : c.id = id
  known : id ∈ σ.ids
  nonneg : 0 ≤ c.masterFd
  master : σ.fds.lookup c.masterFd = some (.master id)
  owned : c.state = .attached ↔ c.ownerFd.isSome = true
  owner : ∀ fd, c.ownerFd = some fd →
    ∃ conn, σ.connOf fd = some conn ∧ lastOwner id σ.trace = some conn
  previous : ∀ fd, c.previousOwnerFd = some fd →
    ∃ conn, σ.connOf fd = some conn ∧ lastTaken id σ.trace = some conn ∧
      .attached id (some conn) ∈ σ.trace
  registered : c.masterFd ∈ σ.kq ↔ c.state ≠ .attached

structure Inv (σ : Server) : Prop where
  session : ∀ {id c}, σ.coreOf id = some c → SessionOk σ id c
  client : ∀ {fd conn}, σ.connOf fd = some conn → σ.fds.lookup fd = some (.client conn)
  pending : ∀ {id d}, σ.pendingDupFds.lookup id = some d → σ.fds.lookup d = some (.dup id)
  history : ∀ {id conn}, lastOwner id σ.trace = some conn → .attached id (some conn) ∈ σ.trace

theorem Inv.sessionsOpen (h : Inv σ) : SessionsOpen σ where
  key hs := (h.session (coreOf_eq_some hs)).key
  nonneg hs := (h.session (coreOf_eq_some hs)).nonneg

/-- Two sessions have different masters. -/
theorem SessionOk.master_ne {id id' : Uuid} {c c' : Core} (h : SessionOk σ id c)
    (h' : SessionOk σ id' c') (hne : id ≠ id') : c.masterFd ≠ c'.masterFd := by
  intro heq
  have hm := heq ▸ h.master
  cases Option.some.inj (hm.symm.trans h'.master)
  exact hne rfl

/-- What happens between `σ` and `σ'` concerns neither the descriptors of the session nor its
connections, nor does it move the session. -/
structure Spares (σ σ' : Server) (id : Uuid) (c : Core) : Prop where
  ids : σ.ids ⊆ σ'.ids
  master : σ'.fds.lookup c.masterFd = σ.fds.lookup c.masterFd
  kq : c.masterFd ∈ σ'.kq ↔ c.masterFd ∈ σ.kq
  conns : ∀ fd conn, c.ownerFd = some fd ∨ c.previousOwnerFd = some fd →
    σ.connOf fd = some conn → σ'.connOf fd = some conn
  trace : ∃ acts, σ'.trace = acts ++ σ.trace ∧ ∀ a ∈ acts, a.apart id = true

theorem SessionOk.keep {id : Uuid} {c : Core} (h : SessionOk σ id c) (hs : Spares σ σ' id c) :
    SessionOk σ' id c := by
  obtain ⟨acts, hacts, hapart⟩ := hs.trace
  refine ⟨h.key, hs.ids h.known, h.nonneg, hs.master.trans h.master, h.owned, ?_, ?_,
    hs.kq.trans h.registered⟩
  · intro fd hfd
    obtain ⟨conn, hconn, hlast⟩ := h.owner fd hfd
    refine ⟨conn, hs.conns fd conn (.inl hfd) hconn, ?_⟩
    rw [hacts, lastOwner_append hapart]
    exact hlast
  · intro fd hfd
    obtain ⟨conn, hconn, hlast, hmem⟩ := h.previous fd hfd
    refine ⟨conn, hs.conns fd conn (.inr hfd) hconn, ?_, ?_⟩
    · rw [hacts, lastTaken_append hapart]
      exact hlast
    · rw [hacts]
      exact List.mem_append_right acts hmem

/-- Acts apart from `id` keep its history. -/
theorem Inv.history_append (h : Inv σ) {id : Uuid} {acts : List Act}
    (hapart : ∀ a ∈ acts, a.apart id = true) {conn : Nat}
    (hlast : lastOwner id (acts ++ σ.trace) = some conn) :
    .attached id (some conn) ∈ acts ++ σ.trace := by
  rw [lastOwner_append hapart] at hlast
  exact List.mem_append_right acts (h.history hlast)

/-- The invariant after a change, from what the change does to sessions and descriptors. -/
theorem Inv.evolve (h : Inv σ)
    (hsession : ∀ {id c}, σ'.coreOf id = some c →
      SessionOk σ' id c ∨ σ.coreOf id = some c ∧ Spares σ σ' id c)
    (hclient : ∀ {fd conn}, σ'.connOf fd = some conn → σ'.fds.lookup fd = some (.client conn))
    (hpending : ∀ {id d}, σ'.pendingDupFds.lookup id = some d → σ'.fds.lookup d = some (.dup id))
    (hhistory : ∀ {id conn}, lastOwner id σ'.trace = some conn →
      .attached id (some conn) ∈ σ'.trace) : Inv σ' := by
  refine ⟨?_, hclient, hpending, hhistory⟩
  intro id c hc
  rcases hsession hc with hok | ⟨hc, hspares⟩
  · exact hok
  · exact (h.session hc).keep hspares

theorem Inv.aside (h : Inv σ) (haside : Aside σ σ') : Inv σ' := by
  obtain ⟨acts, hacts, hplain⟩ := haside.trace
  have hapart : ∀ id, ∀ a ∈ acts, a.apart id = true :=
    fun id a ha => Act.apart_of_plain (hplain a ha) id
  apply h.evolve
  · intro id c hc
    refine .inr ⟨(haside.sessions id).symm.trans hc, ?_, ?_, ?_, ?_, acts, hacts, hapart id⟩
    · rw [haside.ids]
      exact List.Subset.refl _
    · rw [haside.fds]
    · rw [haside.kq]
    · intro fd conn _ hconn
      rwa [haside.clients]
  · intro fd conn hconn
    rw [haside.fds]
    exact h.client ((haside.clients fd).symm.trans hconn)
  · intro id d hd
    rw [haside.fds]
    rw [haside.pending] at hd
    exact h.pending hd
  · intro id conn hlast
    rw [hacts] at hlast ⊢
    exact h.history_append (hapart id) hlast

/-- One session is changed and its filter may be; everything else stays. -/
theorem Inv.moveSession (h : Inv σ) {id : Uuid} {c : Core} (hc : σ.coreOf id = some c)
    (hother : ∀ i, i ≠ id → σ'.coreOf i = σ.coreOf i)
    (hself : ∀ c', σ'.coreOf id = some c' → SessionOk σ' id c') (hfds : σ'.fds = σ.fds)
    (hkq : ∀ fd, fd ≠ c.masterFd → (fd ∈ σ'.kq ↔ fd ∈ σ.kq)) (hclients : σ'.clients = σ.clients)
    (hpending : σ'.pendingDupFds = σ.pendingDupFds) (hids : σ'.ids = σ.ids) {acts : List Act}
    (hacts : σ'.trace = acts ++ σ.trace) (hapart : ∀ i, i ≠ id → ∀ a ∈ acts, a.apart i = true)
    (hhistory : ∀ conn, lastOwner id σ'.trace = some conn →
      .attached id (some conn) ∈ σ'.trace) : Inv σ' := by
  have hconns : ∀ fd, σ'.connOf fd = σ.connOf fd := fun fd => by rw [connOf, connOf, hclients]
  apply h.evolve
  · intro i ci hci
    by_cases hi : i = id
    · subst hi
      exact .inl (hself ci hci)
    · rw [hother i hi] at hci
      refine .inr ⟨hci, ?_, ?_, ?_, ?_, acts, hacts, hapart i hi⟩
      · rw [hids]
        exact List.Subset.refl _
      · rw [hfds]
      · exact hkq _ ((h.session hci).master_ne (h.session hc) hi)
      · intro fd conn _ hconn
        rwa [hconns]
  · intro fd conn hconn
    rw [hfds]
    exact h.client ((hconns fd).symm.trans hconn)
  · intro i d hd
    rw [hfds]
    rw [hpending] at hd
    exact h.pending hd
  · intro i conn hlast
    by_cases hi : i = id
    · subst hi
      exact hhistory conn hlast
    · rw [hacts] at hlast ⊢
      exact h.history_append (hapart i hi) hlast

/-- The case of `moveSession` in which a new value is put in the place of the old one. -/
theorem Inv.replace (h : Inv σ) {id : Uuid} {s s' : Session}
    (hs : σ.sessions.lookup id = some s) (hsessions : σ'.sessions = σ.sessions.insert id s')
    (hself : SessionOk σ' id s'.core) (hfds : σ'.fds = σ.fds)
    (hkq : ∀ fd, fd ≠ s.masterFd → (fd ∈ σ'.kq ↔ fd ∈ σ.kq)) (hclients : σ'.clients = σ.clients)
    (hpending : σ'.pendingDupFds = σ.pendingDupFds) (hids : σ'.ids = σ.ids) {acts : List Act}
    (hacts : σ'.trace = acts ++ σ.trace) (hapart : ∀ i, i ≠ id → ∀ a ∈ acts, a.apart i = true)
    (hhistory : ∀ conn, lastOwner id σ'.trace = some conn →
      .attached id (some conn) ∈ σ'.trace) : Inv σ' := by
  have hcore : ∀ i, σ'.coreOf i = if i = id then some s'.core else σ.coreOf i := by
    intro i
    rw [← coreOf_putSession]
    exact congrArg (fun t : Sessions => (t.lookup i).map Session.core) hsessions
  refine h.moveSession (coreOf_eq_some hs) ?_ ?_ hfds hkq hclients hpending hids hacts hapart
    hhistory
  · intro i hi
    rw [hcore, if_neg hi]
  · intro c' hc'
    rw [hcore, if_pos rfl] at hc'
    cases hc'
    exact hself

private theorem mem_insert_ne {kq : Finset RawFd} {fd x : RawFd} (h : x ≠ fd) :
    x ∈ insert fd kq ↔ x ∈ kq := by
  rw [Finset.mem_insert]
  exact or_iff_right h

private theorem mem_erase_ne {kq : Finset RawFd} {fd x : RawFd} (h : x ≠ fd) :
    x ∈ kq.erase fd ↔ x ∈ kq := by
  rw [Finset.mem_erase]
  exact and_iff_right h

private theorem apart_nil {id : Uuid} : ∀ i, i ≠ id → ∀ a ∈ ([] : List Act), a.apart i = true :=
  fun _ _ _ h => nomatch h

theorem apart_one {id : Uuid} {act : Act} (h : ∀ i, i ≠ id → act.apart i = true) :
    ∀ i, i ≠ id → ∀ a ∈ [act], a.apart i = true := by
  intro i hi a ha
  rw [List.mem_singleton.mp ha]
  exact h i hi

private theorem Inv.detach (h : Inv σ) {id : Uuid} {s s' : Session}
    (hs : σ.sessions.lookup id = some s)
    (hs' : s'.core = { s.core with state := .active, ownerFd := none }) :
    Inv ((σ.putSession id s').register s.masterFd) := by
  have hok := h.session (coreOf_eq_some hs)
  refine h.replace hs rfl ?_ rfl (fun _ => mem_insert_ne) rfl rfl rfl (List.nil_append _).symm
    apart_nil fun conn => h.history
  rw [hs']
  exact {
    key := hok.key
    known := hok.known
    nonneg := hok.nonneg
    master := hok.master
    owned := ⟨fun h => (nomatch h), fun h => (nomatch h)⟩
    owner := fun fd hfd => (nomatch hfd)
    previous := hok.previous
    registered := ⟨fun _ h => (nomatch h), fun _ => Finset.mem_insert_self s.masterFd σ.kq⟩ }

private theorem Inv.takeOver (h : Inv σ) {id : Uuid} {s s' : Session} {fd : RawFd}
    (hs : σ.sessions.lookup id = some s) (hfd : s.ownerFd = some fd)
    (hs' : s'.core =
      { s.core with state := .active, ownerFd := none, previousOwnerFd := some fd }) :
    Inv (((σ.putSession id s').register s.masterFd).emit (.takenOver id (σ.connOf fd))) := by
  have hok := h.session (coreOf_eq_some hs)
  obtain ⟨conn, hconn, hlast⟩ := hok.owner fd hfd
  refine h.replace hs rfl ?_ rfl (fun _ => mem_insert_ne) rfl rfl rfl
    (List.singleton_append).symm (apart_one fun i hi => bne_iff_ne.mpr hi.symm) fun conn hlast =>
      List.mem_cons_of_mem _ (h.history hlast)
  rw [hs']
  exact {
    key := hok.key
    known := hok.known
    nonneg := hok.nonneg
    master := hok.master
    owned := ⟨fun h => (nomatch h), fun h => (nomatch h)⟩
    owner := fun fd hfd => (nomatch hfd)
    previous := by
      intro fd' hfd'
      cases hfd'
      exact ⟨conn, hconn, (if_pos rfl).trans hconn, List.mem_cons_of_mem _ (h.history hlast)⟩
    registered := ⟨fun _ h => (nomatch h), fun _ => Finset.mem_insert_self s.masterFd σ.kq⟩ }

private theorem Inv.forget (h : Inv σ) {id : Uuid} {s s' : Session}
    (hs : σ.sessions.lookup id = some s)
    (hs' : s'.core = { s.core with previousOwnerFd := none }) : Inv (σ.putSession id s') := by
  have hok := h.session (coreOf_eq_some hs)
  refine h.replace hs rfl ?_ rfl (fun _ _ => Iff.rfl) rfl rfl rfl (List.nil_append _).symm
    apart_nil fun conn => h.history
  rw [hs']
  exact { hok with previous := fun fd hfd => (nomatch hfd) }

private theorem Inv.listen (h : Inv σ) {id : Uuid} {s : Session}
    (hs : σ.sessions.lookup id = some s)
    (hfree : s.state ≠ .attached) : Inv (σ.register s.masterFd) := by
  have hok := h.session (coreOf_eq_some hs)
  refine h.moveSession (coreOf_eq_some hs) (fun _ _ => rfl) ?_ rfl (fun _ => mem_insert_ne) rfl rfl
    rfl (List.nil_append _).symm apart_nil fun conn => h.history
  intro c' hc'
  cases Option.some.inj ((coreOf_eq_some hs).symm.trans hc')
  exact { hok with
    registered := ⟨fun _ => hfree, fun _ => Finset.mem_insert_self s.masterFd σ.kq⟩ }

private theorem Inv.attach (h : Inv σ) {id : Uuid} {s s' : Session} {fd : RawFd} {conn : Nat}
    (hs : σ.sessions.lookup id = some s) (hconn : σ.connOf fd = some conn)
    (hs' : s'.core = { s.core with state := .attached, ownerFd := some fd }) :
    Inv (((σ.unregister s.masterFd).putSession id s').emit (.attached id (some conn))) := by
  have hok := h.session (coreOf_eq_some hs)
  refine h.replace hs rfl ?_ rfl (fun _ => mem_erase_ne) rfl rfl rfl
    (List.singleton_append).symm (apart_one fun i hi => bne_iff_ne.mpr hi.symm) ?_
  · rw [hs']
    exact {
      key := hok.key
      known := hok.known
      nonneg := hok.nonneg
      master := hok.master
      owned := ⟨fun _ => rfl, fun _ => rfl⟩
      owner := by
        intro fd' hfd'
        cases hfd'
        exact ⟨conn, hconn, if_pos rfl⟩
      previous := by
        intro fd' hfd'
        obtain ⟨conn', hconn', hlast, hmem⟩ := hok.previous fd' hfd'
        exact ⟨conn', hconn', hlast, List.mem_cons_of_mem _ hmem⟩
      registered := ⟨fun h => absurd h (Finset.notMem_erase s.masterFd σ.kq),
        fun h => absurd rfl h⟩ }
  · intro conn' hlast
    have hlast := (if_pos rfl).symm.trans hlast
    rw [hlast]
    exact List.mem_cons_self

private theorem Inv.giveBack (h : Inv σ) {id : Uuid} {conn : Nat} {s s' : Session} {fd : RawFd}
    (hs : σ.sessions.lookup id = some s) (hprev : s.previousOwnerFd = some fd)
    (hconn : σ.connOf fd = some conn)
    (hs' : s'.core =
      { s.core with state := .attached, ownerFd := some fd, previousOwnerFd := none }) :
    Inv ((((σ.emit (.sent conn (.fd id))).unregister s.masterFd).putSession id s').emit
      (.returned id conn)) := by
  have hok := h.session (coreOf_eq_some hs)
  obtain ⟨conn', hconn', _, hmem⟩ := hok.previous fd hprev
  have hsame : conn' = conn := Option.some.inj (hconn'.symm.trans hconn)
  let acts : List Act := [.returned id conn, .sent conn (.fd id)]
  have hacts : ∀ i, i ≠ id → ∀ a ∈ acts, a.apart i = true := by
    intro i hi a ha
    rcases List.mem_cons.mp ha with rfl | ha
    · exact bne_iff_ne.mpr hi.symm
    · rw [List.mem_singleton.mp ha]
      rfl
  refine h.replace hs rfl ?_ rfl (fun _ => mem_erase_ne) rfl rfl rfl
    (show _ = acts ++ σ.trace from rfl) hacts ?_
  · rw [hs']
    exact {
      key := hok.key
      known := hok.known
      nonneg := hok.nonneg
      master := hok.master
      owned := ⟨fun _ => rfl, fun _ => rfl⟩
      owner := by
        intro fd' hfd'
        cases hfd'
        exact ⟨conn, hconn, if_pos rfl⟩
      previous := fun fd' hfd' => (nomatch hfd')
      registered := ⟨fun h => absurd h (Finset.notMem_erase s.masterFd σ.kq),
        fun h => absurd rfl h⟩ }
  · intro last hlast
    have hlast := (if_pos rfl).symm.trans hlast
    cases hlast
    exact List.mem_append_right acts (hsame ▸ hmem)

theorem freeFd_iff {fd : RawFd} : σ.freeFd fd = true ↔ 0 ≤ fd ∧ σ.fds.lookup fd = none := by
  rw [freeFd, Bool.and_eq_true, decide_eq_true_iff, Option.isNone_iff_eq_none]

/-- A descriptor in use is not one the kernel gives out. -/
theorem ne_of_free {fd d : RawFd} {object : FdObject} (hfd : σ.fds.lookup fd = some object)
    (hfree : σ.fds.lookup d = none) : fd ≠ d := by
  rintro rfl
  cases hfd.symm.trans hfree

/-- Two descriptors that refer to different objects are different. -/
theorem ne_of_object {fd d : RawFd} {object object' : FdObject}
    (hfd : σ.fds.lookup fd = some object) (hd : σ.fds.lookup d = some object')
    (hne : object ≠ object') : fd ≠ d := by
  rintro rfl
  exact hne (Option.some.inj (hfd.symm.trans hd))

/-- Descriptors of masters and connections stay, and their filters stay; other descriptors and the
pending ones may change. -/
theorem Inv.descriptors (h : Inv σ) (hsessions : σ'.sessions = σ.sessions)
    (hclients : σ'.clients = σ.clients) (hids : σ'.ids = σ.ids)
    (hkeep : ∀ {fd object}, σ.fds.lookup fd = some object → (∀ id, object ≠ .dup id) →
      σ'.fds.lookup fd = some object ∧ (fd ∈ σ'.kq ↔ fd ∈ σ.kq))
    (hpending : ∀ {id d}, σ'.pendingDupFds.lookup id = some d → σ'.fds.lookup d = some (.dup id))
    {acts : List Act} (hacts : σ'.trace = acts ++ σ.trace)
    (hapart : ∀ id, ∀ a ∈ acts, a.apart id = true) : Inv σ' := by
  have hconns : ∀ fd, σ'.connOf fd = σ.connOf fd := fun fd => by rw [connOf, connOf, hclients]
  refine h.evolve ?_ ?_ hpending ?_
  · intro id c hc
    rw [coreOf, hsessions] at hc
    have hok := h.session hc
    obtain ⟨hfd, hkq⟩ := hkeep hok.master fun _ h => by cases h
    refine .inr ⟨hc, ?_, hfd.trans hok.master.symm, hkq, ?_, acts, hacts, hapart id⟩
    · rw [hids]
      exact List.Subset.refl _
    · intro fd conn _ hconn
      rwa [hconns]
  · intro fd conn hconn
    rw [hconns] at hconn
    exact (hkeep (h.client hconn) fun _ h => by cases h).1
  · intro id conn hlast
    rw [hacts] at hlast ⊢
    exact h.history_append (hapart id) hlast

private theorem lookup_openFd (σ : Server) (fd x : RawFd) (object : FdObject) :
    (σ.openFd fd object).fds.lookup x = if x = fd then some object else σ.fds.lookup x :=
  Table.lookup_insert σ.fds fd x object

theorem lookup_closeFd (σ : Server) (fd x : RawFd) :
    (σ.closeFd fd).fds.lookup x = if x = fd then none else σ.fds.lookup x :=
  Table.lookup_erase σ.fds fd x

private theorem Inv.stash (h : Inv σ) {id : Uuid} {d : RawFd} (hfree : σ.freeFd d = true) :
    Inv ((σ.openFd d (.dup id)).stashDup id d) := by
  have hnone := (freeFd_iff.mp hfree).2
  have hold : ∀ {fd object}, σ.fds.lookup fd = some object →
      ((σ.openFd d (.dup id)).stashDup id d).fds.lookup fd = some object := fun hfd =>
    (lookup_openFd σ d _ _).trans ((if_neg (ne_of_free hfd hnone)).trans hfd)
  refine h.descriptors rfl rfl rfl (fun hfd _ => ⟨hold hfd, Iff.rfl⟩) ?_ (List.nil_append _).symm
    fun _ _ h => nomatch h
  intro i x hx
  have hx := (Table.lookup_insert σ.pendingDupFds id i d).symm.trans hx
  by_cases hi : i = id
  · rw [if_pos hi] at hx
    cases hx
    rw [hi]
    exact (lookup_openFd σ d d (.dup id)).trans (if_pos rfl)
  · rw [if_neg hi] at hx
    exact hold (h.pending hx)

private theorem Inv.closeStashed (h : Inv σ) {id : Uuid} {d : RawFd}
    (hd : σ.pendingDupFds.lookup id = some d) (hsessions : σ'.sessions = σ.sessions)
    (hclients : σ'.clients = σ.clients) (hids : σ'.ids = σ.ids) (hfds : σ'.fds = σ.fds.erase d)
    (hkq : σ'.kq = σ.kq.erase d) (hpending : σ'.pendingDupFds = σ.pendingDupFds.erase id)
    {acts : List Act} (hacts : σ'.trace = acts ++ σ.trace)
    (hapart : ∀ id, ∀ a ∈ acts, a.apart id = true) : Inv σ' := by
  have hdup := h.pending hd
  have hlookup : ∀ fd, fd ≠ d → σ'.fds.lookup fd = σ.fds.lookup fd := fun fd hfd => by
    rw [hfds, Table.lookup_erase, if_neg hfd]
  refine h.descriptors hsessions hclients hids ?_ ?_ hacts hapart
  · intro fd object hfd hobject
    have hne := ne_of_object hfd hdup (hobject id)
    refine ⟨(hlookup fd hne).trans hfd, ?_⟩
    rw [hkq]
    exact mem_erase_ne hne
  · intro i x hx
    rw [hpending, Table.lookup_erase] at hx
    by_cases hi : i = id
    · rw [if_pos hi] at hx
      cases hx
    · rw [if_neg hi] at hx
      have hx := h.pending hx
      exact (hlookup x (ne_of_object hx hdup fun he => hi (FdObject.dup.inj he))).trans hx

private theorem Inv.flash (h : Inv σ) {id : Uuid} {d : RawFd} (hfree : σ.freeFd d = true) :
    Inv ((σ.openFd d (.dup id)).closeFd d) := by
  have hnone := (freeFd_iff.mp hfree).2
  have hold : ∀ {fd object}, σ.fds.lookup fd = some object →
      ((σ.openFd d (.dup id)).closeFd d).fds.lookup fd = some object := by
    intro fd object hfd
    have hne := ne_of_free hfd hnone
    rw [lookup_closeFd, if_neg hne, lookup_openFd, if_neg hne]
    exact hfd
  refine h.descriptors rfl rfl rfl ?_ (fun hx => hold (h.pending hx)) (List.nil_append _).symm
    fun _ _ h => nomatch h
  intro fd object hfd _
  exact ⟨hold hfd, mem_erase_ne (ne_of_free hfd hnone)⟩

private theorem Inv.passed (h : Inv σ) {id : Uuid} {conn : Nat} {d : RawFd}
    (hd : σ.pendingDupFds.lookup id = some d) :
    Inv (((σ.dropPending id).emit (.sent conn (.fd id))).closeFd d) := by
  refine h.closeStashed hd rfl rfl rfl rfl rfl rfl
    (show _ = [Act.sent conn (.fd id)] ++ σ.trace from rfl) ?_
  intro i a ha
  rw [List.mem_singleton.mp ha]
  rfl

private theorem Inv.unstash (h : Inv σ) {id : Uuid} {d : RawFd}
    (hd : σ.pendingDupFds.lookup id = some d) : Inv ((σ.dropPending id).closeFd d) :=
  h.closeStashed hd rfl rfl rfl rfl rfl rfl (List.nil_append _).symm fun _ _ h => nomatch h

private theorem Inv.unregister (h : Inv σ) {fd : RawFd} (hclosed : σ.fds.lookup fd = none) :
    Inv (σ.unregister fd) :=
  h.descriptors rfl rfl rfl (fun hx _ => ⟨hx, mem_erase_ne (ne_of_free hx hclosed)⟩) h.pending
    (List.nil_append _).symm fun _ _ h => nomatch h

private theorem Inv.notify (h : Inv σ) (id : Uuid) : Inv (σ.notifySessionEnded id) :=
  h.descriptors rfl rfl rfl (fun hx _ => ⟨hx, Iff.rfl⟩) h.pending (List.nil_append _).symm
    fun _ _ h => nomatch h

private theorem Inv.create (h : Inv σ) {id : Uuid} {fd : RawFd} {s : Session}
    {ring : SharedRingBuffer}
    (hfree : σ.freeFd fd = true)
    (hs : s.core = ⟨id, fd, .active, none, none, ring, some []⟩) :
    Inv ((({ σ with ids := id :: σ.ids }.openFd fd (.master id)).register fd).putSession id s) := by
  obtain ⟨hpos, hnone⟩ := freeFd_iff.mp hfree
  let opened := ({ σ with ids := id :: σ.ids }.openFd fd (.master id)).register fd
  have hold : ∀ {x object}, σ.fds.lookup x = some object → opened.fds.lookup x = some object :=
    fun hx => (lookup_openFd _ fd _ _).trans ((if_neg (ne_of_free hx hnone)).trans hx)
  refine h.evolve ?_ (fun hconn => hold (h.client hconn)) (fun hd => hold (h.pending hd)) h.history
  intro i c hc
  have hc := (coreOf_putSession opened id s i).symm.trans hc
  by_cases hi : i = id
  · rw [if_pos hi, hs] at hc
    cases hc
    subst hi
    exact .inl {
      key := rfl
      known := List.mem_cons_self
      nonneg := hpos
      master := (lookup_openFd _ fd fd _).trans (if_pos rfl)
      owned := ⟨fun h => (nomatch h), fun h => (nomatch h)⟩
      owner := fun fd hfd => (nomatch hfd)
      previous := fun fd hfd => (nomatch hfd)
      registered := ⟨fun _ h => (nomatch h), fun _ => Finset.mem_insert_self fd σ.kq⟩ }
  · rw [if_neg hi] at hc
    have hok := h.session hc
    refine .inr ⟨hc, fun _ => List.mem_cons_of_mem id, ?_, ?_, fun _ _ _ hconn => hconn, [], rfl,
      fun _ h => nomatch h⟩
    · exact (hold hok.master).trans hok.master.symm
    · exact mem_insert_ne (ne_of_free hok.master hnone)

private theorem Inv.remove (h : Inv σ) {id : Uuid} {s : Session}
    (hs : σ.sessions.lookup id = some s) :
    Inv ((σ.removeSession id).closeFd s.masterFd) := by
  have hok := h.session (coreOf_eq_some hs)
  have hold : ∀ {x object}, σ.fds.lookup x = some object → object ≠ .master id →
      ((σ.removeSession id).closeFd s.masterFd).fds.lookup x = some object := fun hx hobject =>
    (lookup_closeFd _ s.masterFd _).trans ((if_neg (ne_of_object hx hok.master hobject)).trans hx)
  refine h.evolve ?_ (fun hconn => hold (h.client hconn) fun h => nomatch h)
    (fun hd => hold (h.pending hd) fun h => nomatch h) h.history
  intro i c hc
  have hc := (coreOf_removeSession σ id i).symm.trans hc
  by_cases hi : i = id
  · rw [if_pos hi] at hc
    cases hc
  · rw [if_neg hi] at hc
    have hok' := h.session hc
    refine .inr ⟨hc, List.Subset.refl _, ?_, mem_erase_ne (hok'.master_ne hok hi),
      fun _ _ _ hconn => hconn, [], rfl, fun _ h => nomatch h⟩
    exact (hold hok'.master fun he => hi (FdObject.master.inj he)).trans hok'.master.symm

theorem connOf_acceptClient (σ : Server) (fd x : RawFd) :
    (σ.acceptClient fd).connOf x = if x = fd then some σ.accepted else σ.connOf x := by
  have hlookup := Table.lookup_insert σ.clients fd x (ClientState.mk σ.accepted [])
  rw [connOf, connOf]
  refine (congrArg (Option.map ClientState.stream) hlookup).trans ?_
  split <;> rfl

theorem Inv.accept (h : Inv σ) {fd : RawFd} (hfree : σ.freeFd fd = true) :
    Inv (σ.acceptClient fd) := by
  have hnone := (freeFd_iff.mp hfree).2
  have hold : ∀ {x object}, σ.fds.lookup x = some object →
      (σ.acceptClient fd).fds.lookup x = some object :=
    fun hx => (lookup_openFd σ fd _ _).trans ((if_neg (ne_of_free hx hnone)).trans hx)
  refine h.evolve ?_ ?_ (fun hd => hold (h.pending hd)) h.history
  · intro i c hc
    have hok := h.session hc
    refine .inr ⟨hc, List.Subset.refl _, (hold hok.master).trans hok.master.symm,
      mem_insert_ne (ne_of_free hok.master hnone), ?_, [], rfl, fun _ h => nomatch h⟩
    intro x conn _ hconn
    rw [connOf_acceptClient, if_neg (ne_of_free (h.client hconn) hnone)]
    exact hconn
  · intro x conn hconn
    rw [connOf_acceptClient] at hconn
    by_cases hx : x = fd
    · rw [if_pos hx] at hconn
      cases hconn
      exact (lookup_openFd σ fd x _).trans (if_pos hx)
    · rw [if_neg hx] at hconn
      exact hold (h.client hconn)

private theorem Move.inv (hmove : Move P σ σ') (h : Inv σ) : Inv σ' := by
  cases hmove with
  | aside haside => exact h.aside haside
  | @notify id _ => exact h.notify id
  | detach _ hs hs' => exact h.detach hs hs'
  | takeOver _ hs hfd hs' => exact h.takeOver hs hfd hs'
  | forget _ hs hs' => exact h.forget hs hs'
  | listen hs hfree => exact h.listen hs hfree
  | attach _ hs _ hconn hs' => exact h.attach hs hconn hs'
  | stash hfree => exact h.stash hfree
  | unstash hd => exact h.unstash hd
  | flash hfree => exact h.flash hfree
  | create hfree _ _ hs => exact h.create hfree hs
  | remove hs => exact h.remove hs
  | unregister hclosed => exact h.unregister hclosed
  | accept hfree => exact h.accept hfree

theorem Moves.inv (hmoves : Moves P σ σ') (h : Inv σ) : Inv σ' := by
  induction hmoves with
  | refl => exact h
  | tail _ hmove ih => exact hmove.inv ih

theorem Handover.inv {id : Uuid} {conn : Nat} (hpass : Handover id conn σ σ') (h : Inv σ) :
    Inv σ' := by
  cases hpass with
  | attached _ _ _ _ hd => exact h.passed hd
  | returned hs hprev hconn hs' => exact h.giveBack hs hprev hconn hs'

theorem Outcome.inv (hout : Outcome P σ σ') (h : Inv σ) : Inv σ' := by
  cases hout with
  | plain hmoves => exact hmoves.inv h
  | passes _ hmoves hpass haside => exact (hpass.inv (hmoves.inv h)).aside haside

end Server

end PtyDaemon
