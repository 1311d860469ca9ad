import PtyDaemon.Server.Dispatch
import PtyDaemon.Server.Holders

/-!
# A batch of events

One call of `kevent` collects up to 64 events, and the loop finds the object of each by the bare
number when its turn comes. Meanwhile the events before it may have closed descriptors and opened
others, and the kernel gives numbers out again.
-/

namespace PtyDaemon

namespace Server

variable {P : Uuid → Prop} {J : Codec} {σ₀ σ σ' : Server} {ev : KEvent}

/-- What `σ` still has of `σ₀`, when events lie between them: connections and sessions that were
known then have kept their descriptors. -/
structure Since (σ₀ σ : Server) : Prop where
  accepted : σ₀.accepted ≤ σ.accepted
  ids : σ₀.ids ⊆ σ.ids
  conns : ∀ {fd conn}, σ.connOf fd = some conn →
    σ₀.connOf fd = some conn ∨ σ₀.accepted ≤ conn ∧ conn < σ.accepted
  sessions : ∀ {id c}, σ.coreOf id = some c → id ∈ σ₀.ids →
    ∃ c₀, σ₀.coreOf id = some c₀ ∧ c₀.masterFd = c.masterFd

namespace Since

private theorem refl (σ : Server) : Since σ σ :=
  ⟨le_rfl, List.Subset.refl _, .inl, fun hc _ => ⟨_, hc, rfl⟩⟩

private theorem trans (h : Since σ₀ σ) (h' : Since σ σ') : Since σ₀ σ' where
  accepted := h.accepted.trans h'.accepted
  ids _ hid := h'.ids (h.ids hid)
  conns := by
    intro fd conn hconn
    rcases h'.conns hconn with hconn | ⟨hle, hlt⟩
    · exact (h.conns hconn).imp_right fun hnew => ⟨hnew.1, hnew.2.trans_le h'.accepted⟩
    · exact .inr ⟨h.accepted.trans hle, hlt⟩
  sessions := by
    intro id c hc hid
    obtain ⟨c₁, hc₁, hsame₁⟩ := h'.sessions hc (h.ids hid)
    obtain ⟨c₀, hc₀, hsame₀⟩ := h.sessions hc₁ hid
    exact ⟨c₀, hc₀, hsame₀.trans hsame₁⟩

/-- Nothing new comes, and sessions keep their masters. -/
theorem of_old (haccepted : σ'.accepted = σ.accepted) (hids : σ'.ids = σ.ids)
    (hconns : ∀ {fd conn}, σ'.connOf fd = some conn → σ.connOf fd = some conn)
    (hsessions : ∀ {id c}, σ'.coreOf id = some c →
      ∃ c₀, σ.coreOf id = some c₀ ∧ c₀.masterFd = c.masterFd) : Since σ σ' where
  accepted := haccepted.ge
  ids := by
    rw [hids]
    exact List.Subset.refl _
  conns hconn := .inl (hconns hconn)
  sessions hc _ := hsessions hc

private theorem aside (h : Aside σ σ') : Since σ σ' := by
  apply of_old h.accepted h.ids
  · intro fd conn hconn
    exact (h.clients fd).symm.trans hconn
  · intro id c hc
    exact ⟨c, (h.sessions id).symm.trans hc, rfl⟩

/-- Neither sessions nor connections change. -/
theorem same (haccepted : σ'.accepted = σ.accepted) (hids : σ'.ids = σ.ids)
    (hclients : σ'.clients = σ.clients) (hsessions : σ'.sessions = σ.sessions) : Since σ σ' := by
  apply of_old haccepted hids
  · intro fd conn hconn
    rwa [connOf, hclients] at hconn
  · intro id c hc
    rw [coreOf, hsessions] at hc
    exact ⟨c, hc, rfl⟩

/-- A session is replaced by one with the same master. -/
theorem replace {id : Uuid} {s s' : Session} (hs : σ.sessions.lookup id = some s)
    (hmaster : s'.masterFd = s.masterFd) (haccepted : σ'.accepted = σ.accepted)
    (hids : σ'.ids = σ.ids) (hclients : σ'.clients = σ.clients)
    (hsessions : σ'.sessions = σ.sessions.insert id s') : Since σ σ' := by
  apply of_old haccepted hids
  · intro fd conn hconn
    rwa [connOf, hclients] at hconn
  · intro i c hc
    rw [coreOf, hsessions, Table.lookup_insert] at hc
    split at hc
    · rename_i hi
      rw [hi]
      cases hc
      exact ⟨s.core, coreOf_eq_some hs, hmaster.symm⟩
    · exact ⟨c, hc, rfl⟩

private theorem move (hmove : Move P σ σ') : Since σ σ' := by
  cases hmove with
  | aside h => exact aside h
  | notify _ => exact same rfl rfl rfl rfl
  | detach _ hs hs' => exact replace hs (congrArg Core.masterFd hs') rfl rfl rfl rfl
  | takeOver _ hs _ hs' => exact replace hs (congrArg Core.masterFd hs') rfl rfl rfl rfl
  | forget _ hs hs' => exact replace hs (congrArg Core.masterFd hs') rfl rfl rfl rfl
  | listen _ _ => exact same rfl rfl rfl rfl
  | attach _ hs _ _ hs' => exact replace hs (congrArg Core.masterFd hs') rfl rfl rfl rfl
  | stash _ => exact same rfl rfl rfl rfl
  | unstash _ => exact same rfl rfl rfl rfl
  | flash _ => exact same rfl rfl rfl rfl
  | @create id fd s _ ring _ hid _ _ =>
    refine ⟨le_rfl, List.subset_cons_self id σ.ids, .inl, ?_⟩
    intro i c hc hi
    have hne : i ≠ id := fun h => hid (h ▸ hi)
    have hc := (coreOf_putSession
      (({ σ with ids := id :: σ.ids }.openFd fd (.master id)).register fd) id s i).symm.trans hc
    rw [if_neg hne] at hc
    exact ⟨c, hc, rfl⟩
  | @remove id s _ =>
    refine of_old rfl rfl (fun hconn => hconn) ?_
    intro i c hc
    have hc := (coreOf_removeSession σ id i).symm.trans hc
    split at hc
    · cases hc
    · exact ⟨c, hc, rfl⟩
  | unregister _ => exact same rfl rfl rfl rfl
  | @accept fd _ =>
    refine ⟨Nat.le_succ _, List.Subset.refl _, ?_, fun hc _ => ⟨_, hc, rfl⟩⟩
    intro x conn hconn
    rw [connOf_acceptClient] at hconn
    split at hconn
    · cases hconn
      exact .inr ⟨le_rfl, Nat.lt_succ_self _⟩
    · exact .inl hconn

private theorem moves (hmoves : Moves P σ σ') : Since σ σ' := by
  induction hmoves with
  | refl => exact refl σ
  | tail _ hmove ih => exact ih.trans (move hmove)

private theorem handover {id : Uuid} {conn : Nat} (h : Handover id conn σ σ') : Since σ σ' := by
  cases h with
  | attached _ _ _ _ _ => exact same rfl rfl rfl rfl
  | returned hs _ _ hs' => exact replace hs (congrArg Core.masterFd hs') rfl rfl rfl rfl

private theorem disconnected {fd : RawFd} (h : Disconnected fd σ σ') : Since σ σ' := by
  apply of_old h.accepted h.ids
  · intro x conn hconn
    rw [h.conns] at hconn
    split at hconn
    · cases hconn
    · exact hconn
  · intro id c hc
    cases hs : σ.sessions.lookup id with
    | none =>
      rw [coreOf, h.absent hs] at hc
      cases hc
    | some s =>
      have hmaster : (s.forget fd).core.masterFd = s.core.masterFd := by rw [s.forget_core fd]
      refine ⟨s.core, coreOf_eq_some hs, ?_⟩
      by_cases howner : s.ownerFd = some fd
      · obtain ⟨ringData, _, hs'⟩ := h.owned hs howner
        rw [coreOf_eq_some hs'] at hc
        cases hc
        exact hmaster.symm
      · rw [coreOf_eq_some (h.others hs howner)] at hc
        cases hc
        exact hmaster.symm

theorem event {e : Event} (hinv : Inv σ) (h : σ.event J e = .ok σ') : Since σ σ' := by
  have harrive : Since σ (σ.arrive e) := by
    cases e <;> exact same rfl rfl rfl rfl
  cases event_effect hinv h with
  | handled hout =>
    refine harrive.trans ?_
    cases hout with
    | plain hmoves => exact moves hmoves
    | passes _ hmoves hpass haside =>
      exact ((moves hmoves).trans (handover hpass)).trans (aside haside)
  | read _ hread =>
    cases hread with
    | mk hs _ _ hs' => exact replace hs (congrArg Core.masterFd hs') rfl rfl rfl rfl
  | lost _ _ hdisc => exact disconnected hdisc

end Since

private theorem Steps.settled (h : Steps J σ σ') (hsettled : Settled σ) : Settled σ' := by
  induction h with
  | refl => exact hsettled
  | tail _ hstep ih =>
    cases hstep with
    | event h => exact ih.event h
    | aside h => exact ih.aside h

private theorem Steps.since (h : Steps J σ σ') (hinv : Inv σ) : Since σ σ' := by
  induction h with
  | refl => exact .refl σ
  | tail hprefix hstep ih =>
    have hinv' := Steps.inv hprefix hinv
    cases hstep with
    | event h => exact ih.trans (.event hinv' h)
    | aside h => exact ih.trans (.aside h)

private theorem loop_steps (h : (loop J).Reachable σ) :
    ∃ listener wakeup now, Steps J (Server.new listener wakeup now) σ := by
  induction h with
  | start h =>
    obtain ⟨listener, wakeup, now, rfl⟩ := h
    exact ⟨listener, wakeup, now, .refl _⟩
  | next _ _ hstep ih =>
    obtain ⟨listener, wakeup, now, hsteps⟩ := ih
    refine ⟨listener, wakeup, now, hsteps.trans ?_⟩
    simp only [loop] at hstep
    split at hstep
    · exact turn_steps (ok_of_toOption hstep)
    · cases hstep

/-- The state in which a batch may be collected. -/
structure Collects (σ : Server) : Prop where
  settled : Settled σ
  /-- connections have the numbers of their `accept` calls -/
  below : ∀ {fd conn}, σ.connOf fd = some conn → conn < σ.accepted

private theorem Steps.collects (hreach : (loop J).Reachable σ) (h : Steps J σ σ') :
    Collects σ' := by
  obtain ⟨listener, wakeup, now, hsteps⟩ := loop_steps hreach
  have hall := hsteps.trans h
  refine ⟨hall.settled (.new listener wakeup now), ?_⟩
  intro fd conn hconn
  rcases (hall.since (new_inv listener wakeup now)).conns hconn with hconn | ⟨_, hlt⟩
  · cases hconn
  · exact hlt

/-- The object an event is applied to. -/
inductive Target
  | conn (c : Nat)
  | session (id : Uuid)
  deriving DecidableEq

def target (σ : Server) (ev : KEvent) : Option Target :=
  match σ.route ev with
  | .disconnect fd => (σ.connOf fd).map .conn
  | .clientData fd => (σ.connOf fd).map .conn
  | .childExit pid => (σ.sessions.findByChildPid pid).map fun s => .session s.id
  | .output fd => (σ.sessions.findByMasterFd fd).map fun s => .session s.id
  | _ => none

/-- The object is there in `σ`. -/
def Target.There (σ : Server) : Target → Prop
  | .conn c => ∃ fd, σ.connOf fd = some c
  | .session id => ∃ s, σ.sessions.lookup id = some s

/-- Whatever an event is applied to was there when the batch was collected. -/
def Reaches (σ₀ σ : Server) (ev : KEvent) : Prop := ∀ t, σ.target ev = some t → t.There σ₀

/-- The kernel has not given the number of the event to another connection or session since the
batch was collected. -/
def Unreused (σ₀ σ : Server) (ev : KEvent) : Prop :=
  match σ.route ev with
  | .disconnect fd | .clientData fd =>
    ∀ conn, σ.fds.lookup fd = some (.client conn) → σ₀.fds.lookup fd = some (.client conn)
  | .childExit pid => ∀ s, σ.sessions.findByChildPid pid = some s → s.id ∈ σ₀.ids
  | .output fd =>
    ∀ id, σ.fds.lookup fd = some (.master id) → σ₀.fds.lookup fd = some (.master id)
  | _ => True

/-- Every event of the batch that the loop comes to satisfies `Q`, in the state it is met in. -/
def Each (Q : Server → KEvent → Prop) (J : Codec) : Server → List (KEvent × Answers) → Prop
  | _, [] => True
  | σ, p :: rest =>
    Q σ p.1 ∧ (p.1.filter ≠ .signal → ∀ σ', σ.dispatch J p.2 p.1 = .ok σ' → Each Q J σ' rest)

private theorem Each.turn {Q : Server → KEvent → Prop} {pre post : List (KEvent × Answers)}
    {p : KEvent × Answers} (h : Each Q J σ (pre ++ p :: post))
    (hpre : ∀ p ∈ pre, p.1.filter ≠ .signal) (hrun : σ.dispatchAll J pre = .ok σ') :
    Q σ' p.1 := by
  induction pre generalizing σ with
  | nil =>
    cases hrun
    exact h.1
  | cons q pre ih =>
    have hsignal := hpre q List.mem_cons_self
    simp only [dispatchAll, if_neg hsignal] at hrun
    split at hrun
    · cases hrun
    · rename_i τ hτ
      exact ih (h.2 hsignal τ hτ) (fun r hr => hpre r (List.mem_cons_of_mem q hr)) hrun

private theorem each_congr {Q R : Server → KEvent → Prop} {batch : List (KEvent × Answers)}
    (h : ∀ σ', Steps J σ σ' → ∀ ev, Q σ' ev ↔ R σ' ev) : Each Q J σ batch ↔ Each R J σ batch := by
  induction batch generalizing σ with
  | nil => exact Iff.rfl
  | cons p batch ih =>
    simp only [Each]
    refine and_congr (h σ (.refl σ) p.1) (imp_congr_right fun _ => forall_congr' fun τ => ?_)
    refine imp_congr_right fun hτ => ih fun σ' hσ' => h σ' ?_
    exact (dispatch_steps hτ).trans hσ'

section

variable (hcollects : Collects σ₀) (hsince : Since σ₀ σ)

include hcollects hsince

/-- A connection was there before if and only if its stream had the same number. -/
theorem conn_there_iff {fd : RawFd} {conn : Nat} (hconn : σ.connOf fd = some conn) :
    (∃ x, σ₀.connOf x = some conn) ↔ σ₀.fds.lookup fd = some (.client conn) := by
  constructor
  · rintro ⟨x, hx⟩
    rcases hsince.conns hconn with hold | ⟨hnew, _⟩
    · exact hcollects.settled.inv.client hold
    · exact absurd (hcollects.below hx) (Nat.not_lt.mpr hnew)
  · intro hfd
    exact ⟨fd, hcollects.settled.accounted.client hfd⟩

private theorem session_there_iff {id : Uuid} {c : Core} (hc : σ.coreOf id = some c) :
    (∃ s, σ₀.sessions.lookup id = some s) ↔ id ∈ σ₀.ids := by
  constructor
  · rintro ⟨s, hs⟩
    exact (hcollects.settled.inv.session (coreOf_eq_some hs)).known
  · intro hid
    obtain ⟨c₀, hc₀, _⟩ := hsince.sessions hc hid
    obtain ⟨s, hs, _⟩ := Option.map_eq_some_iff.mp hc₀
    exact ⟨s, hs⟩

private theorem master_there_iff {id : Uuid} {c : Core} (hc : σ.coreOf id = some c) :
    (∃ s, σ₀.sessions.lookup id = some s) ↔ σ₀.fds.lookup c.masterFd = some (.master id) := by
  constructor
  · rintro ⟨s, hs⟩
    have hok := hcollects.settled.inv.session (coreOf_eq_some hs)
    obtain ⟨c₀, hc₀, hsame⟩ := hsince.sessions hc hok.known
    rw [coreOf_eq_some hs] at hc₀
    cases hc₀
    rw [← hsame]
    exact hok.master
  · intro hfd
    obtain ⟨c₀, hc₀, _⟩ := hcollects.settled.accounted.master hfd
    obtain ⟨s, hs, _⟩ := Option.map_eq_some_iff.mp hc₀
    exact ⟨s, hs⟩

/-- An event is applied to an object that was there if and only if its number has not been given
out again. -/
theorem reaches_iff_unreused (hsettled : Settled σ) (ev : KEvent) :
    Reaches σ₀ σ ev ↔ Unreused σ₀ σ ev := by
  have hclient : ∀ fd, (∀ t, (σ.connOf fd).map Target.conn = some t → t.There σ₀) ↔
      ∀ conn, σ.fds.lookup fd = some (.client conn) →
        σ₀.fds.lookup fd = some (.client conn) := by
    intro fd
    constructor
    · intro h conn hfd
      have hconn := hsettled.accounted.client hfd
      exact (conn_there_iff hcollects hsince hconn).mp (h (.conn conn) (by simp [hconn]))
    · intro h t ht
      obtain ⟨conn, hconn, rfl⟩ := Option.map_eq_some_iff.mp ht
      exact (conn_there_iff hcollects hsince hconn).mpr (h conn (hsettled.inv.client hconn))
  unfold Reaches Unreused target
  cases hroute : σ.route ev with
  | shutdown => simp
  | wakeup => simp
  | accept => simp
  | disconnect fd => exact hclient fd
  | clientData fd => exact hclient fd
  | childExit pid =>
    have hfound : ∀ s, σ.sessions.findByChildPid pid = some s →
        ((∃ t, σ₀.sessions.lookup s.id = some t) ↔ s.id ∈ σ₀.ids) := by
      intro s hs
      have hlookup := lookup_found hsettled.inv.sessionsOpen hs
      exact session_there_iff hcollects hsince (coreOf_eq_some hlookup)
    constructor
    · intro h s hs
      exact (hfound s hs).mp (h (.session s.id) (by simp [hs]))
    · intro h t ht
      obtain ⟨s, hs, rfl⟩ := Option.map_eq_some_iff.mp ht
      exact (hfound s hs).mpr (h s hs)
  | output fd =>
    have hfound : ∀ s, σ.sessions.findByMasterFd fd = some s →
        σ.fds.lookup fd = some (.master s.id) ∧
          ((∃ t, σ₀.sessions.lookup s.id = some t) ↔
            σ₀.fds.lookup fd = some (.master s.id)) := by
      intro s hs
      obtain ⟨id, hid⟩ := Table.mem_values.mp (List.mem_of_find?_eq_some hs)
      have hmaster : s.masterFd = fd := by simpa using List.find?_some hs
      have hok := hsettled.inv.session (coreOf_eq_some hid)
      have hkey : s.id = id := hok.key
      rw [hkey, ← hmaster]
      exact ⟨hok.master, master_there_iff hcollects hsince (coreOf_eq_some hid)⟩
    constructor
    · intro h id hfd
      obtain ⟨c, hc, hmaster⟩ := hsettled.accounted.master hfd
      obtain ⟨s, hs, rfl⟩ := Option.map_eq_some_iff.mp hc
      have hsome : (σ.sessions.findByMasterFd fd).isSome = true := by
        apply List.find?_isSome.mpr
        exact ⟨s, Table.mem_values.mpr ⟨id, hs⟩, decide_eq_true hmaster⟩
      obtain ⟨t, ht⟩ := Option.isSome_iff_exists.mp hsome
      obtain ⟨hsame, hiff⟩ := hfound t ht
      rw [hfd] at hsame
      cases hsame
      exact hiff.mp (h (.session t.id) (by simp [ht]))
    · intro h t ht
      obtain ⟨s, hs, rfl⟩ := Option.map_eq_some_iff.mp ht
      obtain ⟨hfd, hiff⟩ := hfound s hs
      exact hiff.mpr (h s.id hfd)

end

/-- The first event of a batch meets the state the batch was collected in. -/
theorem unreused_first (hcollects : Collects σ) (ev : KEvent) : Unreused σ σ ev := by
  unfold Unreused
  cases σ.route ev with
  | childExit pid =>
    intro s hs
    have hlookup := lookup_found hcollects.settled.inv.sessionsOpen hs
    exact (hcollects.settled.inv.session (coreOf_eq_some hlookup)).known
  | shutdown => trivial
  | wakeup => trivial
  | accept => trivial
  | disconnect fd => exact fun _ h => h
  | clientData fd => exact fun _ h => h
  | output fd => exact fun _ h => h

/-- A batch reaches only objects that were there when it was collected if and only if no number of
its events is given out again before their turn. -/
theorem batch_reaches_iff {τ : Server} (hreach : (loop J).Reachable τ) (hsteps : Steps J τ σ₀)
    (batch : List (KEvent × Answers)) :
    Each (Reaches σ₀) J σ₀ batch ↔ Each (Unreused σ₀) J σ₀ batch := by
  have hcollects := hsteps.collects hreach
  apply each_congr
  intro σ hσ ev
  have hsince := hσ.since hcollects.settled.inv
  exact reaches_iff_unreused hcollects hsince (hσ.settled hcollects.settled) ev

/-- Messages that create session 7 and kill it. -/
private def killing : Codec where
  request := fun json =>
    if json = [0] then .ok (.create none 80 24 none none none)
    else if json = [4] then .ok (.kill 7)
    else .error "unknown"
  pushAck := fun _ => .error "unknown"
  base64 := fun _ => .error "unknown"

private def reads (fd : RawFd) (eof : Bool) (accepts : List AcceptResult) (bytes : List UInt8)
    (envs : List Env) : KEvent × Answers :=
  (⟨fd, .read, eof⟩, ⟨accepts, .data bytes, .failed, calm, envs⟩)

/-- A client creates session 7, whose master is descriptor 10. -/
private def creation : List Turn :=
  [readable 3 [.stream 5] [] [], readable 5 [] (encodeMessage [0]) [calm]]

/-- The client kills its session. -/
private def kill : KEvent × Answers := reads 5 false [] (encodeMessage [4]) [calmLater]

/-- A new client is accepted, and its stream gets the number the master had. -/
private def reuse : KEvent × Answers := reads 3 false [.stream 10] [] []

/-- The shell has hung up. -/
private def hangup : KEvent × Answers := reads 10 true [] [] []

private theorem creation_reachable {α : Type} {facts : Server → Option α} {a : α}
    (hrun : ((loop killing).exec (Server.new 3 none 0) creation).bind facts = some a) :
    ∃ σ, (loop killing).Reachable σ ∧ facts σ = some a := by
  obtain ⟨σ, hexec, hfacts⟩ := Option.bind_eq_some_iff.mp hrun
  have hstart : (loop killing).Reachable (Server.new 3 none 0) := .start ⟨3, none, 0, rfl⟩
  exact ⟨σ, hstart.exec hexec, hfacts⟩

/-- When the hangup has its turn, the master is closed and its number free. -/
theorem batch_reaches_iff_free :
    ∃ σ₀, (loop killing).Reachable σ₀ ∧ Each (Reaches σ₀) killing σ₀ [kill, hangup] := by
  have hrun : (((loop killing).exec (Server.new 3 none 0) creation).bind fun σ =>
      (σ.dispatch killing kill.2 kill.1).toOption.map fun σ' =>
        (σ'.route hangup.1, σ'.fds.lookup 10)) = some (.output 10, none) := by decide +kernel
  obtain ⟨σ₀, hreach, hfacts⟩ := creation_reachable hrun
  refine ⟨σ₀, hreach, (batch_reaches_iff hreach (.refl σ₀) _).mpr ⟨?_, fun _ σ hσ => ?_⟩⟩
  · exact unreused_first ((Steps.refl σ₀).collects hreach) kill.1
  · rw [hσ] at hfacts
    obtain ⟨hroute, hfree⟩ := Prod.mk.inj (Option.some.inj hfacts)
    refine ⟨?_, fun _ _ _ => trivial⟩
    unfold Unreused
    rw [hroute]
    intro id hid
    rw [hfree] at hid
    cases hid

/-- The hangup of a killed session is in the same batch as the kill and the arrival of a client:
it disconnects the client, which came after the batch was collected. -/
theorem hangup_disconnects_new_client :
    ∃ σ₀ σ, (loop killing).Reachable σ₀ ∧ 3 ∈ σ₀.kq ∧ 5 ∈ σ₀.kq ∧ 10 ∈ σ₀.kq ∧
      ¬ Each (Reaches σ₀) killing σ₀ [kill, reuse, hangup] ∧
      σ₀.dispatchAll killing [kill, reuse] = .ok σ ∧ σ.target hangup.1 = some (.conn 1) ∧
      ∃ σ', σ.dispatch killing hangup.2 hangup.1 = .ok σ' ∧ σ'.connOf 10 = none := by
  have hrun : (((loop killing).exec (Server.new 3 none 0) creation).bind fun σ₀ =>
      (σ₀.dispatchAll killing [kill, reuse]).toOption.bind fun σ =>
        (σ.dispatch killing hangup.2 hangup.1).toOption.map fun σ' =>
          (σ₀.accepted, decide (3 ∈ σ₀.kq ∧ 5 ∈ σ₀.kq ∧ 10 ∈ σ₀.kq), σ.target hangup.1,
            σ'.connOf 10)) = some (1, true, some (.conn 1), none) := by decide +kernel
  obtain ⟨σ₀, hreach, hfacts⟩ := creation_reachable hrun
  obtain ⟨σ, hσ, hfacts⟩ := Option.bind_eq_some_iff.mp hfacts
  obtain ⟨σ', hσ', hfacts⟩ := Option.map_eq_some_iff.mp hfacts
  simp only [Prod.mk.injEq, decide_eq_true_eq] at hfacts
  obtain ⟨haccepted, ⟨hlistener, hclient, hmaster⟩, htarget, hgone⟩ := hfacts
  have hσ := ok_of_toOption hσ
  refine ⟨σ₀, σ, hreach, hlistener, hclient, hmaster, fun h => ?_, hσ, htarget, σ',
    ok_of_toOption hσ', hgone⟩
  have hpre : ∀ p ∈ [kill, reuse], p.1.filter ≠ .signal := by decide
  have h : Each (Reaches σ₀) killing σ₀ ([kill, reuse] ++ hangup :: []) := h
  obtain ⟨fd, hthere⟩ := h.turn hpre hσ (.conn 1) htarget
  have hbelow := ((Steps.refl σ₀).collects hreach).below hthere
  rw [haccepted] at hbelow
  exact absurd hbelow (by decide)

end Server

end PtyDaemon
