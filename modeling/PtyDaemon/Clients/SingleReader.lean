import PtyDaemon.Clients.World

/-!
# One reader of a PTY at a time

The daemon ends an attachment on its side alone. So a PTY has two readers exactly when it does
that while the client is inside its loop; in runs in which every client has let go by then, the
reader is always the one the daemon's record names.
-/

namespace PtyDaemon

open Server

namespace Process

/-- No step gives a process a descriptor it did not have or find in its inbox. -/
theorem holds_of_step {p p' : Process} {s : ProcessStep} (h : p.step s = some p') {id : Uuid}
    (hold : p'.holds id) : p.holds id := by
  cases s with
  | readReply =>
    simp only [step] at h
    split at h
    · rename_i frame inbox hstage hinbox
      cases h
      rcases hold with (hl | hl | hl) | hl | ⟨_, hmem⟩
      · split at hl <;> cases hl
      · split at hl <;> cases hl
      · split at hl <;> cases hl
      · split at hl <;> cases hl
      · exact .inr (.inr ⟨.inl hstage, hinbox ▸ List.mem_cons_of_mem frame hmem⟩)
    · cases h
  | receiveFd =>
    simp only [step] at h
    split at h
    · rename_i pty inbox hstage hinbox
      cases h
      rcases hold with (hl | hl | hl) | hl | ⟨hl | hl, _⟩
      · cases hl
      · cases hl
      · cases hl
      · cases hl
        exact .inr (.inr ⟨.inr hstage, hinbox ▸ List.mem_cons_self⟩)
      · cases hl
      · cases hl
    · cases h
      rcases hold with (hl | hl | hl) | hl | ⟨hl | hl, _⟩ <;> cases hl
    · cases h
  | enterLoop =>
    simp only [step] at h
    split at h
    · rename_i pty hstage
      cases h
      rcases hold with (hl | hl | hl) | hl | ⟨hl | hl, _⟩
      · cases hl
        exact .inr (.inl hstage)
      all_goals cases hl
    · cases h
  | pressDetach =>
    simp only [step] at h
    split at h
    · rename_i pty hstage
      cases h
      rcases hold with (hl | hl | hl) | hl | ⟨hl | hl, _⟩
      · cases hl
      · cases hl
        exact .inl (.inl hstage)
      all_goals cases hl
    · cases h
  | readDetached =>
    simp only [step] at h
    split at h
    · rename_i pty frame inbox hstage hinbox
      cases h
      rcases hold with (hl | hl | hl) | hl | ⟨hl | hl, _⟩
      · cases hl
      · cases hl
      · cases hl
        exact .inl (.inr (.inl hstage))
      all_goals cases hl
    · cases h
  | quit =>
    cases h
    rcases hold with (hl | hl | hl) | hl | ⟨hl | hl, _⟩ <;> cases hl

private theorem not_holds_start (command : Command) (id : Uuid) : ¬ (start command).holds id := by
  rintro ((h | h | h) | h | ⟨_, h⟩) <;> cases command <;> cases h

private theorem not_holds_of_exited {p : Process} (h : p.stage = .exited) (id : Uuid) :
    ¬ p.holds id := by
  rintro ((hl | hl | hl) | hl | ⟨hl | hl, _⟩) <;> cases h.symm.trans hl

/-- After a delivery a process holds what it held and what was passed to it. -/
theorem holds_of_deliver {p : Process} {conn : Nat} {acts : List Act} {id : Uuid}
    (h : Process.holds { p with inbox := p.inbox ++ acts.filterMap (Act.frameFor conn) } id) :
    p.holds id ∨ .sent conn (.fd id) ∈ acts := by
  rcases h with hloop | hreplaying | ⟨hstage, hmem⟩
  · exact .inl (.inl hloop)
  · exact .inl (.inr (.inl hreplaying))
  · rcases List.mem_append.mp hmem with hmem | hmem
    · exact .inl (.inr (.inr ⟨hstage, hmem⟩))
    · obtain ⟨a, ha, hframe⟩ := List.mem_filterMap.mp hmem
      cases a with
      | sent c frame =>
        rw [Act.frameFor] at hframe
        split at hframe
        · rename_i hc
          cases hframe
          exact .inr (hc ▸ ha)
        · cases hframe
      | _ => cases hframe

end Process

namespace World

variable {J : Codec} {w w' : World} {σ' : Server}

/-- At most one process reads a PTY: no client while the daemon has it registered, and never two
clients. -/
def SingleReader (w : World) : Prop :=
  (∀ id s, w.server.sessions.lookup id = some s → s.masterFd ∈ w.server.kq →
    ∀ conn p, w.processes.lookup conn = some p → ¬ p.inLoop id) ∧
  ∀ id conn conn' p p', w.processes.lookup conn = some p → w.processes.lookup conn' = some p' →
    p.inLoop id → p'.inLoop id → conn = conn'

/-- An attached session is moved only when no client holds its descriptor. -/
def LetGo (w : World) : Label → Prop
  | .daemon e => ∀ id, w.server.attachedAt id → w.server.eventMoves e id →
    ∀ conn p, w.processes.lookup conn = some p → ¬ p.holds id
  | _ => True

/-- Who holds a descriptor is the owner of its session. -/
structure HolderInv (w : World) : Prop where
  server : Inv w.server
  known : ∀ {conn p id}, w.processes.lookup conn = some p → p.holds id → id ∈ w.server.ids
  owner : ∀ {conn p id c}, w.processes.lookup conn = some p → p.holds id →
    w.server.coreOf id = some c → ∃ fd, c.ownerFd = some fd ∧ w.server.connOf fd = some conn
  unique : ∀ {conn conn' p p' id}, w.processes.lookup conn = some p →
    w.processes.lookup conn' = some p' → p.holds id → p'.holds id → conn = conn'

private theorem HolderInv.singleReader (h : HolderInv w) : SingleReader w := by
  constructor
  · intro id s hs hkq conn p hp hloop
    obtain ⟨fd, hfd, _⟩ := h.owner hp (.inl hloop) (coreOf_eq_some hs)
    have hok := h.server.session (coreOf_eq_some hs)
    exact hok.registered.mp hkq (hok.owned.mpr (by rw [hfd, Option.isSome_some]))
  · intro id conn conn' p p' hp hp' hloop hloop'
    exact h.unique hp hp' (.inl hloop) (.inl hloop')

/-- Nobody gets hold of a descriptor. -/
theorem HolderInv.ofFewer (h : HolderInv w) (hserver : w'.server = w.server)
    (hfewer : ∀ {conn p' id}, w'.processes.lookup conn = some p' → p'.holds id →
      ∃ p, w.processes.lookup conn = some p ∧ p.holds id) : HolderInv w' where
  server := hserver ▸ h.server
  known hp' hold' := by
    obtain ⟨p, hp, hold⟩ := hfewer hp' hold'
    rw [hserver]
    exact h.known hp hold
  owner hp' hold' hc := by
    obtain ⟨p, hp, hold⟩ := hfewer hp' hold'
    rw [hserver] at hc ⊢
    exact h.owner hp hold hc
  unique hp hp' hold hold' := by
    obtain ⟨q, hq, hq'⟩ := hfewer hp hold
    obtain ⟨r, hr, hr'⟩ := hfewer hp' hold'
    exact h.unique hq hr hq' hr'


private theorem lookup_deliver (acts : List Act) (processes : Table Nat Process) (conn : Nat) :
    (deliver acts processes).lookup conn = (processes.lookup conn).map fun p =>
      { p with inbox := p.inbox ++ acts.filterMap (Act.frameFor conn) } :=
  Table.lookup_mapWithKey _ processes conn

/-- What the daemon may do as far as holders are concerned: they stay owners, and a descriptor goes
to a new owner nobody else holds it with. -/
structure Passes (w : World) (σ' : Server) (acts : List Act) : Prop where
  server : Inv σ'
  ids : w.server.ids ⊆ σ'.ids
  stays : ∀ {conn p id c}, w.processes.lookup conn = some p → p.holds id →
    σ'.coreOf id = some c → ∃ fd, c.ownerFd = some fd ∧ σ'.connOf fd = some conn
  passed : ∀ {conn id}, .sent conn (.fd id) ∈ acts →
    (∃ c fd, σ'.coreOf id = some c ∧ c.ownerFd = some fd ∧ σ'.connOf fd = some conn) ∧
    ∀ {conn' p}, w.processes.lookup conn' = some p → ¬ p.holds id

private theorem HolderInv.ofPasses (h : HolderInv w) {acts : List Act} (hpass : Passes w σ' acts) :
    HolderInv ⟨σ', deliver acts w.processes⟩ := by
  have hsplit : ∀ {conn p' id}, (deliver acts w.processes).lookup conn = some p' → p'.holds id →
      (∃ p, w.processes.lookup conn = some p ∧ p.holds id) ∨ .sent conn (.fd id) ∈ acts := by
    intro conn p' id hp' hold
    rw [lookup_deliver] at hp'
    obtain ⟨p, hp, rfl⟩ := Option.map_eq_some_iff.mp hp'
    exact (Process.holds_of_deliver hold).imp_left fun hold => ⟨p, hp, hold⟩
  constructor
  case server => exact hpass.server
  case known =>
    intro conn p' id hp' hold
    rcases hsplit hp' hold with ⟨p, hp, hold⟩ | hsent
    · exact hpass.ids (h.known hp hold)
    · obtain ⟨c, _, hc, _, _⟩ := (hpass.passed hsent).1
      exact (hpass.server.session hc).known
  case owner =>
    intro conn p' id c' hp' hold hc'
    rcases hsplit hp' hold with ⟨p, hp, hold⟩ | hsent
    · exact hpass.stays hp hold hc'
    · obtain ⟨c, fd, hc, hfd, hconn⟩ := (hpass.passed hsent).1
      cases Option.some.inj (hc.symm.trans hc')
      exact ⟨fd, hfd, hconn⟩
  case unique =>
    intro conn conn' p p' id hp hp' hold hold'
    rcases hsplit hp hold with ⟨q, hq, hold⟩ | hsent
    · rcases hsplit hp' hold' with ⟨q', hq', hold'⟩ | hsent'
      · exact h.unique hq hq' hold hold'
      · exact absurd hold ((hpass.passed hsent').2 hq)
    · rcases hsplit hp' hold' with ⟨q', hq', hold'⟩ | hsent'
      · exact absurd hold' ((hpass.passed hsent).2 hq')
      · obtain ⟨c, fd, hc, hfd, hconn⟩ := (hpass.passed hsent).1
        obtain ⟨c', fd', hc', hfd', hconn'⟩ := (hpass.passed hsent').1
        cases Option.some.inj (hc.symm.trans hc')
        cases Option.some.inj (hfd.symm.trans hfd')
        exact Option.some.inj (hconn.symm.trans hconn')

/-- A session that is gone does not come back. -/
theorem holder_attached (h : HolderInv w) {conn : Nat} {p : Process} {id : Uuid} {c : Core}
    (hp : w.processes.lookup conn = some p) (hold : p.holds id)
    (hc : w.server.coreOf id = some c) : w.server.attachedAt id := by
  obtain ⟨fd, hfd, _⟩ := h.owner hp hold hc
  obtain ⟨s, hs, rfl⟩ := Option.map_eq_some_iff.mp hc
  exact ⟨s, hs, (h.server.session hc).owned.mpr (by rw [hfd, Option.isSome_some])⟩

/-- The handlers of requests, commands and the kernel's other events. -/
theorem passes_handled (h : HolderInv w) {P : Uuid → Prop} {σ : Server}
    (hids : σ.ids = w.server.ids) (hcore : ∀ id, σ.coreOf id = w.server.coreOf id)
    (hconn : ∀ fd, σ.connOf fd = w.server.connOf fd) (htrace : σ.trace = w.server.trace)
    (hinv : Inv σ) (hout : Outcome P σ σ')
    (hlet : ∀ id, w.server.attachedAt id → P id →
      ∀ conn p, w.processes.lookup conn = some p → ¬ p.holds id) :
    Passes w σ' (newActs w.server σ') := by
  have hkept := hout.kept hinv
  obtain ⟨acts, hacts, _, hsent⟩ := hout.acts
  rw [htrace] at hacts
  rw [newActs_eq hacts]
  have hstill : ∀ {conn p id c}, w.processes.lookup conn = some p → p.holds id →
      σ'.coreOf id = some c → ¬ P id ∧ w.server.coreOf id = some c := by
    intro conn p id c hp hold hc
    have hid : id ∈ σ.ids := hids ▸ h.known hp hold
    obtain ⟨c₀, hc₀, _⟩ := hkept.bytes hid hc
    rw [hcore] at hc₀
    have hP : ¬ P id := fun hP => hlet id (holder_attached h hp hold hc₀) hP conn p hp hold
    have hsame := hkept.still hid hP hc
    rw [hcore] at hsame
    exact ⟨hP, hsame⟩
  constructor
  case server => exact hout.inv hinv
  case ids => exact hids ▸ hkept.ids
  case stays =>
    intro conn p id c hp hold hc
    obtain ⟨fd, hfd, howner⟩ := h.owner hp hold (hstill hp hold hc).2
    exact ⟨fd, hfd, hkept.conns ((hconn fd).trans howner)⟩
  case passed =>
    intro conn id hmem
    obtain ⟨hP, c, fd, hc, hfd, howner⟩ := hsent conn id (List.mem_reverse.mp hmem)
    exact ⟨⟨c, fd, hc, hfd, howner⟩, fun hp hold => (hstill hp hold hc).1 hP⟩

/-- A connection is lost only after its process. -/
theorem passes_lost (h : HolderInv w) {fd : RawFd} {conn : Nat}
    (hconn : w.server.connOf fd = some conn) (hinv : Inv σ')
    (hexited : ∀ p, w.processes.lookup conn = some p → p.stage = .exited)
    (hdisc : Disconnected fd w.server σ') : Passes w σ' (newActs w.server σ') := by
  rw [newActs_eq ((List.nil_append _).trans hdisc.trace.symm).symm]
  refine ⟨hinv, hdisc.ids ▸ List.Subset.refl _, ?_, fun h => nomatch h⟩
  intro c p id core hp hold hcore
  obtain ⟨s', hs', rfl⟩ := Option.map_eq_some_iff.mp hcore
  cases hs : w.server.sessions.lookup id with
  | none => cases (hdisc.absent hs).symm.trans hs'
  | some s =>
    obtain ⟨x, hx, howner⟩ := h.owner hp hold (coreOf_eq_some hs)
    have hne : x ≠ fd := by
      rintro rfl
      cases Option.some.inj (hconn.symm.trans howner)
      exact Process.not_holds_of_exited (hexited p hp) id hold
    have hother := hdisc.others hs fun hfd => hne (Option.some.inj (hx.symm.trans hfd))
    cases Option.some.inj (hother.symm.trans hs')
    exact ⟨x, (s.forget_ownerFd fd).trans hx, (hdisc.conns x).trans ((if_neg hne).trans howner)⟩

private theorem passes_read (h : HolderInv w) {id : Uuid} {bytes : List UInt8}
    (hread : Server.Read id bytes w.server σ') : Passes w σ' (newActs w.server σ') := by
  have hinv := hread.inv h.server
  obtain ⟨s, s', hs, hfree, _, _, hcore, hconns, hids, htrace⟩ := hread.spec
  rw [newActs_eq htrace]
  refine ⟨hinv, hids ▸ List.Subset.refl _, ?_, fun h => by simp at h⟩
  intro conn p i c hp hold hc
  rw [hcore] at hc
  by_cases hi : i = id
  · subst hi
    obtain ⟨t, ht, hatt⟩ := holder_attached h hp hold (coreOf_eq_some hs)
    cases Option.some.inj (hs.symm.trans ht)
    exact absurd hatt hfree
  · rw [if_neg hi] at hc
    obtain ⟨fd, hfd, hconn⟩ := h.owner hp hold hc
    exact ⟨fd, hfd, (hconns fd).trans hconn⟩

private theorem prepare_spec {e : Event} (h : w.prepare e = some w') :
    w'.server = w.server ∧
      (∀ {conn p' id}, w'.processes.lookup conn = some p' → p'.holds id →
        ∃ p, w.processes.lookup conn = some p ∧ p.holds id) ∧
      ∀ {fd conn p}, e = .disconnect fd → w.server.connOf fd = some conn →
        w'.processes.lookup conn = some p → p.stage = .exited := by
  cases e with
  | accept fd => cases h
  | request fd result consumed env =>
    obtain ⟨conn, _, h⟩ := Option.bind_eq_some_iff.mp h
    obtain ⟨p, hp, h⟩ := Option.bind_eq_some_iff.mp h
    split at h
    · split at h
      · rename_i request outbox served _ _
        cases h
        refine ⟨rfl, ?_, fun he => (nomatch he)⟩
        intro conn' p' id hp' hold
        rw [Table.lookup_insert] at hp'
        by_cases hc : conn' = conn
        · rw [if_pos hc] at hp'
          cases hp'
          exact ⟨p, hc ▸ hp, hold⟩
        · rw [if_neg hc] at hp'
          exact ⟨p', hp', hold⟩
      · cases h
    · cases h
  | disconnect fd =>
    obtain ⟨conn, hconn, h⟩ := Option.bind_eq_some_iff.mp h
    obtain ⟨p, hp, h⟩ := Option.bind_eq_some_iff.mp h
    split at h
    · rename_i hexited
      cases h
      refine ⟨rfl, fun hp hold => ⟨_, hp, hold⟩, ?_⟩
      intro fd' conn' p' he hconn' hp'
      cases he
      cases Option.some.inj (hconn.symm.trans hconn')
      cases Option.some.inj (hp.symm.trans hp')
      exact hexited
    · cases h
  | reap env =>
    cases h
    exact ⟨rfl, fun hp hold => ⟨_, hp, hold⟩, fun he => (nomatch he)⟩
  | command shared cmd env =>
    cases h
    exact ⟨rfl, fun hp hold => ⟨_, hp, hold⟩, fun he => (nomatch he)⟩
  | childExit pid env =>
    cases h
    exact ⟨rfl, fun hp hold => ⟨_, hp, hold⟩, fun he => (nomatch he)⟩
  | output fd read env =>
    cases h
    exact ⟨rfl, fun hp hold => ⟨_, hp, hold⟩, fun he => (nomatch he)⟩

/-- One event of the daemon. -/
theorem HolderInv.event (h : HolderInv w) {e : Event} (hevent : w.server.event J e = .ok σ')
    (hexited : ∀ {fd conn p}, e = .disconnect fd → w.server.connOf fd = some conn →
      w.processes.lookup conn = some p → p.stage = .exited)
    (hlet : LetGo w (.daemon e)) :
    HolderInv ⟨σ', deliver (newActs w.server σ') w.processes⟩ := by
  apply h.ofPasses
  cases event_effect h.server hevent with
  | handled hout =>
    obtain ⟨hids, hcore, hconn, htrace⟩ := arrive_same w.server e
    exact passes_handled h hids hcore hconn htrace (h.server.arrive e) hout hlet
  | lost he hconn hdisc =>
    exact passes_lost h hconn (event_inv h.server hevent) (fun p hp => hexited he hconn hp) hdisc
  | read _ hread => exact passes_read h hread

private theorem HolderInv.connect (h : HolderInv w) {fd : RawFd} (hfree : w.server.freeFd fd = true)
    (command : Command) :
    HolderInv ⟨w.server.acceptClient fd,
      w.processes.insert w.server.accepted (.start command)⟩ := by
  have hold : ∀ {conn p id}, (w.processes.insert w.server.accepted (.start command)).lookup conn =
      some p → p.holds id → w.processes.lookup conn = some p := by
    intro conn p id hp hold
    rw [Table.lookup_insert] at hp
    split at hp
    · cases hp
      exact absurd hold (Process.not_holds_start command id)
    · exact hp
  have hkept : Kept (fun _ => False) w.server (w.server.acceptClient fd) :=
    (Move.accept hfree).kept h.server
  constructor
  case server => exact h.server.accept hfree
  case known => exact fun hp hold' => h.known (hold hp hold') hold'
  case owner =>
    intro conn p id c hp hold' hc
    obtain ⟨x, hx, hconn⟩ := h.owner (hold hp hold') hold' hc
    exact ⟨x, hx, hkept.conns hconn⟩
  case unique => exact fun hp hp' h₁ h₂ => h.unique (hold hp h₁) (hold hp' h₂) h₁ h₂

private theorem HolderInv.step (h : HolderInv w) {l : Label} (hlet : LetGo w l)
    (hstep : World.step J w l = some w') : HolderInv w' := by
  cases l with
  | connect fd command =>
    simp only [World.step] at hstep
    split at hstep
    · rename_i hfree
      cases hstep
      exact h.connect hfree command
    · cases hstep
  | client conn s =>
    obtain ⟨p, hp, hstep⟩ := Option.bind_eq_some_iff.mp hstep
    obtain ⟨p', hp', rfl⟩ := Option.map_eq_some_iff.mp hstep
    refine h.ofFewer rfl ?_
    intro conn' q id hq hold
    rw [Table.lookup_insert] at hq
    by_cases hc : conn' = conn
    · rw [if_pos hc] at hq
      cases hq
      exact ⟨p, hc ▸ hp, Process.holds_of_step hp' hold⟩
    · rw [if_neg hc] at hq
      exact ⟨q, hq, hold⟩
  | daemon e =>
    obtain ⟨w₁, hprepare, hstep⟩ := Option.bind_eq_some_iff.mp hstep
    obtain ⟨σ', hevent, rfl⟩ := Option.map_eq_some_iff.mp hstep
    obtain ⟨hserver, hfewer, hexited⟩ := prepare_spec hprepare
    have hevent := ok_of_toOption hevent
    refine (h.ofFewer hserver hfewer).event hevent ?_ ?_
    · intro fd conn p he hconn hp
      exact hexited he (hserver ▸ hconn) hp
    · intro id hatt hmoves conn p hp hold
      rw [hserver] at hatt hmoves
      obtain ⟨q, hq, hold⟩ := hfewer hp hold
      exact hlet id hatt hmoves conn q hq hold

/-- As long as the daemon moves an attached session only when its client has let go of the
descriptor, no PTY ever has two readers. -/
theorem single_reader (h : (system J).Reach LetGo w) : SingleReader w := by
  have hinv : HolderInv w := by
    apply h.invariant
    · rintro _ ⟨listener, wakeup, now, rfl⟩
      exact ⟨new_inv listener wakeup now, fun h => (nomatch h), fun h => (nomatch h),
        fun h => (nomatch h)⟩
    · intro w l w' hinv hlet hstep
      exact hinv.step hlet hstep
  exact hinv.singleReader

private def create : Request := .create none 80 24 none none none

/-- Session 7 is created, and connection 1 attaches it and enters the loop. -/
private def attachRun : List Label :=
  [.connect 5 (.send create),
    .daemon (.request 5 (.ok create) 0 calm),
    .connect 6 (.attach 7),
    .daemon (.request 6 (.ok (.attach 7)) 0 calmLater),
    .client 1 .readReply,
    .client 1 .receiveFd,
    .client 1 .enterLoop]

theorem single_reader_looping :
    ∃ w, (system silent).Reach LetGo w ∧
      (w.processes.lookup 1).map Process.stage = some (.looping 7) ∧ SingleReader w := by
  have hrun : ((system silent).exec (new 3 none 0) attachRun).map
      (fun w => (w.processes.lookup 1).map Process.stage) = some (some (.looping 7)) := by
    decide +kernel
  obtain ⟨w, hexec, hstage⟩ := Option.map_eq_some_iff.mp hrun
  have hlet : ∀ l ∈ attachRun, ∀ w, LetGo w l := by
    intro l hl w
    simp only [attachRun, List.mem_cons, List.not_mem_nil, or_false] at hl
    rcases hl with rfl | rfl | rfl | rfl | rfl | rfl | rfl
    · trivial
    · exact fun _ _ hmoves => hmoves.elim
    · trivial
    · exact fun _ hatt hmoves => absurd hatt hmoves.2
    · trivial
    · trivial
    · trivial
  have hreach : (system silent).Reach LetGo w :=
    Transition.System.Reach.exec (.start ⟨3, none, 0, rfl⟩) hlet hexec
  exact ⟨w, hreach, hstage, single_reader hreach⟩

/-- Another connection detaches the session: the daemon listens to the master again while the
client is in its loop. -/
theorem two_readers :
    ¬ ∀ (J : Codec) (w : World), (system J).Reachable w → SingleReader w := by
  intro h
  let detach : Request := .detach 7 80 24 none
  have hrun : ((system silent).exec (new 3 none 0)
      (attachRun ++ [.connect 8 (.send detach), .daemon (.request 8 (.ok detach) 0 calmLater)])).map
      (fun w => ((w.server.sessions.lookup 7).map fun s => decide (s.masterFd ∈ w.server.kq),
        (w.processes.lookup 1).map Process.stage)) =
      some (some true, some (.looping 7)) := by
    decide +kernel
  obtain ⟨w, hexec, hpair⟩ := Option.map_eq_some_iff.mp hrun
  obtain ⟨hkq, hstage⟩ := Prod.mk.inj hpair
  obtain ⟨s, hs, hkq⟩ := Option.map_eq_some_iff.mp hkq
  obtain ⟨p, hp, hstage⟩ := Option.map_eq_some_iff.mp hstage
  have hstart : (system silent).Reachable (new 3 none 0) := .start ⟨3, none, 0, rfl⟩
  have hone := h silent w (hstart.exec hexec)
  exact hone.1 7 s hs (of_decide_eq_true hkq) 1 p hp (.inl hstage)

end World

end PtyDaemon
