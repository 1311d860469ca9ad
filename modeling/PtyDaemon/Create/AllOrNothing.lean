import PtyDaemon.Create.Runs

/-!
# All of a Create, or nothing

Which failures of `handle_create` leave everything as it was: those of `openpty`, with which nothing
has been acquired, and of `spawn`, which closes the master. A clone that fails leaves the master
open, and a ring that cannot be made takes the daemon down.
-/

namespace PtyDaemon

namespace CreateAnswers

/-- Some call fails. -/
def fails (a : CreateAnswers) : Bool := a.pty.toOption.isNone || a.shmError.isSome

/-- No call fails, or the first that does is `openpty` or `spawn`. -/
def undone (a : CreateAnswers) : Bool :=
  match a.openpty, a.stdin, a.stderr, a.spawn with
  | .error _, _, _, _ => true
  | .ok _, .ok _, .ok _, .error _ => true
  | .ok _, .ok _, .ok _, .ok _ => a.shmError.isNone
  | _, _, _, _ => false

end CreateAnswers

namespace Host

variable {J : Codec} {a : CreateAnswers} {env : Env} {h h' : Host}

/-- The sessions, the open descriptors, the children and the names are the same. -/
structure Unchanged (h h' : Host) : Prop where
  sessions : h'.server.sessions = h.server.sessions
  descriptors : h'.descriptors = h.descriptors
  children : h'.children = h.children
  names : h'.shm.names = h.shm.names

/-- One session has come, with a master and a ring that are no other session's. -/
structure Added (id : Uuid) (h h' : Host) : Prop where
  absent : h.server.sessions.lookup id = none
  added : ∃ s shmFd,
    (∀ i, h'.server.sessions.lookup i = if i = id then some s else h.server.sessions.lookup i) ∧
    h.descriptors s.masterFd = none ∧ h.descriptors shmFd = none ∧
    h'.descriptors = (h.descriptors.put s.masterFd ⟨.daemon (.master id), false⟩).put shmFd
      ⟨.loose (.ring id), true⟩ ∧
    ∀ i t, h'.server.sessions.lookup i = some t → t.masterFd = s.masterFd → i = id

/-- A Create in which something fails is answered with an error and changes nothing; any other adds
its session. -/
def AllOrNothing (a : CreateAnswers) (h : Host) (result : Except Stop (Host × Response)) : Prop :=
  if a.fails then ∃ h' message, result = .ok (h', .error message) ∧ Unchanged h h'
  else ∃ h', result = .ok (h', .created a.uuid) ∧ Added a.uuid h h'

section

variable {shell : Option String} {cols rows : UInt16} {workingDir : Option String}
  {terminalId : Option UInt32} {envs : Option (List (String × String))} {master shmFd : RawFd}
  {pid : Pid} {ring : SharedRingBuffer}

/-- The descriptors after a Create: the master is the session's, and beside it there is the ring. -/
theorem withSession_descriptors (hfree : h.freeFd shmFd = true) (hne : shmFd ≠ master)
    (hserver : h'.server = h.withSession a env shell cols rows workingDir terminalId envs master
      pid ring) (hextra : h'.extra = h.extra.put shmFd ⟨.ring a.uuid, true⟩) :
    h'.descriptors = (h.descriptors.put master ⟨.daemon (.master a.uuid), false⟩).put shmFd
      ⟨.loose (.ring a.uuid), true⟩ := by
  have hfds : ∀ i, h'.server.fds.lookup i =
      if i = master then some (.master a.uuid) else h.server.fds.lookup i := by
    intro i
    rw [hserver]
    exact Table.lookup_insert h.server.fds master i (.master a.uuid)
  funext i
  simp only [descriptors, hfds, hextra, Descriptors.put_apply]
  by_cases hi : i = shmFd
  · subst hi
    simp [hne, (freeFd_server hfree).2]
  · by_cases hm : i = master
    · simp [hm, hne.symm, FdObject.cloexec]
    · simp [hi, hm]

private theorem created_added (hinv : Server.Inv h.server) (hmaster : h.freeFd master = true)
    (hfree : h.freeFd shmFd = true) (hne : shmFd ≠ master) (hid : a.uuid ∉ h.server.ids)
    (hserver : h'.server = h.withSession a env shell cols rows workingDir terminalId envs master
      pid ring) (hextra : h'.extra = h.extra.put shmFd ⟨.ring a.uuid, true⟩) :
    Added a.uuid h h' := by
  have hnone : ∀ {fd : RawFd}, h.freeFd fd = true → h.descriptors fd = none := by
    intro fd hfd
    rw [freeFd, Bool.and_eq_true] at hfd
    exact Option.isNone_iff_eq_none.mp hfd.2
  have hsessions : ∀ i, h'.server.sessions.lookup i = if i = a.uuid then
      some (Session.new env.now a.uuid ring master pid a.ptsname ⟨cols, rows⟩ terminalId)
      else h.server.sessions.lookup i := by
    intro i
    rw [hserver]
    exact Table.lookup_insert h.server.sessions a.uuid i _
  constructor
  · cases hs : h.server.sessions.lookup a.uuid with
    | none => rfl
    | some s => exact absurd (hinv.session (Server.coreOf_eq_some hs)).known hid
  · refine ⟨_, shmFd, hsessions, hnone hmaster, hnone hfree,
      withSession_descriptors hfree hne hserver hextra, ?_⟩
    -- the masters of the other sessions were open before
    intro i t ht hsame
    rw [hsessions] at ht
    split at ht
    · assumption
    · have hopen : h.server.fds.lookup t.masterFd = some (.master i) :=
        (hinv.session (Server.coreOf_eq_some ht)).master
      rw [show t.masterFd = master from hsame, (freeFd_server hmaster).2] at hopen
      cases hopen

/-- Whatever fails and wherever: a Create is all or nothing exactly if no call fails or the first
that does is `openpty` or `spawn`; and the server handles it as `handle_create` does, given what
the calls return. -/
theorem create_all_or_nothing_iff {result : Except Stop (Host × Response)}
    (hreach : (hosts J).Reachable h)
    (hresult : h.handleCreate a env shell cols rows workingDir terminalId envs = result)
    (hpossible : result ≠ .error .excluded) :
    (AllOrNothing a h result ↔ a.undone = true) ∧
    h.server.handleCreate (a.env env) shell cols rows workingDir terminalId envs =
      result.map fun p => (p.1.server, p.2) := by
  refine ⟨?_, handleCreate_server hresult hpossible⟩
  have hinv := Server.occurrences_inv (hosts_server hreach)
  cases handleCreate_ends hresult hpossible with
  | @refused k e hpty =>
    have hfails : a.fails = true := by
      simp [CreateAnswers.fails, hpty.pty, Except.toOption]
    rw [AllOrNothing, if_pos hfails]
    cases hpty with
    | unopened ha =>
      have hundone : a.undone = true := by simp [CreateAnswers.undone, ha]
      simp only [hundone, iff_true]
      exact ⟨h, _, rfl, rfl, rfl, rfl, rfl⟩
    | @uncloned master child e ha hclone hmaster =>
      have hundone : a.undone = false := by
        rcases hclone with hstdin | ⟨⟨fd, hstdin⟩, hstderr⟩
        · simp [CreateAnswers.undone, ha, hstdin]
        · simp [CreateAnswers.undone, ha, hstdin, hstderr]
      simp only [hundone, Bool.false_eq_true, iff_false]
      -- the master is still open
      rintro ⟨h', message, hresult', hsame⟩
      cases hresult'
      have hmaster' := congrFun hsame.descriptors master
      simp [descriptors, (freeFd_server hmaster).2, freeFd_extra hmaster,
        Descriptors.put_apply] at hmaster'
    | unspawned ha hstdin hstderr hspawn =>
      have hundone : a.undone = true := by
        simp [CreateAnswers.undone, ha, hstdin, hstderr, hspawn]
      simp only [hundone, iff_true]
      exact ⟨_, _, rfl, rfl, rfl, rfl, rfl⟩
  | @panicked k q e hpty he =>
    have hfails : a.fails = true := by simp [CreateAnswers.fails, he]
    have hundone : a.undone = false := by
      cases hpty with
      | spawned ha hstdin hstderr hspawn hmaster hchild hpid =>
        simp [CreateAnswers.undone, ha, hstdin, hstderr, hspawn, he]
    rw [AllOrNothing, if_pos hfails, hundone]
    simp
  | @created master child stdin stderr shmFd pid ring ha hstdin hstderr hspawn hshm hmaster hfree
      hne hid hring =>
    have hpty : a.pty = .ok (master, pid, a.ptsname) := by
      simp [CreateAnswers.pty, ha, hstdin, hstderr, hspawn, bind, Except.bind, pure, Except.pure]
    have hfails : ¬ a.fails = true := by
      simp [CreateAnswers.fails, hpty, hshm, Except.toOption]
    have hundone : a.undone = true := by
      simp [CreateAnswers.undone, ha, hstdin, hstderr, hspawn, hshm]
    rw [AllOrNothing, if_neg hfails]
    simp only [hundone, iff_true]
    exact ⟨_, rfl, created_added hinv hmaster hfree hne hid rfl rfl⟩

end

/-- A Create that finds everything, and one whose shell cannot be started. -/
theorem create_all_or_nothing_iff_both :
    (∃ h', fresh.handleCreate (smooth 10 100 7) Server.calm none 80 24 none none none =
        .ok (h', .created 7) ∧
      AllOrNothing (smooth 10 100 7) fresh (.ok (h', .created 7))) ∧
    ∃ h' message, fresh.handleCreate { smooth 10 100 7 with spawn := .error "no such file" }
        Server.calm none 80 24 none none none = .ok (h', .error message) ∧
      AllOrNothing { smooth 10 100 7 with spawn := .error "no such file" } fresh
        (.ok (h', .error message)) := by
  constructor
  · have hrun : (fresh.handleCreate (smooth 10 100 7) Server.calm none 80 24 none none
        none).toOption.map Prod.snd = some (.created 7) := by decide +kernel
    obtain ⟨⟨h', response⟩, hp, rfl⟩ := Option.map_eq_some_iff.mp hrun
    have hresult := ok_of_toOption hp
    exact ⟨h', hresult, (create_all_or_nothing_iff (fresh_reachable Server.silent) hresult
      (by simp)).1.mpr (by decide)⟩
  · have hrun : (fresh.handleCreate { smooth 10 100 7 with spawn := .error "no such file" }
        Server.calm none 80 24 none none none).toOption.map Prod.snd =
        some (.error "create pty failed: no such file") := by decide +kernel
    obtain ⟨⟨h', response⟩, hp, rfl⟩ := Option.map_eq_some_iff.mp hrun
    have hresult := ok_of_toOption hp
    exact ⟨h', _, hresult, (create_all_or_nothing_iff (fresh_reachable Server.silent) hresult
      (by simp)).1.mpr (by decide)⟩

/-- The second clone fails, and the master of the pair stays open; or the ring cannot be made, and
the daemon panics with the shell running. -/
theorem create_leaves_master :
    (∃ h' message, fresh.handleCreate { smooth 10 100 7 with stderr := .error "too many files" }
        Server.calm none 80 24 none none none = .ok (h', .error message) ∧
      fresh.descriptors 10 = none ∧
      h'.descriptors 10 = some ⟨.loose (.master 0), false⟩ ∧
      ¬ AllOrNothing { smooth 10 100 7 with stderr := .error "too many files" } fresh
        (.ok (h', .error message))) ∧
    ∃ message, fresh.handleCreate { smooth 10 100 7 with shmOpen := .error "too many files" }
        Server.calm none 80 24 none none none = .error (.panics message) ∧
      ¬ AllOrNothing { smooth 10 100 7 with shmOpen := .error "too many files" } fresh
        (.error (.panics message)) := by
  constructor
  · have hrun : (fresh.handleCreate { smooth 10 100 7 with stderr := .error "too many files" }
        Server.calm none 80 24 none none none).toOption.map
        (fun p => (p.2, p.1.descriptors 10)) =
        some (.error "create pty failed: too many files",
          some ⟨.loose (.master 0), false⟩) := by decide +kernel
    obtain ⟨⟨h', response⟩, hp, hfacts⟩ := Option.map_eq_some_iff.mp hrun
    obtain ⟨rfl, hopen⟩ := Prod.mk.inj hfacts
    refine ⟨h', _, ok_of_toOption hp, by decide, hopen, ?_⟩
    intro hall
    obtain ⟨k, message, hk, hsame⟩ := hall
    cases hk
    have hmaster := congrFun hsame.descriptors 10
    rw [hopen] at hmaster
    exact absurd hmaster (by decide)
  · refine ⟨_, rfl, ?_⟩
    intro hall
    obtain ⟨k, message, hk, _⟩ := hall
    cases hk

end Host

end PtyDaemon
