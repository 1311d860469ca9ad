import PtyDaemon.Create.Runs

/-!
# What a shell inherits

A shell is started with the descriptors of the daemon. Its pre-exec hook closes the two ends of its
own pair, and `exec` what is marked for it; the masters of the other sessions are not.
-/

namespace PtyDaemon

namespace Host

variable {J : Codec} {a : CreateAnswers} {h h' : Host} {fd : RawFd} {handle : Handle}

/-- No master of a session is among the descriptors, and neither is that of the pair `pty`. -/
def HoldsNoMaster (pty : Nat) (fds : RawFd → Option Handle) : Prop :=
  ∀ fd, (∀ id, fds fd ≠ some (.daemon (.master id)) ∧ fds fd ≠ some (.daemon (.dup id))) ∧
    fds fd ≠ some (.loose (.master pty))

/-- The three numbers that `dup2` gives to the other end of the pair. -/
def Stdio (fd : RawFd) : Prop := fd = 0 ∨ fd = 1 ∨ fd = 2

instance (fd : RawFd) : Decidable (Stdio fd) := inferInstanceAs (Decidable (_ ∨ _))

private theorem stdio_iff (hpos : 0 ≤ fd) : Stdio fd ↔ fd ≤ 2 := by
  have hint : ∀ n : Int, 0 ≤ n → ((n = 0 ∨ n = 1 ∨ n = 2) ↔ n ≤ 2) := by
    intro n hn
    omega
  exact hint fd hpos

private theorem stdio_apply (t : Descriptors RawFd Handle) (handle : Handle) (fd : RawFd) :
    ((t.dup2 0 handle).dup2 1 handle).dup2 2 handle fd =
      if Stdio fd then some ⟨handle, false⟩ else t fd := by
  simp only [Descriptors.dup2_apply, Stdio]
  by_cases h2 : fd = 2
  · simp [h2]
  · by_cases h1 : fd = 1
    · simp [h1]
    · simp [h1, h2]

private theorem shellFds_eq_some {pty : Nat} {master child : RawFd} :
    h.shellFds pty master child fd = some handle ↔ fd ≠ master ∧ fd ≠ child ∧
      if Stdio fd then handle = .loose (.child pty)
      else h.descriptors fd = some ⟨handle, false⟩ := by
  rw [shellFds, Descriptors.exec_eq_some]
  simp only [Descriptors.close_apply, stdio_apply]
  by_cases hmaster : fd = master
  · simp [hmaster]
  · by_cases hchild : fd = child
    · simp [hchild]
    · simp only [hmaster, hchild, if_false, ne_eq, not_false_eq_true, true_and]
      split
      · simp [eq_comm]
      · rfl

private theorem descriptors_server {object : FdObject}
    (hfd : h.server.fds.lookup fd = some object) :
    h.descriptors fd = some ⟨.daemon object, object.cloexec⟩ := by
  simp [descriptors, hfd]

/-- A descriptor of the server that the shell has kept stands above the three. -/
theorem shellFds_server {pty : Nat} {master child : RawFd} {object : FdObject}
    (hfd : h.shellFds pty master child fd = some (.daemon object)) :
    ¬ Stdio fd ∧ h.server.fds.lookup fd = some object := by
  obtain ⟨_, _, hkind⟩ := shellFds_eq_some.mp hfd
  split at hkind
  · cases hkind
  · rename_i hstdio
    refine ⟨hstdio, ?_⟩
    simp only [descriptors] at hkind
    split at hkind
    · rename_i o ho
      simp only [Option.some.injEq, Slot.mk.injEq, Handle.daemon.injEq] at hkind
      rw [← hkind.1]
      exact ho
    · obtain ⟨t, _, ht⟩ := Option.map_eq_some_iff.mp hkind
      cases ht

/-- The master of a pair is under its own number. -/
theorem paired_master {master child stdin stderr : RawFd} (hnumbered : Numbered h)
    {cloexec : Bool} (hfd : (h.paired master child stdin stderr).descriptors fd =
      some ⟨.loose (.master h.ptys), cloexec⟩) : fd = master := by
  simp only [descriptors] at hfd
  split at hfd
  · cases hfd
  · obtain ⟨s, hs, hslot⟩ := Option.map_eq_some_iff.mp hfd
    have hobject : s.object = .master h.ptys := by
      simp only [Slot.mk.injEq, Handle.loose.injEq] at hslot
      exact hslot.1
    simp only [paired, Descriptors.put_apply] at hs
    split at hs
    · cases hs
      cases hobject
    · split at hs
      · cases hs
        cases hobject
      · split at hs
        · cases hs
          cases hobject
        · split at hs
          · assumption
          · exact absurd (hnumbered fd s h.ptys hs hobject) (Nat.lt_irrefl _)

/-- Whatever sessions there have been: a new shell holds the master of no session exactly if every
live session has its master among the three numbers that are given to the shell's own terminal. -/
theorem shell_holds_no_master_iff (hreach : (hosts J).Reachable h) {masterFd : RawFd} {pid : Pid}
    {ptsname : String} (hpty : h.createPty a = .ok (h', .ok (masterFd, pid, ptsname))) :
    ∃ shell, h'.children.lookup pid = some shell ∧
      (HoldsNoMaster h.ptys shell ↔
        ∀ id s, h.server.sessions.lookup id = some s → s.masterFd ≤ 2) := by
  have hrest := Server.occurrences_atRest (hosts_server hreach)
  have hnumbered := hosts_numbered hreach
  cases createPty_ends hpty with
  | @spawned master child stdin stderr pid ha hstdin hstderr hspawn hmaster hchild hpid =>
    refine ⟨_, AList.lookup_insert _, ?_⟩
    constructor
    · intro hnone id s hs
      have hok := hrest.settled.inv.session (Server.coreOf_eq_some hs)
      have hfd : h.server.fds.lookup s.masterFd = some (.master id) := hok.master
      have hpos : 0 ≤ s.masterFd := hok.nonneg
      by_contra hhigh
      have hopen : (h.paired masterFd child stdin stderr).shellFds h.ptys masterFd child
          s.masterFd = some (.daemon (.master id)) := by
        apply shellFds_eq_some.mpr
        rw [if_neg (fun hstdio => hhigh ((stdio_iff hpos).mp hstdio))]
        refine ⟨?_, ?_, descriptors_server hfd⟩
        · intro heq
          rw [heq, (freeFd_server hmaster).2] at hfd
          cases hfd
        · intro heq
          rw [heq, (freeFd_server hchild).2] at hfd
          cases hfd
      exact ((hnone s.masterFd).1 id).1 hopen
    · intro hlow fd
      refine ⟨fun id => ⟨?_, ?_⟩, ?_⟩
      · intro hobject
        obtain ⟨hstdio, hfd⟩ := shellFds_server hobject
        obtain ⟨c, hc, hsame⟩ := hrest.settled.accounted.master hfd
        obtain ⟨s, hs, rfl⟩ := Option.map_eq_some_iff.mp hc
        have hpos := (hrest.settled.inv.session (Server.coreOf_eq_some hs)).nonneg
        have hle := hlow id s hs
        apply hstdio
        rw [← hsame]
        exact (stdio_iff hpos).mpr hle
      · intro hobject
        exact hrest.dups fd id (shellFds_server hobject).2
      · intro hobject
        obtain ⟨hne, _, hkind⟩ := shellFds_eq_some.mp hobject
        split at hkind
        · cases hkind
        · exact hne (paired_master hnumbered hkind)

/-- Session 7 has been created and killed; then comes the next shell. -/
theorem shell_holds_no_master_first :
    ∃ h h' shell, (hosts Server.silent).Reachable h ∧ h.ptys = 1 ∧
      h.createPty (smooth 14 101 8) = .ok (h', .ok (14, 101, "pts")) ∧
      h'.children.lookup 101 = some shell ∧ HoldsNoMaster 1 shell := by
  have hrun : ((hosts Server.silent).exec fresh (oneSession ++
      [.event (.request 5 (.ok (.kill 7)) 0 Server.calmLater) (smooth 14 101 8)])).bind (fun h =>
        (h.createPty (smooth 14 101 8)).toOption.map fun p =>
          (p.2.toOption, h.ptys, h.server.sessions.keys)) =
      some (some (14, 101, "pts"), 1, []) := by decide +kernel
  obtain ⟨h, hexec, hfacts⟩ := Option.bind_eq_some_iff.mp hrun
  obtain ⟨p, hp, hfacts⟩ := Option.map_eq_some_iff.mp hfacts
  obtain ⟨hmade, hfacts⟩ := Prod.mk.inj hfacts
  obtain ⟨hptys, hkeys⟩ := Prod.mk.inj hfacts
  have hreach := (fresh_reachable Server.silent).exec hexec
  obtain ⟨h', made⟩ := p
  cases made with
  | error e => cases hmade
  | ok q =>
    cases hmade
    have hpty := ok_of_toOption hp
    obtain ⟨shell, hshell, hiff⟩ := shell_holds_no_master_iff hreach hpty
    have hnone : HoldsNoMaster h.ptys shell := by
      apply hiff.mpr
      intro id s hs
      have hkey : id ∈ h.server.sessions.keys := AList.lookup_isSome.mp (by rw [hs]; rfl)
      rw [hkeys] at hkey
      cases hkey
    exact ⟨h, h', shell, hreach, hptys, hpty, hshell, hptys ▸ hnone⟩

/-- The second shell holds the master of session 7. -/
theorem second_shell_holds_master :
    ∃ h h' s shell, (hosts Server.silent).Reachable h ∧ h.server.sessions.lookup 7 = some s ∧
      h.createPty (smooth 14 101 8) = .ok (h', .ok (14, 101, "pts")) ∧
      h'.children.lookup 101 = some shell ∧ shell s.masterFd = some (.daemon (.master 7)) ∧
      ¬ HoldsNoMaster h.ptys shell := by
  have hrun : ((hosts Server.silent).exec fresh oneSession).bind (fun h =>
      (h.server.sessions.lookup 7).bind fun s =>
        (h.createPty (smooth 14 101 8)).toOption.bind fun p =>
          (p.1.children.lookup 101).map fun shell => (p.2.toOption, shell s.masterFd)) =
      some (some (14, 101, "pts"), some (.daemon (.master 7))) := by decide +kernel
  obtain ⟨h, hexec, hfacts⟩ := Option.bind_eq_some_iff.mp hrun
  obtain ⟨s, hs, hfacts⟩ := Option.bind_eq_some_iff.mp hfacts
  obtain ⟨p, hp, hfacts⟩ := Option.bind_eq_some_iff.mp hfacts
  obtain ⟨shell, hshell, hfacts⟩ := Option.map_eq_some_iff.mp hfacts
  obtain ⟨hmade, hmaster⟩ := Prod.mk.inj hfacts
  obtain ⟨h', made⟩ := p
  cases made with
  | error e => cases hmade
  | ok q =>
    cases hmade
    exact ⟨h, h', s, shell, (fresh_reachable Server.silent).exec hexec, hs, ok_of_toOption hp,
      hshell, hmaster, fun hnone => ((hnone s.masterFd).1 7).1 hmaster⟩

end Host

end PtyDaemon
