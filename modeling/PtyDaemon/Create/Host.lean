import PtyDaemon.Framework.Ledger
import PtyDaemon.Server.Names
import PtyDaemon.SharedRing.Contents

/-!
# The calls behind a Create

For one Create the daemon opens a PTY pair, clones one end, starts the shell and makes a
shared-memory object. This is `handle_create` call by call, on the daemon as the kernel sees it: all
its descriptors, its children with theirs, and the names of shared-memory objects.
-/

namespace PtyDaemon

/-- What the daemon has open beside what `Server` lists. -/
inductive Loose
  | master (pty : Nat)
  | child (pty : Nat)
  | ring (id : Uuid)
  deriving DecidableEq

inductive Handle
  | daemon (object : FdObject)
  | loose (object : Loose)
  deriving DecidableEq

/-- Rust's sockets are closed on `exec`; what `openpty`, `dup` and `pipe` return is not. -/
def FdObject.cloexec : FdObject → Bool
  | .listener => true
  | .client _ => true
  | _ => false

/-- The answers to the calls of one Create, in the order of the calls. -/
structure CreateAnswers where
  openpty : Except String (RawFd × RawFd)
  /-- the first `try_clone` -/
  stdin : Except String RawFd
  /-- the second `try_clone` -/
  stderr : Except String RawFd
  spawn : Except String Pid
  ptsname : String
  uuid : Uuid
  shmOpen : Except String RawFd
  ftruncate : Option String
  mmap : Option String

/-- The daemon and what the kernel holds for it. PTY pairs are numbered as they are opened. -/
structure Host where
  server : Server
  extra : Descriptors RawFd Loose
  ptys : Nat
  /-- the running children, each with its descriptors after `exec` -/
  children : Table Pid (RawFd → Option Handle)
  shm : ShmSpace

namespace Host

def descriptors (h : Host) : Descriptors RawFd Handle := fun fd =>
  match h.server.fds.lookup fd with
  | some object => some ⟨.daemon object, object.cloexec⟩
  | none => (h.extra fd).map fun s => ⟨.loose s.object, s.cloexec⟩

/-- The number is one the kernel can return. -/
def freeFd (h : Host) (fd : RawFd) : Bool := decide (0 ≤ fd) && (h.descriptors fd).isNone

def openFd (h : Host) (fd : RawFd) (object : Loose) (cloexec : Bool) : Except Stop Host :=
  if h.freeFd fd then .ok { h with extra := h.extra.put fd ⟨object, cloexec⟩ }
  else .error .excluded

def closeFd (h : Host) (fd : RawFd) : Host := { h with extra := h.extra.close fd }

/-- The descriptors of a shell: the daemon's, with the other end of its own pair as stdin, stdout
and stderr; what the pre-exec hook closes is gone, and what `exec` closes. -/
def shellFds (h : Host) (pty : Nat) (master child : RawFd) : RawFd → Option Handle :=
  let stdio := ((h.descriptors.dup2 0 (.loose (.child pty))).dup2 1 (.loose (.child pty))).dup2 2
    (.loose (.child pty))
  ((stdio.close child).close master).exec

/-- `spawn` succeeds. -/
def fork (h : Host) (pid : Pid) (fds : RawFd → Option Handle) : Except Stop Host :=
  if (h.children.lookup pid).isNone then .ok { h with children := h.children.insert pid fds }
  else .error .excluded

/-- `create_pty`. The child's end is closed when its owner is dropped; the master is a number. -/
def createPty (a : CreateAnswers) (h : Host) :
    Except Stop (Host × Except String (RawFd × Pid × String)) :=
  match a.openpty with
  | .error e => .ok (h, .error e)
  | .ok (master, child) =>
    let pty := h.ptys
    ({ h with ptys := pty + 1 }.openFd master (.master pty) false).bind fun h =>
    (h.openFd child (.child pty) false).bind fun h =>
    match a.stdin with
    | .error e => .ok (h.closeFd child, .error e)
    | .ok stdin =>
      (h.openFd stdin (.child pty) true).bind fun h =>
      match a.stderr with
      | .error e => .ok ((h.closeFd child).closeFd stdin, .error e)
      | .ok stderr =>
        (h.openFd stderr (.child pty) true).bind fun h =>
        match a.spawn with
        | .error e =>
          let h := h.closeFd master
          .ok (((h.closeFd stdin).closeFd child).closeFd stderr, .error e)
        | .ok pid =>
          (h.fork pid (h.shellFds pty master child)).bind fun h =>
          .ok (((h.closeFd stdin).closeFd child).closeFd stderr, .ok (master, pid, a.ptsname))

/-- `SharedRingBuffer::create`. -/
def createRing (a : CreateAnswers) (env : Env) (h : Host) (id : Uuid) :
    Except Stop (Host × Except String SharedRingBuffer) :=
  let h := { h with shm := h.shm.unlink (shmNameForSession id) }
  match a.shmOpen with
  | .error e => .ok (h, .error e)
  | .ok shmFd =>
    match h.shm.openNew (shmNameForSession id) id with
    | none => .error .excluded
    | some shm =>
      ({ h with shm := shm }.openFd shmFd (.ring id) true).bind fun h =>
      match a.ftruncate, SharedRingBuffer.create env.page defaultRingSize with
      | some e, _ => .ok (h.closeFd shmFd, .error e)
      | none, none => .ok (h.closeFd shmFd, .error env.osError)
      | none, some ring =>
        match a.mmap with
        | some e => .ok (h.closeFd shmFd, .error e)
        | none => .ok (h, .ok ring)

/-- `handle_create`. A ring that cannot be made is a panic. -/
def handleCreate (a : CreateAnswers) (env : Env) (h : Host) (shell : Option String)
    (cols rows : UInt16) (workingDir : Option String) (terminalId : Option UInt32)
    (envs : Option (List (String × String))) : Except Stop (Host × Response) :=
  (h.createPty a).bind fun p =>
  match p.2 with
  | .error e => .ok (p.1, .error ("create pty failed: " ++ e))
  | .ok (masterFd, childPid, ptsname) =>
    let id := a.uuid
    if h.server.ids.contains id then .error .excluded
    else
      (p.1.createRing a env id).bind fun q =>
      match q.2 with
      | .error e => .error (.panics
          ("failed to create shared ring buffer " ++ shmNameForSession id ++ ": " ++ e))
      | .ok ring =>
        let session := Session.new env.now id ring masterFd childPid ptsname ⟨cols, rows⟩ terminalId
        let σ := { q.1.server with ids := id :: q.1.server.ids }
        let σ := (σ.openFd masterFd (.master id)).emit
          (.spawned id (shell.getD "") workingDir terminalId envs)
        let σ := σ.register masterFd
        -- the master is now the session's
        .ok ({ q.1.closeFd masterFd with server := σ.putSession id session }, .created id)

end Host

namespace CreateAnswers

/-- What `create_pty` returns. -/
def pty (a : CreateAnswers) : Except String (RawFd × Pid × String) := do
  let (master, _) ← a.openpty
  let _ ← a.stdin
  let _ ← a.stderr
  let pid ← a.spawn
  return (master, pid, a.ptsname)

/-- The error of `SharedRingBuffer::create`. -/
def shmError (a : CreateAnswers) : Option String :=
  match a.shmOpen with
  | .error e => some e
  | .ok _ => a.ftruncate.or a.mmap

/-- The answers as `Server` gets them. -/
def env (a : CreateAnswers) (env : Env) : Env :=
  { env with
    createPty := a.pty
    uuid := a.uuid
    shmError := a.shmError }

end CreateAnswers

namespace Host

variable {a : CreateAnswers} {env : Env} {h h' : Host} {fd : RawFd}

theorem freeFd_extra (hfree : h.freeFd fd = true) : h.extra fd = none := by
  simp only [freeFd, descriptors, Bool.and_eq_true, Option.isNone_iff_eq_none] at hfree
  cases hfds : h.server.fds.lookup fd with
  | none => simpa [hfds] using hfree.2
  | some object => simp [hfds] at hfree

theorem freeFd_server (hfree : h.freeFd fd = true) :
    0 ≤ fd ∧ h.server.fds.lookup fd = none := by
  simp only [freeFd, descriptors, Bool.and_eq_true, decide_eq_true_eq,
    Option.isNone_iff_eq_none] at hfree
  cases hfds : h.server.fds.lookup fd with
  | none => exact ⟨hfree.1, rfl⟩
  | some object => simp [hfds] at hfree

private theorem openFd_ok {object : Loose} {cloexec : Bool}
    (hopen : h.openFd fd object cloexec = .ok h') :
    h.freeFd fd = true ∧ h' = { h with extra := h.extra.put fd ⟨object, cloexec⟩ } := by
  unfold openFd at hopen
  split at hopen
  · rename_i hfree
    cases hopen
    exact ⟨hfree, rfl⟩
  · cases hopen

/-- What is free beside a number that has just been opened was free before, and is another. -/
theorem freeFd_of_put {k : RawFd} {s : Slot Loose}
    (hfree : { h with extra := h.extra.put k s }.freeFd fd = true) :
    h.freeFd fd = true ∧ fd ≠ k := by
  have hextra := freeFd_extra hfree
  obtain ⟨hpos, hserver⟩ := freeFd_server hfree
  simp only [Descriptors.put_apply] at hextra
  split at hextra
  · cases hextra
  · rename_i hne
    refine ⟨?_, hne⟩
    have hserver' : h.server.fds.lookup fd = none := hserver
    simp [freeFd, descriptors, hserver', hextra, hpos]

/-- The pair and the clones while the shell is started. -/
def paired (h : Host) (master child stdin stderr : RawFd) : Host :=
  { h with
    ptys := h.ptys + 1
    extra := (((h.extra.put master ⟨.master h.ptys, false⟩).put child ⟨.child h.ptys, false⟩).put
      stdin ⟨.child h.ptys, true⟩).put stderr ⟨.child h.ptys, true⟩ }

/-- How `create_pty` ends: no pair; a master nobody owns; nothing left; or a shell. -/
inductive PtyEnds (a : CreateAnswers) (h : Host) :
    Host × Except String (RawFd × Pid × String) → Prop
  | unopened {e : String} (ha : a.openpty = .error e) : PtyEnds a h (h, .error e)
  | uncloned {master child : RawFd} {e : String} (ha : a.openpty = .ok (master, child))
      (hclone : a.stdin = .error e ∨ (∃ fd, a.stdin = .ok fd) ∧ a.stderr = .error e)
      (hmaster : h.freeFd master = true) :
      PtyEnds a h ({ h with
        ptys := h.ptys + 1
        extra := h.extra.put master ⟨.master h.ptys, false⟩ }, .error e)
  | unspawned {master child stdin stderr : RawFd} {e : String}
      (ha : a.openpty = .ok (master, child)) (hstdin : a.stdin = .ok stdin)
      (hstderr : a.stderr = .ok stderr) (hspawn : a.spawn = .error e) :
      PtyEnds a h ({ h with ptys := h.ptys + 1 }, .error e)
  | spawned {master child stdin stderr : RawFd} {pid : Pid}
      (ha : a.openpty = .ok (master, child)) (hstdin : a.stdin = .ok stdin)
      (hstderr : a.stderr = .ok stderr) (hspawn : a.spawn = .ok pid)
      (hmaster : h.freeFd master = true) (hchild : h.freeFd child = true)
      (hpid : h.children.lookup pid = none) :
      PtyEnds a h ({ h with
        ptys := h.ptys + 1
        extra := h.extra.put master ⟨.master h.ptys, false⟩
        children := h.children.insert pid
          ((h.paired master child stdin stderr).shellFds h.ptys master child) },
        .ok (master, pid, a.ptsname))

private theorem put_free {t : Descriptors RawFd Loose} {k k' : RawFd} (h : t k' = none)
    (hne : k' ≠ k)
    (s : Slot Loose) : t.put k s k' = none := by
  rw [Descriptors.put_apply, if_neg hne, h]

private theorem error_of_bind {α β : Type} {x : Except Stop α} {f : α → Except Stop β} {stop : Stop}
    (hstop : x.bind f = .error stop) : x = .error stop ∨ ∃ b, x = .ok b ∧ f b = .error stop := by
  cases x with
  | error e =>
    cases hstop
    exact .inl rfl
  | ok b => exact .inr ⟨b, rfl, hstop⟩

private theorem openFd_error {object : Loose} {cloexec : Bool} {stop : Stop}
    (hopen : h.openFd fd object cloexec = .error stop) : stop = .excluded := by
  unfold openFd at hopen
  split at hopen
  · cases hopen
  · cases hopen
    rfl

/-- `create_pty` returns, whatever fails. -/
theorem createPty_error {stop : Stop} (hstop : h.createPty a = .error stop) :
    stop = .excluded := by
  unfold createPty at hstop
  split at hstop
  · cases hstop
  · rcases error_of_bind hstop with hopen | ⟨h₁, _, hstop⟩
    · exact openFd_error hopen
    · rcases error_of_bind hstop with hopen | ⟨h₂, _, hstop⟩
      · exact openFd_error hopen
      · split at hstop
        · cases hstop
        · rcases error_of_bind hstop with hopen | ⟨h₃, _, hstop⟩
          · exact openFd_error hopen
          · split at hstop
            · cases hstop
            · rcases error_of_bind hstop with hopen | ⟨h₄, _, hstop⟩
              · exact openFd_error hopen
              · split at hstop
                · cases hstop
                · rcases error_of_bind hstop with hfork | ⟨h₅, _, hstop⟩
                  · unfold fork at hfork
                    split at hfork
                    · cases hfork
                    · cases hfork
                      rfl
                  · cases hstop

private theorem createRing_error {id : Uuid} {stop : Stop}
    (hstop : h.createRing a env id = .error stop) :
    stop = .excluded := by
  simp only [createRing] at hstop
  split at hstop
  · cases hstop
  · split at hstop
    · cases hstop
      rfl
    · rcases error_of_bind hstop with hopen | ⟨k, _, hstop⟩
      · exact openFd_error hopen
      · split at hstop
        · cases hstop
        · cases hstop
        · split at hstop
          · cases hstop
          · cases hstop

theorem createPty_ends {p : Host × Except String (RawFd × Pid × String)}
    (hp : h.createPty a = .ok p) : PtyEnds a h p := by
  unfold createPty at hp
  split at hp
  · rename_i e ha
    cases hp
    exact .unopened ha
  · rename_i master child ha
    obtain ⟨h₁, hopen₁, hp⟩ := ok_of_bind hp
    obtain ⟨hmaster, rfl⟩ := openFd_ok hopen₁
    have hm : h.extra master = none := freeFd_extra hmaster
    obtain ⟨h₂, hopen₂, hp⟩ := ok_of_bind hp
    obtain ⟨hfree₂, rfl⟩ := openFd_ok hopen₂
    obtain ⟨hchild, hcm⟩ := freeFd_of_put hfree₂
    have hc : h.extra child = none := freeFd_extra hchild
    split at hp
    · rename_i e hstdin
      cases hp
      have hleft := Descriptors.close_put (put_free hc hcm ⟨.master h.ptys, false⟩)
        ⟨.child h.ptys, false⟩
      simp only [closeFd, hleft]
      exact .uncloned ha (.inl hstdin) hmaster
    · rename_i stdin hstdin
      obtain ⟨h₃, hopen₃, hp⟩ := ok_of_bind hp
      obtain ⟨hfree₃, rfl⟩ := openFd_ok hopen₃
      obtain ⟨hfree₃, hic⟩ := freeFd_of_put hfree₃
      obtain ⟨hfree₃, him⟩ := freeFd_of_put hfree₃
      have hi : h.extra stdin = none := freeFd_extra hfree₃
      split at hp
      · rename_i e hstderr
        cases hp
        simp only [closeFd, Descriptors.close_put_of_ne hic,
          Descriptors.close_put (put_free hc hcm _), Descriptors.close_put (put_free hi him _)]
        exact .uncloned ha (.inr ⟨⟨stdin, hstdin⟩, hstderr⟩) hmaster
      · rename_i stderr hstderr
        obtain ⟨h₄, hopen₄, hp⟩ := ok_of_bind hp
        obtain ⟨hfree₄, rfl⟩ := openFd_ok hopen₄
        obtain ⟨hfree₄, hri⟩ := freeFd_of_put hfree₄
        obtain ⟨hfree₄, hrc⟩ := freeFd_of_put hfree₄
        obtain ⟨hfree₄, hrm⟩ := freeFd_of_put hfree₄
        have hr : h.extra stderr = none := freeFd_extra hfree₄
        split at hp
        · rename_i e hspawn
          cases hp
          simp only [closeFd, Descriptors.close_put_of_ne hrm, Descriptors.close_put_of_ne him,
            Descriptors.close_put_of_ne hcm, Descriptors.close_put hm,
            Descriptors.close_put_of_ne hri, Descriptors.close_put (put_free hi hic _),
            Descriptors.close_put_of_ne hrc, Descriptors.close_put hc, Descriptors.close_put hr]
          exact .unspawned ha hstdin hstderr hspawn
        · rename_i pid hspawn
          obtain ⟨h₅, hfork, hp⟩ := ok_of_bind hp
          unfold fork at hfork
          split at hfork
          · rename_i hpid
            cases hfork
            cases hp
            simp only [closeFd, Descriptors.close_put_of_ne hri,
              Descriptors.close_put (put_free (put_free hi him _) hic _),
              Descriptors.close_put_of_ne hrc, Descriptors.close_put (put_free hc hcm _),
              Descriptors.close_put (put_free hr hrm _)]
            exact .spawned ha hstdin hstderr hspawn hmaster hchild
              (Option.isNone_iff_eq_none.mp hpid)
          · cases hfork

/-- How `SharedRingBuffer::create` ends. -/
inductive RingEnds (a : CreateAnswers) (env : Env) (h : Host) (id : Uuid) :
    Host × Except String SharedRingBuffer → Prop
  | failed {k : Host} {e : String} (he : a.shmError = some e) : RingEnds a env h id (k, .error e)
  | made {shmFd : RawFd} {ring : SharedRingBuffer} (hshm : a.shmError = none)
      (hfree : h.freeFd shmFd = true)
      (hring : SharedRingBuffer.create env.page defaultRingSize = some ring) :
      RingEnds a env h id ({ h with
        shm := h.shm.create id
        extra := h.extra.put shmFd ⟨.ring id, true⟩ }, .ok ring)

private theorem createRing_ends {id : Uuid} {q : Host × Except String SharedRingBuffer}
    (hq : h.createRing a env id = .ok q) : RingEnds a env h id q := by
  obtain ⟨ring, hring⟩ := SharedRingBuffer.create_default env.page
  simp only [createRing, hring] at hq
  cases hopen : a.shmOpen with
  | error e =>
    simp only [hopen] at hq
    cases hq
    exact .failed (by simp [CreateAnswers.shmError, hopen])
  | ok shmFd =>
    simp only [hopen] at hq
    cases hnew : (h.shm.unlink (shmNameForSession id)).openNew (shmNameForSession id) id with
    | none =>
      simp only [hnew] at hq
      cases hq
    | some shm =>
      simp only [hnew] at hq
      obtain ⟨k, hk, hq⟩ := ok_of_bind hq
      obtain ⟨hfree, rfl⟩ := openFd_ok hk
      have hcreate : h.shm.create id = shm := by
        simp [ShmSpace.create, hnew]
      cases hftruncate : a.ftruncate with
      | some e =>
        simp only [hftruncate] at hq
        cases hq
        exact .failed (by simp [CreateAnswers.shmError, hopen, hftruncate])
      | none =>
        simp only [hftruncate] at hq
        cases hmmap : a.mmap with
        | some e =>
          simp only [hmmap] at hq
          cases hq
          exact .failed (by simp [CreateAnswers.shmError, hopen, hftruncate, hmmap])
        | none =>
          simp only [hmmap] at hq
          cases hq
          rw [← hcreate]
          exact .made (by simp [CreateAnswers.shmError, hopen, hftruncate, hmmap]) hfree hring

section

variable {shell : Option String} {cols rows : UInt16} {workingDir : Option String}
  {terminalId : Option UInt32} {envs : Option (List (String × String))}

/-- The daemon after a Create. -/
def withSession (h : Host) (a : CreateAnswers) (env : Env) (shell : Option String)
    (cols rows : UInt16) (workingDir : Option String) (terminalId : Option UInt32)
    (envs : Option (List (String × String))) (masterFd : RawFd) (pid : Pid)
    (ring : SharedRingBuffer) : Server :=
  let σ := { h.server with ids := a.uuid :: h.server.ids }
  let σ := (σ.openFd masterFd (.master a.uuid)).emit
    (.spawned a.uuid (shell.getD "") workingDir terminalId envs)
  (σ.register masterFd).putSession a.uuid
    (Session.new env.now a.uuid ring masterFd pid a.ptsname ⟨cols, rows⟩ terminalId)

/-- How `handle_create` ends. -/
inductive CreateEnds (a : CreateAnswers) (env : Env) (h : Host) (shell : Option String)
    (cols rows : UInt16) (workingDir : Option String) (terminalId : Option UInt32)
    (envs : Option (List (String × String))) : Except Stop (Host × Response) → Prop
  | refused {k : Host} {e : String} (hpty : PtyEnds a h (k, .error e)) :
      CreateEnds a env h shell cols rows workingDir terminalId envs
        (.ok (k, .error ("create pty failed: " ++ e)))
  | panicked {k : Host} {q : RawFd × Pid × String} {e : String} (hpty : PtyEnds a h (k, .ok q))
      (he : a.shmError = some e) :
      CreateEnds a env h shell cols rows workingDir terminalId envs
        (.error (.panics
          ("failed to create shared ring buffer " ++ shmNameForSession a.uuid ++ ": " ++ e)))
  | created {master child stdin stderr shmFd : RawFd} {pid : Pid} {ring : SharedRingBuffer}
      (ha : a.openpty = .ok (master, child)) (hstdin : a.stdin = .ok stdin)
      (hstderr : a.stderr = .ok stderr) (hspawn : a.spawn = .ok pid) (hshm : a.shmError = none)
      (hmaster : h.freeFd master = true) (hfree : h.freeFd shmFd = true) (hne : shmFd ≠ master)
      (hid : a.uuid ∉ h.server.ids)
      (hring : SharedRingBuffer.create env.page defaultRingSize = some ring) :
      CreateEnds a env h shell cols rows workingDir terminalId envs
        (.ok ({ h with
          ptys := h.ptys + 1
          extra := h.extra.put shmFd ⟨.ring a.uuid, true⟩
          children := h.children.insert pid
            ((h.paired master child stdin stderr).shellFds h.ptys master child)
          shm := h.shm.create a.uuid
          server := h.withSession a env shell cols rows workingDir terminalId envs master pid
            ring }, .created a.uuid))

theorem handleCreate_ends {result : Except Stop (Host × Response)}
    (hresult : h.handleCreate a env shell cols rows workingDir terminalId envs = result)
    (hpossible : result ≠ .error .excluded) :
    CreateEnds a env h shell cols rows workingDir terminalId envs result := by
  subst hresult
  unfold handleCreate at hpossible ⊢
  cases hpty : h.createPty a with
  | error stop =>
    rw [hpty] at hpossible
    exact absurd (congrArg Except.error (createPty_error hpty)) hpossible
  | ok p =>
    have hends := createPty_ends hpty
    obtain ⟨k, made⟩ := p
    rw [hpty] at hpossible
    simp only [Except.bind] at hpossible ⊢
    cases made with
    | error e => exact .refused hends
    | ok q =>
      simp only at hpossible ⊢
      split
      · rename_i hids
        simp only [hids, if_true] at hpossible
        exact absurd rfl hpossible
      · rename_i hids
        have hid : a.uuid ∉ h.server.ids := by simpa using hids
        simp only [hids, Bool.false_eq_true, if_false] at hpossible
        cases hmake : k.createRing a env a.uuid with
        | error stop =>
          rw [hmake] at hpossible
          exact absurd (congrArg Except.error (createRing_error hmake)) hpossible
        | ok r =>
          have hrends := createRing_ends hmake
          cases hrends with
          | failed he => exact .panicked hends he
          | made hshm hfree hring =>
            cases hends with
            | @spawned master child stdin stderr pid ha hstdin hstderr hspawn hmaster hchild hpid =>
              have hfree' : { h with extra := h.extra.put master ⟨.master h.ptys, false⟩ }.freeFd
                  _ = true := hfree
              obtain ⟨hfree', hne⟩ := freeFd_of_put hfree'
              simp only [closeFd, Descriptors.close_put_of_ne hne,
                Descriptors.close_put (freeFd_extra hmaster)]
              exact .created ha hstdin hstderr hspawn hshm hmaster hfree' hne hid hring

theorem PtyEnds.pty {p : Host × Except String (RawFd × Pid × String)} (hp : PtyEnds a h p) :
    a.pty = p.2 := by
  cases hp with
  | unopened ha => simp [CreateAnswers.pty, ha, bind, Except.bind]
  | uncloned ha hclone hmaster =>
    rcases hclone with hstdin | ⟨⟨fd, hstdin⟩, hstderr⟩
    · simp [CreateAnswers.pty, ha, hstdin, bind, Except.bind]
    · simp [CreateAnswers.pty, ha, hstdin, hstderr, bind, Except.bind]
  | unspawned ha hstdin hstderr hspawn =>
    simp [CreateAnswers.pty, ha, hstdin, hstderr, hspawn, bind, Except.bind]
  | spawned ha hstdin hstderr hspawn hmaster hchild hpid =>
    simp [CreateAnswers.pty, ha, hstdin, hstderr, hspawn, bind, Except.bind, pure, Except.pure]

private theorem PtyEnds.server {p : Host × Except String (RawFd × Pid × String)}
    (hp : PtyEnds a h p) :
    p.1.server = h.server := by
  cases hp <;> rfl

/-- What the calls do to the server is what its own `handle_create` does with their answers. -/
theorem handleCreate_server {result : Except Stop (Host × Response)}
    (hresult : h.handleCreate a env shell cols rows workingDir terminalId envs = result)
    (hpossible : result ≠ .error .excluded) :
    h.server.handleCreate (a.env env) shell cols rows workingDir terminalId envs =
      result.map fun p => (p.1.server, p.2) := by
  cases handleCreate_ends hresult hpossible with
  | refused hpty =>
    have hserver := hpty.server
    simp only [Server.handleCreate, CreateAnswers.env, hpty.pty, Except.map]
    rw [hserver]
  | panicked hpty he =>
    simp only [Server.handleCreate, CreateAnswers.env, hpty.pty, he, Except.map]
  | @created master child stdin stderr shmFd pid ring ha hstdin hstderr hspawn hshm hmaster hfree
      hne hid hring =>
    have hpty : a.pty = .ok (master, pid, a.ptsname) := by
      simp [CreateAnswers.pty, ha, hstdin, hstderr, hspawn, bind, Except.bind, pure, Except.pure]
    simp only [Server.handleCreate, CreateAnswers.env, hpty, hshm, hring, Except.map]
    rfl

end

end Host

end PtyDaemon
