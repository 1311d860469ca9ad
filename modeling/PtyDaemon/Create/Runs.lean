import PtyDaemon.Create.Host
import PtyDaemon.Server.Holders

/-!
# Runs of the daemon and the kernel

The daemon event by event, where a Create is taken apart into its calls. The server is in the states
it reaches by itself; what it has open beside its tables are rings, and the masters of pairs whose
Create has failed.
-/

namespace PtyDaemon

namespace Host

/-- The daemon with what an event leaves of its rings. -/
def carry (h : Host) (σ : Server) : Host :=
  { h with
    server := σ
    extra := fun fd => (h.extra fd).filter fun s =>
      match s.object with
      | .ring id => (σ.sessions.lookup id).isSome
      | _ => true
    shm := σ.shmSpace }

end Host

/-- The event with the answers a Create of it gets. -/
def Event.answered (a : CreateAnswers) : Event → Event
  | .request fd result consumed env => .request fd result consumed (a.env env)
  | .command shared cmd env => .command shared cmd (a.env env)
  | e => e

inductive HostLabel
  | event (e : Event) (a : CreateAnswers)
  | receive (fd : RawFd) (bytes : List UInt8)
  | tick (running : Bool) (idleSince : Option Nat)
  /-- a child is gone -/
  | exited (pid : Pid)

namespace Host

def step (J : Codec) (h : Host) : HostLabel → Option Host
  | .event e a =>
    match e.request? with
    | some (env, .create shell cols rows workingDir terminalId envs) =>
      (h.handleCreate a env shell cols rows workingDir terminalId envs).toOption.bind fun p =>
        (h.server.event J (e.answered a)).toOption.map fun σ => { p.1 with server := σ }
    | _ => (h.server.event J e).toOption.map h.carry
  | .receive fd bytes => (h.server.occur J (.receive fd bytes)).map h.carry
  | .tick running idleSince => (h.server.occur J (.tick running idleSince)).map h.carry
  | .exited pid => some { h with children := h.children.erase pid }

def hosts (J : Codec) : Transition.System Host HostLabel where
  init h := (∃ listener wakeup now, h.server = Server.new listener wakeup now) ∧
    (∀ fd, h.extra fd = none) ∧ h.ptys = 0 ∧ h.children = ∅ ∧ h.shm = ⟨∅, 0, ∅⟩
  step := step J

variable {J : Codec} {a : CreateAnswers} {env : Env} {h h' : Host} {l : HostLabel} {e : Event}

/-- What is open outside the tables of the server was opened before. -/
def Numbered (h : Host) : Prop :=
  ∀ fd s n, h.extra fd = some s → s.object = .master n → n < h.ptys

private theorem carry_numbered {σ : Server} (hnumbered : Numbered h) : Numbered (h.carry σ) := by
  intro fd s n hs hn
  obtain ⟨hold, _⟩ := Option.filter_eq_some_iff.mp hs
  exact hnumbered fd s n hold hn

private theorem put_numbered {fd : RawFd} {s : Slot Loose} (hnumbered : Numbered h) {ptys : Nat}
    (hle : h.ptys ≤ ptys) (hs : ∀ n, s.object = .master n → n < ptys) {k : Host}
    (hextra : k.extra = h.extra.put fd s) (hptys : k.ptys = ptys) : Numbered k := by
  intro i t n ht hn
  rw [hextra, Descriptors.put_apply] at ht
  rw [hptys]
  split at ht
  · cases ht
    exact hs n hn
  · exact Nat.lt_of_lt_of_le (hnumbered i t n ht hn) hle

private theorem PtyEnds.numbered {p : Host × Except String (RawFd × Pid × String)}
    (hp : PtyEnds a h p)
    (hnumbered : Numbered h) : Numbered p.1 := by
  have hmaster : ∀ n, Loose.master h.ptys = .master n → n < h.ptys + 1 := by
    intro n hn
    cases hn
    exact Nat.lt_succ_self _
  cases hp with
  | unopened ha => exact hnumbered
  | uncloned ha hclone hfree => exact put_numbered hnumbered (Nat.le_succ _) hmaster rfl rfl
  | unspawned ha hstdin hstderr hspawn =>
    intro fd s n hs hn
    exact Nat.lt_succ_of_lt (hnumbered fd s n hs hn)
  | spawned ha hstdin hstderr hspawn hfree hchild hpid =>
    exact put_numbered hnumbered (Nat.le_succ _) hmaster rfl rfl

private theorem handleCreate_numbered {shell : Option String} {cols rows : UInt16}
    {workingDir : Option String} {terminalId : Option UInt32}
    {envs : Option (List (String × String))} {p : Host × Response} (hnumbered : Numbered h)
    (hp : h.handleCreate a env shell cols rows workingDir terminalId envs = .ok p) :
    Numbered p.1 := by
  cases handleCreate_ends hp (fun hexcluded => by cases hexcluded) with
  | refused hpty => exact hpty.numbered hnumbered
  | created ha hstdin hstderr hspawn hshm hmaster hfree hne hid hring =>
    exact put_numbered hnumbered (Nat.le_succ _) (fun n hn => by cases hn) rfl rfl

private theorem step_numbered (hstep : step J h l = some h') (hnumbered : Numbered h) :
    Numbered h' := by
  cases l with
  | event e a =>
    simp only [step] at hstep
    split at hstep
    · obtain ⟨p, hp, hstep⟩ := Option.bind_eq_some_iff.mp hstep
      obtain ⟨σ, _, rfl⟩ := Option.map_eq_some_iff.mp hstep
      have hnew := handleCreate_numbered hnumbered (ok_of_toOption hp)
      exact hnew
    · obtain ⟨σ, _, rfl⟩ := Option.map_eq_some_iff.mp hstep
      exact carry_numbered hnumbered
  | receive fd bytes =>
    obtain ⟨σ, _, rfl⟩ := Option.map_eq_some_iff.mp hstep
    exact carry_numbered hnumbered
  | tick running idleSince =>
    cases hstep
    exact carry_numbered hnumbered
  | exited pid =>
    cases hstep
    exact hnumbered

/-- The server takes a step of its own, or none. -/
theorem step_server (hstep : step J h l = some h') :
    (∃ m, h.server.occur J m = some h'.server) ∨ h'.server = h.server := by
  cases l with
  | event e a =>
    simp only [step] at hstep
    split at hstep
    · obtain ⟨p, _, hstep⟩ := Option.bind_eq_some_iff.mp hstep
      obtain ⟨σ, hσ, rfl⟩ := Option.map_eq_some_iff.mp hstep
      exact .inl ⟨.event (e.answered a), hσ⟩
    · obtain ⟨σ, hσ, rfl⟩ := Option.map_eq_some_iff.mp hstep
      exact .inl ⟨.event e, hσ⟩
  | receive fd bytes =>
    obtain ⟨σ, hσ, rfl⟩ := Option.map_eq_some_iff.mp hstep
    exact .inl ⟨.receive fd bytes, hσ⟩
  | tick running idleSince =>
    cases hstep
    exact .inl ⟨.tick running idleSince, rfl⟩
  | exited pid =>
    cases hstep
    exact .inr rfl

theorem hosts_numbered (hreach : (hosts J).Reachable h) : Numbered h := by
  apply hreach.invariant
  · rintro h ⟨_, hextra, _⟩ fd s n hs
    rw [hextra] at hs
    cases hs
  · intro h l h' hnumbered _ hstep
    exact step_numbered hstep hnumbered

theorem hosts_server (hreach : (hosts J).Reachable h) :
    (Server.occurrences J).Reachable h.server := by
  induction hreach with
  | start hinit => exact .start hinit.1
  | next _ _ hstep ih =>
    rcases step_server hstep with ⟨m, hm⟩ | hsame
    · exact ih.next trivial hm
    · rw [hsame]
      exact ih

/-- The daemon at its start. -/
def fresh : Host where
  server := Server.new 3 none 0
  extra := fun _ => none
  ptys := 0
  children := ∅
  shm := ⟨∅, 0, ∅⟩

theorem fresh_reachable (J : Codec) : (hosts J).Reachable fresh :=
  .start ⟨⟨3, none, 0, rfl⟩, fun _ => rfl, rfl, rfl, rfl⟩

/-- Answers to a Create in which nothing fails. -/
def smooth (fd : RawFd) (pid : Pid) (uuid : Uuid) : CreateAnswers where
  openpty := .ok (fd, fd + 1)
  stdin := .ok (fd + 2)
  stderr := .ok (fd + 3)
  spawn := .ok pid
  ptsname := "pts"
  uuid := uuid
  shmOpen := .ok (fd + 1)
  ftruncate := none
  mmap := none

/-- A client connects on descriptor 5 and creates session 7. -/
def oneSession : List HostLabel :=
  [.event (.accept 5) (smooth 10 100 7),
    .event (.request 5 (.ok (.create none 80 24 none none none)) 0 { Server.calm with dup := none })
      (smooth 10 100 7)]

end Host

end PtyDaemon
