import PtyDaemon.Clients.Streams
import PtyDaemon.Framework.Transition
import PtyDaemon.Server.Parser
import PtyDaemon.Server.Shared

/-!
# The last output of a session

What a PTY puts out waits in it until somebody reads. Once its child has exited nothing more comes,
and what waits is the last output of the session. The daemon ends the session when the kernel
reports the exit, when it finds the child dead, or at the end of file; it does not read first.
-/

namespace PtyDaemon

open Server

/-- What has become of the last output of a session. -/
structure LastOutput where
  /-- what the PTY held when the child exited -/
  held : List UInt8
  /-- what the daemon has read since -/
  read : List UInt8
  /-- a local client has had the session since -/
  attached : Bool
  deriving DecidableEq

structure Ptys where
  streams : Streams
  /-- what each PTY has put out and nobody has read -/
  pending : Uuid → List UInt8
  /-- the sessions whose child has exited -/
  exits : Uuid → Option LastOutput
  /-- the sessions that the daemon has ended on its own since, newest first -/
  ended : List (Uuid × LastOutput)

/-- The daemon ends sessions on its own in these events. -/
def Event.endsItself : Event → Bool
  | .reap _ | .childExit _ _ | .output _ _ _ => true
  | _ => false

/-- The size of the buffer of `handle_session_output`. -/
def readBufSize : Nat := 8192

namespace Ptys

inductive Label
  | output (id : Uuid) (bytes : List UInt8)
  | exit (id : Uuid)
  | daemon (e : Event)
  | clientRead (id : Uuid) (data : List UInt8)

variable {J : Codec} {w w' : Ptys} {l : Label} {σ σ' : Server} {id : Uuid} {s : Session}
  {e : Event} {bytes : List UInt8}

/-- What the kernel can report: a read returns the oldest bytes, and the end of file only where
there are none; a child that is reported gone has exited. -/
def kernelSays (w : Ptys) : Event → Bool
  | .output fd (.data bytes) _ => (w.streams.server.sessions.findByMasterFd fd).all fun s =>
    s.isAttached || !bytes.isEmpty && decide (bytes.length ≤ readBufSize) &&
      bytes.isPrefixOf (w.pending s.id)
  | .output fd .eof _ => (w.streams.server.sessions.findByMasterFd fd).all fun s =>
    s.isAttached || (w.pending s.id).isEmpty
  | .childExit pid _ => (w.streams.server.sessions.findByChildPid pid).all fun s =>
    (w.exits s.id).isSome
  | .reap env => w.streams.server.sessions.values.all fun s =>
    env.childAlive s.childPid || (w.exits s.id).isSome
  | _ => true

/-- The sessions that are gone. -/
def gone (σ σ' : Server) : List Uuid :=
  σ.sessions.keys.filter fun id => (σ'.sessions.lookup id).isNone

/-- The daemon has handled an event. -/
def advance (w : Ptys) (e : Event) (streams : Streams) : Ptys :=
  let read := fun id => readFrom id (newActs w.streams.server streams.server)
  { streams := streams
    pending := fun id => (w.pending id).drop (read id).length
    exits := fun id => (w.exits id).map fun x =>
      { x with
        read := x.read ++ read id
        attached := x.attached || decide (streams.server.attachedAt id) }
    ended :=
      if e.endsItself then
        (gone w.streams.server streams.server).filterMap
          (fun id => (w.exits id).map fun x => (id, x)) ++ w.ended
      else w.ended }

def step (J : Codec) (w : Ptys) : Label → Option Ptys
  | .output id bytes =>
    if id ∈ w.streams.server.ids ∧ w.exits id = none then
      some { w with pending := fun i => if i = id then w.pending i ++ bytes else w.pending i }
    else none
  | .exit id =>
    if id ∈ w.streams.server.ids ∧ w.exits id = none then
      some { w with exits := fun i =>
        if i = id then some ⟨w.pending id, [], decide (w.streams.server.attachedAt id)⟩
        else w.exits i }
    else none
  | .daemon e =>
    if w.kernelSays e then (w.streams.step J (.daemon e)).map (w.advance e) else none
  | .clientRead id data =>
    if data.isPrefixOf (w.pending id) then
      (w.streams.step J (.clientRead id data)).map fun streams =>
        { w with
          streams := streams
          pending := fun i => if i = id then (w.pending i).drop data.length else w.pending i }
    else none

/-- The daemon, the PTYs and the local clients, in any order. -/
def system (J : Codec) : Transition.System Ptys Label where
  init w := ∃ listener wakeup now,
    w = ⟨Streams.new listener wakeup now, fun _ => [], fun _ => none, []⟩
  step := step J

/-- Where no local client has had the session since its child exited, its PTY holds nothing. -/
def emptied (w : Ptys) (id : Uuid) : Bool :=
  (w.exits id).all fun x => x.attached || (w.pending id).isEmpty

/-- A session whose child has exited is ended only when its PTY is empty, and no client that had it
before reads from it. -/
def drains (w : Ptys) : Label → Bool
  | .daemon (.childExit pid _) =>
    (w.streams.server.sessions.findByChildPid pid).all fun s => w.emptied s.id
  | .daemon (.reap env) => w.streams.server.sessions.values.all fun s =>
    env.childAlive s.childPid || w.emptied s.id
  | .clientRead id _ => (w.exits id).all LastOutput.attached
  | _ => true

/-- What the daemon has read goes to the ring, to the parser and to every subscriber. -/
def Relayed (id : Uuid) (bytes : List UInt8) (σ σ' : Server) : Prop :=
  ∃ s s' : Session, σ.sessions.lookup id = some s ∧ σ'.sessions.lookup id = some s' ∧
    s'.sharedRing = s.sharedRing.write bytes ∧ s'.core.fed = s.core.fed.map (· ++ bytes) ∧
    σ'.wsShared = σ.wsShared.broadcast id bytes

private theorem event_relayed (hinv : Inv σ) (h : σ.event J e = .ok σ')
    (hread : .ptyRead id bytes ∈ newActs σ σ') : Relayed id bytes σ σ' := by
  rcases event_shared hinv h with ⟨_, acts, hacts, hquiet⟩ | ⟨i, data, _, hreads⟩
  · rw [newActs_eq hacts, List.mem_reverse] at hread
    exact absurd hread (hquiet id bytes)
  · obtain ⟨_, _, _, _, _, _, _, _, _, htrace⟩ := hreads.spec
    rw [newActs_eq htrace] at hread
    simp only [List.reverse_cons, List.reverse_nil, List.nil_append, List.mem_singleton,
      Act.ptyRead.injEq] at hread
    obtain ⟨rfl, rfl⟩ := hread
    obtain @⟨s, s', hs, _, _, hcore⟩ := hreads
    exact ⟨s, s', hs, lookup_putSession_self σ id s', congrArg Core.sharedRing hcore,
      congrArg Core.fed hcore, rfl⟩

/-! ## Which sessions an event ends -/

/-- `reap_dead` ends a session only where its child is found dead. -/
theorem reapDead_gone (hinv : Inv σ) {env : Env} (hs : σ.sessions.lookup id = some s)
    (hnone : (σ.reapDead env).sessions.lookup id = none) : env.childAlive s.childPid = false := by
  rw [lookup_reapDead] at hnone
  split at hnone
  · rename_i hdead
    obtain ⟨t, ht, hid⟩ := List.mem_map.mp hdead
    obtain ⟨hmem, hgone⟩ := List.mem_filter.mp ht
    obtain ⟨i, hi⟩ := Table.mem_values.mp hmem
    rw [← hinv.sessionsOpen.key hi, hid, hs] at hi
    cases hi
    simpa using hgone
  · cases hs.symm.trans hnone

private theorem handleChildExit_gone {env : Env} {pid : Pid} (hinv : Inv σ)
    (hs : σ.sessions.lookup id = some s)
    (hnone : (σ.handleChildExit env pid).sessions.lookup id = none) :
    σ.sessions.findByChildPid pid = some s := by
  cases handleChildExit_ends hinv.sessionsOpen.key env pid with
  | unknown _ h =>
    rw [h] at hnone
    cases hs.symm.trans hnone
  | @ended i t hfound _ hi h =>
    rw [h, drop_sessions] at hnone
    by_cases hid : id = i
    · rw [hid, hi] at hs
      cases hs
      exact hfound
    · have hkept : σ.sessions.lookup id = none := (AList.lookup_erase_ne hid).symm.trans hnone
      cases hs.symm.trans hkept

private theorem handleSessionOutput_gone {env : Env} {fd : RawFd} {read : PtyRead} (hinv : Inv σ)
    (hs : σ.sessions.lookup id = some s)
    (hnone : (σ.handleSessionOutput env fd read).sessions.lookup id = none) :
    read = .eof ∧ σ.sessions.findByMasterFd fd = some s ∧ s.isAttached = false := by
  cases handleSessionOutput_ends hinv.sessionsOpen.key env fd read with
  | ignored _ h =>
    rw [h] at hnone
    cases hs.symm.trans hnone
  | @absorbed i t bytes _ _ hi _ _ h =>
    rw [h] at hnone
    have hput := (lookup_putSession σ i id _).symm.trans hnone
    split at hput
    · cases hput
    · cases hs.symm.trans hput
  | @ended i t hfound _ hi hfree hread h =>
    rw [h, drop_sessions] at hnone
    by_cases hid : id = i
    · rw [hid, hi] at hs
      cases hs
      exact ⟨hread, hfound, decide_eq_false hfree⟩
    · have hkept : σ.sessions.lookup id = none := (AList.lookup_erase_ne hid).symm.trans hnone
      cases hs.symm.trans hkept

/-- An event that the kernel can report ends a session of which nothing is left unread, where the
guard holds. -/
theorem emptied_of_gone (hinv : Inv w.streams.server) (he : e.endsItself = true)
    (hevent : w.streams.server.event J e = .ok σ') (hkernel : w.kernelSays e = true)
    (hdrains : w.drains (.daemon e) = true)
    (hs : w.streams.server.sessions.lookup id = some s) (hnone : σ'.sessions.lookup id = none) :
    w.emptied id = true := by
  have hkey := hinv.sessionsOpen.key hs
  cases e with
  | reap env =>
    cases hevent
    have hdead := reapDead_gone hinv hs hnone
    have hall := List.all_eq_true.mp hdrains s (Table.mem_values.mpr ⟨id, hs⟩)
    simpa [hdead, hkey] using hall
  | childExit pid env =>
    cases hevent
    have hfound := handleChildExit_gone hinv hs hnone
    simpa [drains, hfound, hkey] using hdrains
  | output fd read env =>
    cases hevent
    obtain ⟨rfl, hfound, hfree⟩ := handleSessionOutput_gone hinv hs hnone
    have hempty : w.pending id = [] := by simpa [kernelSays, hfound, hfree, hkey] using hkernel
    cases hx : w.exits id with
    | none => simp [emptied, hx]
    | some x => simp [emptied, hx, hempty]
  | _ => cases he

/-! ## Runs -/

/-- What a PTY held when its child exited is what the daemon has read since and what is left. -/
structure Tracked (w : Ptys) : Prop where
  ring : Streams.RingInv w.streams
  rest : ∀ {id x}, w.exits id = some x → x.attached = false → x.held = x.read ++ w.pending id
  ended : ∀ p ∈ w.ended, p.2.attached = false → p.2.read = p.2.held

/-- What is read at a descriptor is read from the session it belongs to. -/
theorem handleSessionOutput_reads (hinv : Inv σ) {env : Env} {fd : RawFd}
    (hread : Server.Read id bytes σ (σ.handleSessionOutput env fd (.data bytes))) :
    ∃ t, σ.sessions.findByMasterFd fd = some t ∧ t.id = id ∧ t.isAttached = false := by
  obtain ⟨_, _, _, _, _, _, _, _, _, htrace⟩ := hread.spec
  have hmoved : (σ.handleSessionOutput env fd (.data bytes)).trace ≠ σ.trace := by
    rw [htrace]
    exact List.cons_ne_self _ _
  cases handleSessionOutput_ends hinv.sessionsOpen.key env fd (.data bytes) with
  | ignored _ h => exact absurd (congrArg trace h) hmoved
  | @absorbed i t read hfound hi _ hfree hdata h =>
    cases hdata
    have hact : Act.ptyRead i bytes = Act.ptyRead id bytes :=
      (List.cons.inj ((congrArg trace h).symm.trans htrace)).1
    exact ⟨t, hfound, hi.trans (Act.ptyRead.inj hact).1, decide_eq_false hfree⟩
  | ended _ _ _ _ hread _ => cases hread

/-- What an event reads from a PTY is the beginning of what the PTY held. -/
theorem read_pending (hinv : Inv w.streams.server) (hkernel : w.kernelSays e = true)
    (hevent : w.streams.server.event J e = .ok σ') (id : Uuid) :
    readFrom id (newActs w.streams.server σ') ++
      (w.pending id).drop (readFrom id (newActs w.streams.server σ')).length = w.pending id := by
  have hout : ∀ {data : List UInt8},
      (w.streams.advance σ').out id = w.streams.out id ++ data →
      readFrom id (newActs w.streams.server σ') = data := fun h => List.append_cancel_left h
  have hquiet : (w.streams.advance σ').out id = w.streams.out id →
      readFrom id (newActs w.streams.server σ') = [] := fun h =>
    hout (h.trans (List.append_nil _).symm)
  cases event_effect hinv hevent with
  | handled h => simp [hquiet (Streams.handled_out h id)]
  | lost _ _ h => simp [hquiet (Streams.lost_out h id)]
  | @read fd i bytes env he hread =>
    have hstreams := Streams.read_out hread id
    by_cases hi : id = i
    · subst hi he
      cases hevent
      obtain ⟨t, hfound, hid, hfree⟩ := handleSessionOutput_reads hinv hread
      rw [if_pos rfl] at hstreams
      rw [hout hstreams]
      simp only [kernelSays, hfound, Option.all_some, hfree, Bool.false_or, Bool.and_eq_true,
        hid] at hkernel
      obtain ⟨rest, hrest⟩ := List.isPrefixOf_iff_prefix.mp hkernel.2
      rw [← hrest, List.drop_left]
    · rw [if_neg hi] at hstreams
      simp [hquiet hstreams]

private theorem Tracked.daemon (h : Tracked w) (hdrains : w.drains (.daemon e) = true)
    (hstep : step J w (.daemon e) = some w') : Tracked w' := by
  simp only [step] at hstep
  split at hstep
  · rename_i hkernel
    obtain ⟨streams, hstreams, rfl⟩ := Option.map_eq_some_iff.mp hstep
    obtain ⟨σ', hσ', rfl⟩ := Option.map_eq_some_iff.mp hstreams
    have hevent : w.streams.server.event J e = .ok σ' := ok_of_toOption hσ'
    constructor
    · exact h.ring.event hevent
    · intro id x hx hfree
      obtain ⟨x', hx', rfl⟩ := Option.map_eq_some_iff.mp hx
      have hfree' : x'.attached = false := (Bool.or_eq_false_iff.mp hfree).1
      have hread := read_pending h.ring.server hkernel hevent id
      show x'.held = (x'.read ++ _) ++ _
      rw [List.append_assoc, h.rest hx' hfree']
      exact congrArg (x'.read ++ ·) hread.symm
    · intro p hp hfree
      simp only [advance] at hp
      split at hp
      · rename_i he
        rcases List.mem_append.mp hp with hp | hp
        · obtain ⟨id, hid, hp⟩ := List.mem_filterMap.mp hp
          obtain ⟨x, hx, rfl⟩ := Option.map_eq_some_iff.mp hp
          obtain ⟨hkeys, hnone⟩ := List.mem_filter.mp hid
          obtain ⟨s, hs⟩ := Option.isSome_iff_exists.mp (AList.lookup_isSome.mpr hkeys)
          have hempty := emptied_of_gone h.ring.server he hevent hkernel hdrains hs
            (Option.isNone_iff_eq_none.mp hnone)
          have hrest := h.rest hx hfree
          have hfree' : x.attached = false := hfree
          have hnothing : w.pending id = [] := by simpa [emptied, hx, hfree'] using hempty
          rw [hrest, hnothing, List.append_nil]
        · exact h.ended p hp hfree
      · exact h.ended p hp hfree
  · cases hstep

private theorem Tracked.step (h : Tracked w) (hdrains : w.drains l = true)
    (hstep : step J w l = some w') : Tracked w' := by
  cases l with
  | output id bytes =>
    simp only [Ptys.step] at hstep
    split at hstep
    · rename_i hcond
      cases hstep
      refine ⟨h.ring, ?_, h.ended⟩
      intro i x hx hfree
      have hne : i ≠ id := by
        rintro rfl
        cases hcond.2.symm.trans hx
      rw [h.rest hx hfree]
      simp [hne]
    · cases hstep
  | exit id =>
    simp only [Ptys.step] at hstep
    split at hstep
    · cases hstep
      refine ⟨h.ring, ?_, h.ended⟩
      intro i x hx hfree
      dsimp only at hx
      split at hx
      · rename_i hi
        cases hx
        rw [hi]
        rfl
      · exact h.rest hx hfree
    · cases hstep
  | daemon e => exact h.daemon hdrains hstep
  | clientRead id data =>
    simp only [Ptys.step] at hstep
    split at hstep
    · obtain ⟨streams, hstreams, rfl⟩ := Option.map_eq_some_iff.mp hstep
      simp only [Streams.step] at hstreams
      split at hstreams
      · obtain ⟨s, hs, rfl⟩ := Option.map_eq_some_iff.mp hstreams
        refine ⟨h.ring.clientRead hs data, ?_, h.ended⟩
        intro i x hx hfree
        have hne : i ≠ id := by
          rintro rfl
          have hattached : x.attached = true := by
            have hx' : w.exits i = some x := hx
            simpa [drains, hx'] using hdrains
          cases hfree.symm.trans hattached
        rw [h.rest hx hfree]
        simp [hne]
      · cases hstreams
    · cases hstep

/-- Whatever the kernel reports in whatever order: as long as a session whose child has exited is
ended only when its PTY is empty, and nobody else reads from it, what the PTY held at the exit has
been read by the daemon; and what the daemon reads it passes on to all. -/
theorem last_output_delivered (h : (system J).Reach (fun w l => w.drains l = true) w) :
    (∀ p ∈ w.ended, p.2.attached = false → p.2.read = p.2.held) ∧
      ∀ e σ' id bytes, w.streams.server.event J e = .ok σ' →
        .ptyRead id bytes ∈ newActs w.streams.server σ' →
          Relayed id bytes w.streams.server σ' := by
  have htracked : Tracked w := by
    apply h.invariant
    · rintro _ ⟨listener, wakeup, now, rfl⟩
      refine ⟨.start listener wakeup now, ?_, ?_⟩
      · intro id x hx
        cases hx
      · intro p hp
        cases hp
    · intro w l w' htracked hdrains hstep
      exact htracked.step hdrains hstep
  apply And.intro htracked.ended
  intro e σ' id bytes hevent hread
  exact event_relayed htracked.ring.server hevent hread

/-- Session 7 is created, puts out three bytes, and its child exits. -/
private def exited : List Label :=
  [.daemon (.accept 5),
    .daemon (.request 5 (.ok (.create none 80 24 none none none)) 0 calm),
    .output 7 [1, 2, 3], .exit 7]

/-- The daemon reads all of it in two events before it learns of the exit. -/
theorem last_output_delivered_read :
    ∃ w, (system silent).Reach (fun w l => w.drains l = true) w ∧
      (∀ p ∈ w.ended, p.2.attached = false → p.2.read = p.2.held) ∧
      w.ended = [(7, ⟨[1, 2, 3], [1, 2, 3], false⟩)] := by
  have hrun : ((system silent).execWhere (fun w l => w.drains l = true)
      ⟨Streams.new 3 none 0, fun _ => [], fun _ => none, []⟩ (exited ++
        [.daemon (.output 10 (.data [1, 2]) calmLater), .daemon (.output 10 (.data [3]) calmLater),
          .daemon (.childExit 100 calmLater)])).map Ptys.ended =
      some [(7, ⟨[1, 2, 3], [1, 2, 3], false⟩)] := by decide +kernel
  obtain ⟨w, hexec, hended⟩ := Option.map_eq_some_iff.mp hrun
  have hstart : (system silent).Reach (fun w l => w.drains l = true)
      ⟨Streams.new 3 none 0, fun _ => [], fun _ => none, []⟩ := .start ⟨3, none, 0, rfl⟩
  have hreach := hstart.execWhere hexec
  exact ⟨w, hreach, (last_output_delivered hreach).1, hended⟩

/-- The exit is handled while two bytes are left to read. -/
theorem exit_overtakes_output :
    ∃ w, (system silent).Reachable w ∧
      ¬ (∀ p ∈ w.ended, p.2.attached = false → p.2.read = p.2.held) ∧
      w.ended = [(7, ⟨[1, 2, 3], [1], false⟩)] := by
  have hrun : ((system silent).exec ⟨Streams.new 3 none 0, fun _ => [], fun _ => none, []⟩
      (exited ++ [.daemon (.output 10 (.data [1]) calmLater),
        .daemon (.childExit 100 calmLater)])).map Ptys.ended =
      some [(7, ⟨[1, 2, 3], [1], false⟩)] := by decide +kernel
  obtain ⟨w, hexec, hended⟩ := Option.map_eq_some_iff.mp hrun
  have hstart : (system silent).Reachable
      ⟨Streams.new 3 none 0, fun _ => [], fun _ => none, []⟩ := .start ⟨3, none, 0, rfl⟩
  refine ⟨w, hstart.exec hexec, ?_, hended⟩
  intro hall
  rw [hended] at hall
  exact absurd (hall _ List.mem_cons_self rfl) (by decide)

end Ptys

end PtyDaemon
