import PtyDaemon.Ws.Dialogue

/-!
# The history of the clients and of the commands

A log beside the world: what has passed between every client and its task, and which commands the
daemon has handled. What a client is entitled to is read off its part of the log, not off the state
of its task.
-/

namespace PtyDaemon

inductive Moment
  | client (c : Nat) (exchange : WsExchange)
  /-- the daemon has handled a command -/
  | handled (cmd : WsCommand) (acts : List Act)

/-- What passes between client `c` and its task. -/
def Moment.passing (c : Nat) : Moment → Option WsExchange
  | .client c' exchange => if c = c' then some exchange else none
  | .handled _ _ => none

/-- What has passed between client `c` and its task, newest first. -/
def transcript (c : Nat) (log : List Moment) : List WsExchange := log.filterMap (Moment.passing c)

/-- Exchanges of one client are in its own transcript only. -/
theorem transcript_clients (c c' : Nat) (es : List WsExchange) (log : List Moment) :
    transcript c (es.map (.client c') ++ log) =
      if c = c' then es ++ transcript c log else transcript c log := by
  induction es with
  | nil => exact (ite_self _).symm
  | cons e es ih =>
    rw [List.map_cons, List.cons_append, transcript, List.filterMap_cons]
    by_cases hc : c = c'
    · rw [if_pos hc] at ih ⊢
      simp only [Moment.passing, if_pos hc]
      exact congrArg (e :: ·) ih
    · rw [if_neg hc] at ih ⊢
      simp only [Moment.passing, if_neg hc]
      exact ih

/-- Each connection after the task of client `c` has exchanged `es` with it, with its transcript. -/
theorem lookup_exchanged {connections : Table Nat WsConnection} {c i : Nat}
    {conn' conn₁ : WsConnection} (es : List WsExchange) (log : List Moment)
    (h : (connections.insert c conn').lookup i = some conn₁) :
    i = c ∧ conn₁ = conn' ∧ transcript i (es.map (.client c) ++ log) = es ++ transcript c log ∨
      i ≠ c ∧ connections.lookup i = some conn₁ ∧
        transcript i (es.map (.client c) ++ log) = transcript i log := by
  rw [Table.lookup_insert] at h
  rw [transcript_clients]
  by_cases hi : i = c
  · rw [if_pos hi] at h ⊢
    exact .inl ⟨hi, (Option.some.inj h).symm, by rw [hi]⟩
  · rw [if_neg hi] at h ⊢
    exact .inr ⟨hi, h, rfl⟩

namespace Closing

variable {J : Codec} {x x' : Closing} {l : Label}

/-- What is noted of a step. -/
def note (x : Closing) (l : Label) (x' : Closing) : List Moment :=
  match l with
  | .world (.task c s) =>
    match x.world.connections.lookup c, x'.world.connections.lookup c with
    | some conn, some conn' => (conn.exchanges conn' s).map (.client c)
    | _, _ => []
  | .world (.drain _) =>
    x.world.queue.head?.toList.map fun cmd =>
      .handled cmd (Server.newActs x.world.server x'.world.server)
  | _ => []

/-- The world until the daemon cleans up and after, with its history. -/
def history (J : Codec) : Transition.System (Transition.Recorded Closing Moment) Label :=
  (system J).record note

end Closing

abbrev History := Transition.Recorded Closing Moment

namespace History

variable {J : Codec} {x x' : History} {l : Closing.Label}

abbrev world (x : History) : WsWorld := x.state.world

/-- The daemon before its first step. -/
def new (listener : RawFd) (wakeup : Option (RawFd × RawFd)) (now : Nat) : History :=
  ⟨⟨.new listener wakeup now, false⟩, []⟩

theorem init_new (J : Codec) (listener : RawFd) (wakeup : Option (RawFd × RawFd)) (now : Nat) :
    (Closing.history J).init (new listener wakeup now) :=
  ⟨⟨⟨listener, wakeup, now, rfl⟩, rfl⟩, rfl⟩

/-- A step with what is noted of it. -/
inductive Noted (J : Codec) (x : History) : Closing.Label → History → Prop
  | accept : Noted J x (.world .accept) ⟨{ x.state with world := x.world.accept }, x.log⟩
  | task {c : Nat} {s : WsStep} {conn conn' : WsConnection} {t : WsSharedState}
      {cmd : Option WsCommand} {es : List WsExchange}
      (hconn : x.world.connections.lookup c = some conn)
      (hstep : conn.step x.world.shared c (fun id => (x.world.streams.out id).length) s =
        some ((t, conn'), cmd))
      (hwait : ∀ request, conn.task ≠ .waiting request)
      (hex : conn.Exchanged x.world.shared c t conn' cmd es) :
      Noted J x (.world (.task c s))
        ⟨{ x.state with
            world := { x.world.withShared t with
              connections := x.world.connections.insert c conn'
              queue := x.world.queue ++ cmd.toList } },
          es.map (.client c) ++ x.log⟩
  | drain {cmd : WsCommand} {queue : List WsCommand} {env : Env} {σ' : Server}
      (hopen : x.state.closed = false) (hqueue : x.world.queue = cmd :: queue)
      (hevent : x.world.server.event J (.command x.world.shared cmd env) = .ok σ') :
      Noted J x (.world (.drain env))
        ⟨{ x.state with
            world := { x.world with
              streams := x.world.streams.advance σ'
              connections := WsWorld.replyTo x.world.connections (x.world.streams.advance σ') cmd
              queue := queue } },
          .handled cmd (Server.newActs x.world.server σ') :: x.log⟩
  | daemon {e : Event} {σ' : Server} (hopen : x.state.closed = false)
      (hplain : ∀ shared cmd env, e ≠ .command shared cmd env)
      (harrive : x.world.server.arrive e = x.world.server)
      (hevent : x.world.server.event J e = .ok σ') :
      Noted J x (.world (.daemon e))
        ⟨{ x.state with world := { x.world with streams := x.world.streams.advance σ' } }, x.log⟩
  | clientRead {id : Uuid} {s : Session} {data : List UInt8}
      (hs : x.world.server.sessions.lookup id = some s) :
      Noted J x (.world (.clientRead id data))
        ⟨{ x.state with
            world := { x.world with
              streams := x.world.streams.clientRead id s data
              clientEnd := fun i =>
                if i = id ∧ data ≠ [] then ((x.world.streams.clientRead id s data).out i).length
                else x.world.clientEnd i } },
          x.log⟩
  | close {env : Env} (hopen : x.state.closed = false) :
      Noted J x (.close env) ⟨⟨x.world.cleanup env, true⟩, x.log⟩

private theorem step_noted (hdialogue : x.world.Dialogue)
    (h : (Closing.history J).step x l = some x') :
    Noted J x l x' := by
  obtain ⟨hstep, hlog⟩ := Transition.System.step_record h
  obtain ⟨⟨world', closed'⟩, log'⟩ := x'
  dsimp only at hstep hlog
  subst hlog
  cases l with
  | close env =>
    obtain ⟨hopen, hclosed, hworld⟩ := Closing.step_close (J := J) hstep
    cases hclosed
    cases hworld
    exact .close hopen
  | world l =>
    obtain ⟨hw, hclosed, hopen⟩ := Closing.step_world hstep
    cases hclosed
    cases l with
    | accept =>
      cases hw
      exact .accept
    | task c s =>
      obtain ⟨conn, t, conn', cmd, hconn, hp, hwait, hex, hworld⟩ := hdialogue.exchanged hw
      cases hworld
      have hnote : Closing.note x.state (.world (.task c s))
          ⟨{ x.world.withShared t with
            connections := x.world.connections.insert c conn'
            queue := x.world.queue ++ cmd.toList }, x.state.closed⟩ =
          (conn.exchanges conn' s).map (.client c) := by
        simp only [Closing.note, hconn, AList.lookup_insert]
      rw [hnote]
      exact .task hconn hp hwait hex
    | drain env =>
      obtain ⟨cmd, queue, σ', hqueue, hevent, hworld⟩ := WsWorld.step_drain hw
      cases hworld
      have hnoted := Noted.drain (hopen rfl) hqueue hevent
      rwa [Closing.note, hqueue]
    | daemon e =>
      obtain ⟨σ', harrive, hevent, hworld⟩ := WsWorld.step_daemon hw
      cases hworld
      exact .daemon (hopen rfl) (WsWorld.step_daemon_plain hw) harrive hevent
    | clientRead id data =>
      obtain ⟨s, hs, hworld⟩ := WsWorld.step_clientRead hw
      cases hworld
      exact .clientRead hs

/-- The next number is nobody's. -/
theorem lookup_fresh {w : WsWorld} (htable : w.TableInv) :
    w.connections.lookup w.shared.nextClientId = none := by
  cases hconn : w.connections.lookup w.shared.nextClientId with
  | none => rfl
  | some conn => exact absurd (htable.fresh hconn) (Nat.lt_irrefl _)

private theorem reachable_unborn {guard : History → Closing.Label → Prop}
    (h : (Closing.history J).Reach guard x) :
    ∀ c, x.world.connections.lookup c = none → transcript c x.log = [] := by
  apply h.invariant_with (Q := fun x : History => x.world.TableInv ∧ x.world.Dialogue)
  · exact fun x hreach =>
      ⟨Closing.reachable_table hreach.unrecorded, Closing.reachable_dialogue hreach.unrecorded⟩
  · rintro x ⟨_, hlog⟩ c _
    rw [hlog]
    rfl
  · rintro (x : History) l x' ⟨htable, hdialogue⟩ hunborn _ hs
    cases step_noted hdialogue hs with
    | accept =>
      intro c hnone
      apply hunborn
      cases hold : x.world.connections.lookup c with
      | none => rfl
      | some conn => cases hnone.symm.trans (htable.accepted hold)
    | @task c _ conn conn' t cmd es _ _ _ _ =>
      intro i hnone
      have hlookup := Table.lookup_insert x.world.connections c i conn'
      rw [hlookup] at hnone
      rw [transcript_clients]
      split at hnone
      · cases hnone
      · rename_i hi
        rw [if_neg hi]
        exact hunborn i hnone
    | @drain cmd queue env σ' _ _ _ =>
      intro c hnone
      apply hunborn
      cases hold : x.world.connections.lookup c with
      | none => rfl
      | some conn =>
        obtain ⟨conn', hconn'⟩ := WsWorld.replyTo_lookup (x.world.streams.advance σ') cmd hold
        cases hnone.symm.trans hconn'
    | _ => exact hunborn

/-- What is known of every run. -/
structure Sound (x : History) : Prop where
  table : x.world.TableInv
  dialogue : x.world.Dialogue
  server : x.state.closed = false → Server.Inv x.world.server
  wf : x.world.shared.Wf
  feed : x.state.closed = false → x.world.FeedInv
  ended : x.state.closed = true → ∀ id, x.world.server.sessions.lookup id = none
  /-- nothing has passed with the client that connects next -/
  newcomer : transcript x.world.shared.nextClientId x.log = []

theorem reachable_sound {guard : History → Closing.Label → Prop}
    (h : (Closing.history J).Reach guard x) : Sound x where
  table := Closing.reachable_table h.unrecorded
  dialogue := Closing.reachable_dialogue h.unrecorded
  server := Closing.reachable_inv h.unrecorded
  wf := Closing.reachable_wf h.unrecorded
  feed hopen := WsWorld.reachable_feed (Closing.reachable_world h.unrecorded hopen)
  ended := Closing.reachable_ended h.unrecorded
  newcomer := reachable_unborn h _ (lookup_fresh (Closing.reachable_table h.unrecorded))

/-- The invariant rule for runs with a history. -/
theorem invariant {guard : History → Closing.Label → Prop} {P : History → Prop}
    (h : (Closing.history J).Reach guard x)
    (hinit : ∀ listener wakeup now, P (new listener wakeup now))
    (hstep : ∀ x l x', Sound x → P x → guard x l → Noted J x l x' → P x') : P x := by
  apply h.invariant_with (fun _ => reachable_sound)
  · rintro ⟨⟨world, closed⟩, log⟩ ⟨⟨⟨listener, wakeup, now, hworld⟩, hclosed⟩, hlog⟩
    cases hworld
    cases hclosed
    cases hlog
    exact hinit listener wakeup now
  · intro x l x' hsound hP hg hs
    exact hstep x l x' hsound hP hg (step_noted hsound.dialogue hs)

end History

end PtyDaemon
