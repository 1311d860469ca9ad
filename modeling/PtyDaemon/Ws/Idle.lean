import PtyDaemon.Server.Lives
import PtyDaemon.Ws.Tasks

/-!
# The idle exit

At the head of every turn, after the dead sessions have been reaped and the commands drained, the
loop looks whether anybody is there. When it has found nobody for a minute it stops. Of the
WebSocket clients it sees those that are attached to a session, not those that are only connected.
-/

namespace PtyDaemon

namespace Server

variable {J : Codec} {σ : Server}

/-- The idle check stops the loop. -/
def idleStops (σ : Server) (now : Nat) : Bool :=
  σ.deserted && σ.idleSince.any fun since => idleTimeout ≤ now - since

/-- The idle check of a turn. -/
def idleCheck (σ : Server) (now : Nat) : Server :=
  if σ.deserted then
    match σ.idleSince with
    | some since => if idleTimeout ≤ now - since then { σ with running := false } else σ
    | none => { σ with idleSince := some now }
  else { σ with idleSince := none }

/-- A turn reaps and drains, checks, and polls unless the check stops it. -/
theorem turn_eq (J : Codec) (σ : Server) (t : Turn) :
    σ.turn J t = ((σ.reapDead t.reap).drainWsCommands J t.commands).bind fun σ =>
      if σ.idleStops t.now then .ok (σ.idleCheck t.now)
      else (σ.idleCheck t.now).poll J t.polled := by
  unfold turn
  congr 1
  funext σ
  cases hdeserted : σ.deserted with
  | false => simp [idleStops, idleCheck, hdeserted]
  | true =>
    cases hsince : σ.idleSince with
    | none => simp [idleStops, idleCheck, hdeserted, hsince]
    | some since =>
      by_cases htime : idleTimeout ≤ t.now - since
      · simp [idleStops, idleCheck, hdeserted, hsince, htime]
      · simp [idleStops, idleCheck, hdeserted, hsince, htime]

/-- The check sets the loop's own fields only. -/
theorem idleCheck_tick (J : Codec) (σ : Server) (now : Nat) :
    σ.occur J (.tick (σ.idleCheck now).running (σ.idleCheck now).idleSince) =
      some (σ.idleCheck now) := by
  unfold idleCheck
  split
  · split
    · split <;> rfl
    · rfl
  · rfl

/-- A check at which nobody is there leaves a count that has begun as it is. -/
theorem idleCheck_since {now since : Nat} (hdeserted : σ.deserted = true)
    (hsince : σ.idleSince = some since) : (σ.idleCheck now).idleSince = some since := by
  simp only [idleCheck, hdeserted, hsince, if_true]
  split
  · rfl
  · exact hsince

end Server

/-- What there is at an idle check. -/
structure LoopHead where
  time : Nat
  sessions : Nat
  clients : Nat
  /-- connected WebSocket clients, attached to a session or not -/
  wsClients : Nat
  /-- what the check itself finds -/
  deserted : Bool
  deriving DecidableEq

def LoopHead.vacant (h : LoopHead) : Prop := h.sessions = 0 ∧ h.clients = 0 ∧ h.wsClients = 0

instance (h : LoopHead) : Decidable h.vacant := inferInstanceAs (Decidable (_ ∧ _ ∧ _))

/-- A WebSocket client is connected, and the check does not see it. -/
def LoopHead.overlooks (h : LoopHead) : Prop := h.deserted = true ∧ h.wsClients ≠ 0

/-- An exit at time `t` after the checks `heads`, newest first, comes after a minute in which nobody
was there; whoever was seen made the count begin again, at a later check. -/
structure TrulyIdle (heads : List LoopHead) (t : Nat) : Prop where
  vacant : ∀ h ∈ heads, t < h.time + idleTimeout → h.vacant
  restarts : ∀ newer h older, heads = newer ++ h :: older → ¬ h.vacant →
    ∃ g ∈ newer, g.time + idleTimeout ≤ t

/-- Whoever was overlooked was so before a later check that is a minute before `t`. -/
def OverlooksEarly (heads : List LoopHead) (t : Nat) : Prop :=
  ∀ newer h older, heads = newer ++ h :: older → h.overlooks →
    ∃ g ∈ newer, g.time + idleTimeout ≤ t

namespace WsWorld

/-- A client is connected while its task is in its loop. -/
def wsClients (w : WsWorld) : Nat :=
  (w.connections.values.filter fun conn => conn.task.inLoop).length

def head (w : WsWorld) (now : Nat) : LoopHead where
  time := now
  sessions := w.server.sessions.entries.length
  clients := w.server.clients.entries.length
  wsClients := w.wsClients
  deserted := w.server.deserted

def idleCheck (w : WsWorld) (now : Nat) : WsWorld :=
  { w with streams := { w.streams with server := w.server.idleCheck now } }

end WsWorld

/-- The daemon and its WebSocket clients with a clock, the idle checks so far, and the time of the
idle exit. -/
structure Idling where
  world : WsWorld
  clock : Nat
  heads : List LoopHead
  stopped : Option Nat

namespace Idling

inductive Label
  | world (l : WsWorld.Label)
  | check (now : Nat)

variable {J : Codec} {x x' : Idling} {l : Label}

def check (x : Idling) (now : Nat) : Idling where
  world := x.world.idleCheck now
  clock := now
  heads := x.world.head now :: x.heads
  stopped := if x.world.server.idleStops now then some now else none

/-- Once the loop has stopped, only the tasks go on. -/
def step (J : Codec) (x : Idling) : Label → Option Idling
  | .world l =>
    if x.stopped.isSome && l.ofDaemon then none
    else (WsWorld.step J x.world l).map fun w => { x with world := w }
  | .check now => if x.stopped = none ∧ x.clock ≤ now then some (x.check now) else none

def system (J : Codec) : Transition.System Idling Label where
  init x := ∃ listener wakeup now, x = ⟨WsWorld.new listener wakeup now, now, [], none⟩
  step := step J

/-- Where the check finds the daemon deserted, no WebSocket client is connected. -/
def seesConnected (x : Idling) : Label → Bool
  | .check _ => !x.world.server.deserted || x.world.wsClients == 0
  | .world _ => true

/-! ## The count -/

/-- The count began at `since`: no check has seen anybody since then. -/
def Counted (since : Nat) (heads : List LoopHead) : Prop :=
  ∃ quiet older, heads = quiet ++ older ∧ (∀ h ∈ quiet, h.deserted = true) ∧
    (∀ h ∈ older, h.time ≤ since) ∧ (older = [] ∨ ∃ g ∈ quiet, g.time = since)

private theorem Counted.cons {since : Nat} {heads : List LoopHead} (h : Counted since heads)
    {g : LoopHead} (hg : g.deserted = true) : Counted since (g :: heads) := by
  obtain ⟨quiet, older, rfl, hquiet, holder, hstart⟩ := h
  refine ⟨g :: quiet, older, rfl, ?_, holder, ?_⟩
  · intro k hk
    rcases List.mem_cons.mp hk with rfl | hk
    · exact hg
    · exact hquiet k hk
  · rcases hstart with hnil | ⟨k, hk, htime⟩
    · exact .inl hnil
    · exact .inr ⟨k, List.mem_cons_of_mem g hk, htime⟩

private theorem seen_before {quiet older newer rest : List LoopHead} {h : LoopHead}
    (hquiet : ∀ k ∈ quiet, k.deserted = true) (hh : ¬ h.deserted = true)
    (heq : quiet ++ older = newer ++ h :: rest) : quiet ⊆ newer ∧ h ∈ older := by
  induction quiet generalizing newer with
  | nil =>
    rw [List.nil_append] at heq
    rw [heq]
    exact ⟨List.nil_subset newer, by simp⟩
  | cons q quiet ih =>
    cases newer with
    | nil =>
      obtain ⟨rfl, _⟩ := List.cons.inj heq
      exact absurd (hquiet q List.mem_cons_self) hh
    | cons n newer =>
      obtain ⟨rfl, hrest⟩ := List.cons.inj heq
      obtain ⟨hsub, hmem⟩ := ih (fun k hk => hquiet k (List.mem_cons_of_mem q hk)) hrest
      exact ⟨List.cons_subset_cons q hsub, hmem⟩

/-- The checks, newest first: their times do not go back, and where one finds nobody there is no
session and no local client. -/
structure Checks (heads : List LoopHead) : Prop where
  sorted : heads.Pairwise fun later earlier => earlier.time ≤ later.time
  sees : ∀ h ∈ heads, h.deserted = true → h.sessions = 0 ∧ h.clients = 0

private theorem Checks.vacant {heads : List LoopHead} (h : Checks heads) {g : LoopHead}
    (hg : g ∈ heads)
    (hdeserted : g.deserted = true) (hnot : ¬ g.overlooks) : g.vacant := by
  obtain ⟨hsessions, hclients⟩ := h.sees g hg hdeserted
  refine ⟨hsessions, hclients, ?_⟩
  by_contra hws
  exact hnot ⟨hdeserted, hws⟩

private theorem overlooks_seen {h : LoopHead} (hover : h.overlooks) : ¬ h.vacant := fun hvacant =>
  hover.2 hvacant.2.2

/-- A count that has come to a minute was one of true idleness exactly if nobody was overlooked
during it. -/
theorem Counted.trulyIdle_iff {since t : Nat} {heads : List LoopHead} (h : Counted since heads)
    (hchecks : Checks heads) (ht : since + idleTimeout ≤ t) :
    TrulyIdle heads t ↔ OverlooksEarly heads t := by
  obtain ⟨quiet, older, rfl, hquiet, holder, hstart⟩ := h
  constructor
  · intro hidle newer h rest heq hover
    exact hidle.restarts newer h rest heq (overlooks_seen hover)
  · intro hearly
    constructor
    · intro h hh hlate
      rcases List.mem_append.mp hh with hmem | hmem
      · apply hchecks.vacant hh (hquiet h hmem)
        intro hover
        obtain ⟨newer, rest, heq⟩ := List.append_of_mem hh
        obtain ⟨g, hg, htime⟩ := hearly newer h rest heq hover
        -- the later check is no earlier
        have hsorted := hchecks.sorted
        rw [heq, List.pairwise_append] at hsorted
        have hle := hsorted.2.2 g hg h List.mem_cons_self
        omega
      · have hbefore := holder h hmem
        omega
    · intro newer h rest heq hseen
      by_cases hdeserted : h.deserted = true
      · have hh : h ∈ quiet ++ older := by rw [heq]; simp
        apply hearly newer h rest heq
        by_contra hnot
        exact hseen (hchecks.vacant hh hdeserted hnot)
      · obtain ⟨hsub, hmem⟩ := seen_before hquiet hdeserted heq
        rcases hstart with rfl | ⟨g, hg, rfl⟩
        · cases hmem
        · exact ⟨g, hsub hg, ht⟩

/-- What holds as long as the loop runs, and how it stops. -/
structure Counting (x : Idling) : Prop where
  ring : Streams.RingInv x.world.streams
  clock : ∀ h ∈ x.heads, h.time ≤ x.clock
  checks : Checks x.heads
  count : ∀ since, x.world.server.idleSince = some since → Counted since x.heads
  stopped : ∀ t, x.stopped = some t → ∃ since, Counted since x.heads ∧ since + idleTimeout ≤ t

/-- Nothing but the idle check touches the idle time. -/
theorem stepped_idle {w w' : WsWorld} (hinv : Server.Inv w.server) (h : WsWorld.Stepped J w w') :
    w'.server.idleSince = w.server.idleSince := by
  cases h with
  | accept => rfl
  | task hconn hdid => rfl
  | drain hqueue hevent => exact Server.event_idle hinv hevent
  | daemon harrive hevent => exact Server.event_idle hinv hevent
  | clientRead hs => rfl

private theorem Counting.world (h : Counting x) {l : WsWorld.Label} {w : WsWorld}
    (hstep : WsWorld.step J x.world l = some w) : Counting { x with world := w } where
  ring := (WsWorld.step_stepped hstep).ring h.ring
  clock := h.clock
  checks := h.checks
  count := by
    intro since hsince
    have hidle := stepped_idle h.ring.server (WsWorld.step_stepped hstep)
    exact h.count since (hidle.symm.trans hsince)
  stopped := h.stopped

private theorem head_sees {w : WsWorld} (hdeserted : w.server.deserted = true) (now : Nat) :
    (w.head now).sessions = 0 ∧ (w.head now).clients = 0 := by
  simp only [Server.deserted, Bool.and_eq_true, List.isEmpty_iff] at hdeserted
  simp [WsWorld.head, hdeserted.1.1, hdeserted.1.2]

private theorem idleCheck_ring {w : WsWorld} (J : Codec) (hring : Streams.RingInv w.streams)
    (now : Nat) :
    Streams.RingInv (w.idleCheck now).streams := by
  have htick := Server.idleCheck_tick J w.server now
  rcases Server.occur_cases htick with ⟨e, he, _⟩ | ⟨_, haside, hsessions, _⟩
  · cases he
  · refine ⟨Server.occur_inv htick hring.server, ?_, ?_⟩
    · intro id hid
      apply hring.unborn
      intro hold
      exact hid (haside.ids.symm ▸ hold)
    · intro id c hc
      apply hring.ring
      exact (congrArg (fun t : Table Uuid Session => (t.lookup id).map Session.core)
        hsessions).symm.trans hc

private theorem Counting.check (J : Codec) (h : Counting x) {now : Nat} (hnow : x.clock ≤ now) :
    Counting (x.check now) := by
  have hclock : ∀ h ∈ (x.check now).heads, h.time ≤ now := by
    intro g hg
    rcases List.mem_cons.mp hg with rfl | hg
    · exact Nat.le_refl now
    · exact (h.clock g hg).trans hnow
  have hchecks : Checks (x.check now).heads := by
    constructor
    · exact List.pairwise_cons.mpr ⟨fun g hg => (h.clock g hg).trans hnow, h.checks.sorted⟩
    · intro g hg hdeserted
      rcases List.mem_cons.mp hg with rfl | hg
      · exact head_sees hdeserted now
      · exact h.checks.sees g hg hdeserted
  refine ⟨idleCheck_ring J h.ring now, hclock, hchecks, ?_, ?_⟩
  · intro since hsince
    have hsince : (x.world.server.idleCheck now).idleSince = some since := hsince
    cases hdeserted : x.world.server.deserted with
    | true =>
      have hhead : (x.world.head now).deserted = true := hdeserted
      cases hcount : x.world.server.idleSince with
      | some old =>
        rw [Server.idleCheck_since hdeserted hcount] at hsince
        rw [← Option.some.inj hsince]
        exact (h.count old hcount).cons hhead
      | none =>
        -- the count begins at this check
        simp only [Server.idleCheck, hdeserted, hcount, if_true] at hsince
        cases hsince
        refine ⟨[x.world.head now], x.heads, rfl, ?_, ?_, .inr ⟨_, List.mem_cons_self, rfl⟩⟩
        · intro g hg
          rw [List.mem_singleton.mp hg]
          exact hhead
        · intro g hg
          exact (h.clock g hg).trans hnow
    | false =>
      simp [Server.idleCheck, hdeserted] at hsince
  · intro t ht
    simp only [Idling.check] at ht
    split at ht
    · rename_i hstops
      cases ht
      rw [Server.idleStops, Bool.and_eq_true] at hstops
      obtain ⟨since, hsince, helapsed⟩ := (Option.any_eq_true _ _).mp hstops.2
      have htime : idleTimeout ≤ now - since := of_decide_eq_true helapsed
      have hpos : 0 < idleTimeout := by decide
      exact ⟨since, (h.count since hsince).cons hstops.1, by omega⟩
    · cases ht

private theorem Counting.step (h : Counting x) (hstep : step J x l = some x') : Counting x' := by
  cases l with
  | world l =>
    simp only [Idling.step] at hstep
    split at hstep
    · cases hstep
    · obtain ⟨w, hw, rfl⟩ := Option.map_eq_some_iff.mp hstep
      exact h.world hw
  | check now =>
    simp only [Idling.step] at hstep
    split at hstep
    · rename_i hcond
      cases hstep
      exact h.check J hcond.2
    · cases hstep

private theorem reachable_counting (h : (system J).Reachable x) : Counting x := by
  apply h.invariant
  · rintro _ ⟨listener, wakeup, now, rfl⟩
    refine ⟨.start listener wakeup now, ?_, ⟨.nil, ?_⟩, ?_, ?_⟩
    · intro g hg
      cases hg
    · intro g hg
      cases hg
    · intro since hsince
      refine ⟨[], [], rfl, ?_, ?_, .inl rfl⟩
      · intro g hg
        cases hg
      · intro g hg
        cases hg
    · intro t ht
      cases ht
  · intro x l x' hcounting _ hstep
    exact hcounting.step hstep

/-- Where every check sees who is connected, nobody is overlooked. -/
theorem reach_sees (h : (system J).Reach (fun x l => x.seesConnected l = true) x) :
    ∀ g ∈ x.heads, ¬ g.overlooks := by
  apply h.invariant
  · rintro _ ⟨listener, wakeup, now, rfl⟩ g hg
    cases hg
  · intro x l x' hnone hsees hstep
    cases l with
    | world l =>
      simp only [system, Idling.step] at hstep
      split at hstep
      · cases hstep
      · obtain ⟨w, hw, rfl⟩ := Option.map_eq_some_iff.mp hstep
        exact hnone
    | check now =>
      simp only [system, Idling.step] at hstep
      split at hstep
      · cases hstep
        intro g hg
        rcases List.mem_cons.mp hg with rfl | hg
        · rintro ⟨hdeserted, hws⟩
          have hdeserted : x.world.server.deserted = true := hdeserted
          have hzero : x.world.wsClients = 0 := by simpa [seesConnected, hdeserted] using hsees
          exact hws hzero
        · exact hnone g hg
      · cases hstep

/-- However sessions and clients of both kinds come and go: the idle exit comes after a minute in
which nobody was there exactly if no check of that minute overlooked a WebSocket client that was
connected; and so it does as long as no check overlooks one. -/
theorem idle_exit_after_idle_minute (J : Codec) :
    (∀ x, (system J).Reachable x → ∀ t, x.stopped = some t →
      (TrulyIdle x.heads t ↔ OverlooksEarly x.heads t)) ∧
    ∀ x, (system J).Reach (fun x l => x.seesConnected l = true) x →
      ∀ t, x.stopped = some t → TrulyIdle x.heads t := by
  have hexact : ∀ x, (system J).Reachable x → ∀ t, x.stopped = some t →
      (TrulyIdle x.heads t ↔ OverlooksEarly x.heads t) := by
    intro x h t ht
    have hcounting := reachable_counting h
    obtain ⟨since, hcount, hminute⟩ := hcounting.stopped t ht
    exact hcount.trulyIdle_iff hcounting.checks hminute
  refine ⟨hexact, fun x h t ht => ?_⟩
  apply (hexact x h.reachable t ht).mpr
  intro newer g older heq hover
  have hg : g ∈ x.heads := by rw [heq]; simp
  exact absurd hover (reach_sees h g hg)

open Server (silent)

/-- One check a second. -/
private def checks (first count : Nat) : List Label :=
  (List.range count).map fun i => .check ((first + i) * second)

/-- A client is there until the third check; the exit comes a minute after the fourth. -/
theorem idle_exit_after_idle_minute_left :
    ∃ x, (system silent).Reach (fun x l => x.seesConnected l = true) x ∧
      x.stopped = some (63 * second) ∧ TrulyIdle x.heads (63 * second) := by
  have hrun : ((system silent).execWhere (fun x l => x.seesConnected l = true)
      ⟨WsWorld.new 3 none 0, 0, [], none⟩
      ([.world (.daemon (.accept 5))] ++ checks 0 3 ++ [.world (.daemon (.disconnect 5))] ++
        checks 3 61)).map Idling.stopped = some (some (63 * second)) := by decide +kernel
  obtain ⟨x, hexec, hstopped⟩ := Option.map_eq_some_iff.mp hrun
  have hstart : (system silent).Reach (fun x l => x.seesConnected l = true)
      ⟨WsWorld.new 3 none 0, 0, [], none⟩ := .start ⟨3, none, 0, rfl⟩
  have hreach := hstart.execWhere hexec
  exact ⟨x, hreach, hstopped, (idle_exit_after_idle_minute silent).2 x hreach _ hstopped⟩

/-- A WebSocket client is connected all the time, without a session; the loop stops after a
minute. -/
theorem exit_while_connected :
    ∃ x, (system silent).Reachable x ∧ x.stopped = some (60 * second) ∧
      ¬ TrulyIdle x.heads (60 * second) ∧ ∀ h ∈ x.heads, h.wsClients = 1 := by
  have hrun : ((system silent).exec ⟨WsWorld.new 3 none 0, 0, [], none⟩
      ([.world .accept] ++ checks 0 61)).map (fun x =>
        (x.stopped, x.heads.map LoopHead.wsClients, x.heads.head?)) =
      some (some (60 * second), List.replicate 61 1, some ⟨60 * second, 0, 0, 1, true⟩) := by
    decide +kernel
  obtain ⟨x, hexec, hx⟩ := Option.map_eq_some_iff.mp hrun
  simp only [Prod.mk.injEq] at hx
  obtain ⟨hstopped, hclients, hlast⟩ := hx
  have hstart : (system silent).Reachable ⟨WsWorld.new 3 none 0, 0, [], none⟩ :=
    .start ⟨3, none, 0, rfl⟩
  have hconnected : ∀ h ∈ x.heads, h.wsClients = 1 := by
    intro h hh
    have hmem : h.wsClients ∈ List.replicate 61 1 := hclients ▸ List.mem_map_of_mem hh
    exact List.eq_of_mem_replicate hmem
  refine ⟨x, hstart.exec hexec, hstopped, ?_, hconnected⟩
  intro hidle
  have hvacant := hidle.vacant _ (List.mem_of_head? hlast) (by decide)
  exact absurd hvacant.2.2 (by decide)

end Idling

end PtyDaemon
