import PtyDaemon.Server.Lives
import PtyDaemon.Server.Shared

/-!
# The cooldown after a release

A session that a WebSocket client has given back to its local owner is not taken again for two
seconds. A Detach of a WebSocket client looks at the time of the release; an Attach does not.
-/

namespace PtyDaemon

/-- The time at which an event is handled. -/
def Event.time : Event → Option Nat
  | .reap env | .command _ _ env | .request _ _ _ env | .childExit _ env | .output _ _ env =>
    some env.now
  | .accept _ | .disconnect _ => none

def Occurrence.time : Occurrence → Option Nat
  | .event e => e.time
  | _ => none

/-- The changes of hands with their times, newest first. -/
abbrev Hands := List (Nat × BatonNote)

/-- Nobody is asked to give up a session, and no session is taken, less than two seconds after the
session went back to its owner. -/
def Spaced (hands : Hands) : Prop :=
  hands.Pairwise fun later earlier => ∀ id, later.2 = .forced id ∨ later.2 = .taken id →
    earlier.2 = .returned id → earlier.1 + 2 * second ≤ later.1

/-- The daemon with a clock and the changes of hands so far. -/
structure Clocked where
  server : Server
  clock : Nat
  hands : Hands

namespace Server

variable {J : Codec} {σ σ' : Server} {id : Uuid} {s : Session} {m : Occurrence} {A : Allowed}

/-- The notes on changing hands that a step adds. -/
def newNotes (σ σ' : Server) : List BatonNote :=
  σ'.batonNotes.take (σ'.batonNotes.length - σ.batonNotes.length)

private theorem newNotes_eq {notes : List BatonNote} (h : σ'.batonNotes = notes ++ σ.batonNotes) :
    newNotes σ σ' = notes := by
  rw [newNotes, h, List.length_append, Nat.add_sub_cancel, List.take_left]

/-- No WebSocket client attaches a session that its owner has and got back less than two seconds
before. -/
def sparesReturned (σ : Server) : Occurrence → Bool
  | .event (.command _ (.request _ (.attach id) _) env) =>
    (σ.sessions.lookup id).all fun s => !(s.isAttached && s.inCooldown env.now)
  | _ => true

private theorem inCooldown_false {now r : Nat} (h : s.inCooldown now = false)
    (hr : s.batonReleaseAt = some r) : r + 2 * second ≤ now := by
  unfold Session.inCooldown at h
  rw [hr] at h
  have helapsed : ¬ now - r < 2 * second := of_decide_eq_false h
  have hpos : 0 < second := by decide
  omega

/-- Under the guard only sessions that have cooled down are taken. -/
theorem takesOver_cooled {clock r : Nat} (hspares : σ.sparesReturned m = true)
    (hs : σ.sessions.lookup id = some s) (hatt : s.isAttached = true)
    (htakes : m.takesOver id s = true) (hr : s.batonReleaseAt = some r) :
    r + 2 * second ≤ m.time.getD clock := by
  cases m with
  | event e =>
    cases e with
    | command shared cmd env =>
      show r + 2 * second ≤ env.now
      cases cmd with
      | request c request reply =>
        cases request with
        | attach i =>
          have hi : i = id := of_decide_eq_true htakes
          subst hi
          simp only [sparesReturned, hs, Option.all_some, hatt, Bool.true_and,
            Bool.not_eq_true'] at hspares
          exact inCooldown_false hspares hr
        | detach i cols rows snapshot =>
          simp only [Occurrence.takesOver, Event.takesOver, Bool.and_eq_true,
            Bool.not_eq_true'] at htakes
          exact inCooldown_false htakes.2 hr
        | _ => cases htakes
      | _ => cases htakes
    | _ => cases htakes
  | _ => cases htakes

/-- A step that creates a session gives none back. -/
theorem returns_created (h : m.created = some id) : m.returns = none := by
  cases m with
  | event e =>
    cases e with
    | command shared cmd env =>
      cases cmd with
      | request c request reply =>
        cases request with
        | detach i cols rows snapshot => cases h
        | _ => rfl
      | disconnected c => cases h
      | input i data => rfl
    | _ => rfl
  | _ => rfl

private theorem returns_time {t : Nat} (h : m.returns = some t) : m.time = some t := by
  cases m with
  | event e =>
    cases e with
    | command shared cmd env =>
      cases cmd with
      | request c request reply =>
        cases request with
        | detach i cols rows snapshot => exact h
        | _ => cases h
      | disconnected c => exact h
      | input i data => cases h
    | _ => cases h
  | _ => cases h

/-- What holds at the changes of one step, at time `now`. `known` are the sessions there ever were
before the step. -/
structure Cooling (known : Uuid → Prop) (m : Occurrence) (now : Nat) (σ : Server) (hands : Hands) :
    Prop where
  spaced : Spaced hands
  clock : ∀ p ∈ hands, p.1 ≤ now
  live : ∀ {id f}, σ.viewOf Session.fixture id = some f → known id ∨ m.created = some id
  known : ∀ {t id}, (t, .returned id) ∈ hands → known id
  back : ∀ {t id f}, (t, .returned id) ∈ hands → σ.viewOf Session.fixture id = some f →
    ∃ r, f.batonReleaseAt = some r ∧ t ≤ r

/-- What a step at time `now` may do. -/
def cooled (known : Uuid → Prop) (m : Occurrence) (now : Nat) : Allowed where
  creates _ id := m.created = some id ∧ ¬ known id
  takes f := ∀ r, f.batonReleaseAt = some r → r + 2 * second ≤ now
  releases t := m.returns = some t ∧ t = now

namespace Cooling

variable {known : Uuid → Prop} {now : Nat} {hands : Hands}

/-- The hands stay as they are, and the releases too. -/
theorem same (h : Cooling known m now σ hands)
    (hview : ∀ {i f}, σ'.viewOf Session.fixture i = some f →
      ∃ g, σ.viewOf Session.fixture i = some g ∧ f.batonReleaseAt = g.batonReleaseAt) :
    Cooling known m now σ' hands where
  spaced := h.spaced
  clock := h.clock
  live hf := by
    obtain ⟨g, hg, _⟩ := hview hf
    exact h.live hg
  known := h.known
  back ht hf := by
    obtain ⟨g, hg, hreleased⟩ := hview hf
    rw [hreleased]
    exact h.back ht hg

private theorem of_view (h : Cooling known m now σ hands)
    (hview : σ'.viewOf Session.fixture = σ.viewOf Session.fixture) :
    Cooling known m now σ' hands :=
  h.same fun hf => ⟨_, hview ▸ hf, rfl⟩

/-- One session is given another fixture with the same release. -/
theorem update (h : Cooling known m now σ hands) {f g : Fixture}
    (hf : σ.viewOf Session.fixture id = some f)
    (hview : ∀ i, σ'.viewOf Session.fixture i =
      if i = id then some g else σ.viewOf Session.fixture i)
    (hg : g.batonReleaseAt = f.batonReleaseAt) : Cooling known m now σ' hands := by
  apply h.same
  intro i k hk
  rcases changed_cases hview hk with ⟨rfl, hk⟩ | ⟨_, hk⟩
  · cases hk
    exact ⟨f, hf, hg⟩
  · exact ⟨k, hk, rfl⟩

private theorem created (h : Cooling known m now σ hands) {f : Fixture} (hid : m.created = some id)
    (hnew : ¬ known id) (hview : ∀ i, σ'.viewOf Session.fixture i =
      if i = id then some f else σ.viewOf Session.fixture i) : Cooling known m now σ' hands where
  spaced := h.spaced
  clock := h.clock
  live := by
    intro i k hk
    rcases changed_cases hview hk with ⟨rfl, _⟩ | ⟨_, hk⟩
    · exact .inr hid
    · exact h.live hk
  known := h.known
  back := by
    intro t i k ht hk
    rcases changed_cases hview hk with ⟨rfl, _⟩ | ⟨_, hk⟩
    · exact absurd (h.known ht) hnew
    · exact h.back ht hk

private theorem taken (h : Cooling known m now σ hands) {f : Fixture} {note : BatonNote}
    (hnote : note = .forced id ∨ note = .taken id) (hf : σ.viewOf Session.fixture id = some f)
    (hcool : ∀ r, f.batonReleaseAt = some r → r + 2 * second ≤ now)
    (hview : σ'.viewOf Session.fixture = σ.viewOf Session.fixture) :
    Cooling known m now σ' ((now, note) :: hands) := by
  have hold : ∀ {t i}, (t, BatonNote.returned i) ∈ (now, note) :: hands →
      (t, BatonNote.returned i) ∈ hands := by
    intro t i ht
    rcases List.mem_cons.mp ht with heq | ht
    · cases heq
      rcases hnote with hnote | hnote
      · cases hnote
      · cases hnote
    · exact ht
  have hview' := h.of_view hview
  constructor
  · apply List.Pairwise.cons _ h.spaced
    intro p hp i hi hback
    -- the session of the note is the one that is taken
    have hid : i = id := by
      rcases hnote with rfl | rfl <;> rcases hi with hi | hi <;> cases hi <;> rfl
    subst hid
    obtain ⟨r, hr, hle⟩ := h.back (t := p.1) (hback ▸ hp) hf
    exact (Nat.add_le_add_right hle _).trans (hcool r hr)
  · intro p hp
    rcases List.mem_cons.mp hp with rfl | hp
    · exact Nat.le_refl now
    · exact h.clock p hp
  · exact hview'.live
  · intro t i ht
    exact h.known (hold ht)
  · intro t i k ht hk
    exact hview'.back (hold ht) hk

private theorem returned (h : Cooling known m now σ hands) {f : Fixture}
    (hreturns : m.returns = some now)
    (hf : σ.viewOf Session.fixture id = some f)
    (hview : ∀ i, σ'.viewOf Session.fixture i =
      if i = id then some { f with batonReleaseAt := some now }
      else σ.viewOf Session.fixture i) :
    Cooling known m now σ' ((now, .returned id) :: hands) := by
  have hknown : known id := by
    rcases h.live hf with hknown | hcreated
    · exact hknown
    · rw [returns_created hcreated] at hreturns
      cases hreturns
  constructor
  · apply List.Pairwise.cons _ h.spaced
    intro p hp i hi
    rcases hi with hi | hi
    · cases hi
    · cases hi
  · intro p hp
    rcases List.mem_cons.mp hp with rfl | hp
    · exact Nat.le_refl now
    · exact h.clock p hp
  · intro i k hk
    rcases changed_cases hview hk with ⟨rfl, _⟩ | ⟨_, hk⟩
    · exact .inl hknown
    · exact h.live hk
  · intro t i ht
    rcases List.mem_cons.mp ht with heq | ht
    · cases heq
      exact hknown
    · exact h.known ht
  · intro t i k ht hk
    -- any return so far is no later than this one
    have htime : t ≤ now := by
      rcases List.mem_cons.mp ht with heq | ht
      · cases heq
        exact Nat.le_refl now
      · exact h.clock _ ht
    rcases changed_cases hview hk with ⟨_, hk⟩ | ⟨hi, hk⟩
    · cases hk
      exact ⟨now, rfl, htime⟩
    · rcases List.mem_cons.mp ht with heq | ht
      · cases heq
        exact absurd rfl hi
      · exact h.back ht hk

private theorem ended (h : Cooling known m now σ hands)
    (hview : ∀ i, σ'.viewOf Session.fixture i =
      if i = id then none else σ.viewOf Session.fixture i) : Cooling known m now σ' hands := by
  apply h.same
  intro i k hk
  rcases changed_cases hview hk with ⟨_, hk⟩ | ⟨_, hk⟩
  · cases hk
  · exact ⟨k, hk, rfl⟩

/-- One change adds the hands it notes. -/
theorem change (h : Cooling known m now σ hands) (hchange : Change (cooled known m now) σ σ') :
    ∃ notes, σ'.batonNotes = notes ++ σ.batonNotes ∧
      Cooling known m now σ' (notes.map (now, ·) ++ hands) := by
  cases hchange with
  | stays hstays => exact ⟨[], hstays.baton, h.of_view hstays.fixtures⟩
  | created hC hnone hid hpos hname hsize hview hshm hbaton =>
    exact ⟨[], hbaton, h.created hC.1 hC.2 hview⟩
  | ended hf hview hshm hbaton => exact ⟨[], hbaton, h.ended hview⟩
  | sized w hf hS hview hshm hbaton => exact ⟨[], hbaton, h.update hf hview rfl⟩
  | resized w hf hview hshm hbaton => exact ⟨[], hbaton, h.update hf hview rfl⟩
  | taken note hnote hf hT hview hshm hbaton => exact ⟨[note], hbaton, h.taken hnote hf hT hview⟩
  | ticked hview hshm hbaton => exact ⟨[], hbaton, h.of_view hview⟩
  | @returned id f t hf hR hview hshm hbaton =>
    obtain ⟨hreturns, rfl⟩ := hR
    exact ⟨[.returned id], hbaton, h.returned hreturns hf hview⟩

private theorem changes (h : Cooling known m now σ hands)
    (hchanges : Changes (cooled known m now) σ σ') :
    ∃ notes, σ'.batonNotes = notes ++ σ.batonNotes ∧
      Cooling known m now σ' (notes.map (now, ·) ++ hands) := by
  induction hchanges with
  | refl => exact ⟨[], rfl, h⟩
  | tail _ hchange ih =>
    obtain ⟨notes, hnotes, hcooling⟩ := ih
    obtain ⟨new, hnew, hcooling⟩ := hcooling.change hchange.1
    refine ⟨new ++ notes, ?_, ?_⟩
    · rw [hnew, hnotes, List.append_assoc]
    · rw [List.map_append, List.append_assoc]
      exact hcooling

end Cooling

/-! ## Runs with a clock -/

/-- A step of the daemon at a time that is not before the last one. -/
def clockedStep (J : Codec) (c : Clocked) (m : Occurrence) : Option Clocked :=
  let now := m.time.getD c.clock
  if c.clock ≤ now then
    (c.server.occur J m).map fun σ' =>
      ⟨σ', now, (newNotes c.server σ').map (now, ·) ++ c.hands⟩
  else none

/-- The runs of the daemon with a clock that does not go back. -/
def clocked (J : Codec) : Transition.System Clocked Occurrence where
  init c := ∃ listener wakeup now, c = ⟨Server.new listener wakeup now, now, []⟩
  step := clockedStep J

/-- What holds between two steps. -/
structure Cool (c : Clocked) : Prop where
  inv : Inv c.server
  spaced : Spaced c.hands
  clock : ∀ p ∈ c.hands, p.1 ≤ c.clock
  known : ∀ {t id}, (t, .returned id) ∈ c.hands → id ∈ c.server.ids
  back : ∀ {t id f}, (t, .returned id) ∈ c.hands → c.server.viewOf Session.fixture id = some f →
    ∃ r, f.batonReleaseAt = some r ∧ t ≤ r

private theorem Cool.cooling {c : Clocked} (h : Cool c) (m : Occurrence) {now : Nat}
    (hnow : c.clock ≤ now) : Cooling (· ∈ c.server.ids) m now c.server c.hands where
  spaced := h.spaced
  clock p hp := (h.clock p hp).trans hnow
  live hf := by
    obtain ⟨s, hs, _⟩ := Option.map_eq_some_iff.mp hf
    exact .inl (h.inv.session (coreOf_eq_some hs)).known
  known := h.known
  back := h.back

/-- A session is created under an id that has not been given out. -/
theorem occur_created (h : σ.occur J m = some σ') (hcreated : m.created = some id) :
    id ∉ σ.ids := by
  obtain ⟨e, env, _, _, _, _, _, _, fd, pid, ptsname, rfl, hrequest, hpty, rfl⟩ :=
    created_cases hcreated
  have hevent : σ.event J e = .ok σ' := ok_of_toOption h
  have hadmits : σ.admits env = true := by
    rcases Event.request?_cases hrequest with ⟨shared, c, reply, rfl⟩ | ⟨fd, consumed, rfl⟩
    · cases event_runs hevent with
      | command hadmits _ => exact hadmits
    · cases event_runs hevent with
      | request _ hadmits _ => exact hadmits
  simp only [admits, hpty, Bool.and_eq_true, Bool.not_eq_true'] at hadmits
  simpa using hadmits.2.2

private theorem occur_ids (hinv : Inv σ) (h : σ.occur J m = some σ') : σ.ids ⊆ σ'.ids := by
  rcases occur_cases h with ⟨e, _, hevent⟩ | ⟨_, haside, _⟩
  · exact (event_gone hinv hevent).1
  · rw [haside.ids]
    exact List.Subset.refl _

private theorem Cool.step {c c' : Clocked} (h : Cool c) (hspares : c.server.sparesReturned m = true)
    (hstep : clockedStep J c m = some c') : Cool c' := by
  unfold clockedStep at hstep
  dsimp only at hstep
  split at hstep
  · rename_i hclock
    obtain ⟨σ', hoccur, rfl⟩ := Option.map_eq_some_iff.mp hstep
    have hallows : (cooled (· ∈ c.server.ids) m (m.time.getD c.clock)).Allows c.server m := by
      constructor
      · intro id hcreated
        exact ⟨hcreated, occur_created hoccur hcreated⟩
      · intro id w hw s hs
        trivial
      · intro id s hs hatt htakes r hr
        exact takesOver_cooled hspares hs hatt htakes hr
      · intro t ht
        refine ⟨ht, ?_⟩
        rw [returns_time ht, Option.getD_some]
      · intro running idleSince hm
        trivial
    have hchanges := occurLive_changes h.inv.keyed hallows (occur_live h.inv hoccur)
    obtain ⟨notes, hnotes, hcooling⟩ := (h.cooling m hclock).changes hchanges
    rw [newNotes_eq hnotes]
    have hids := occur_ids h.inv hoccur
    exact ⟨occur_inv hoccur h.inv, hcooling.spaced, hcooling.clock,
      fun ht => hids (hcooling.known ht), hcooling.back⟩
  · cases hstep

/-- However WebSocket clients come and go: as long as none of them attaches a session that its
owner got back less than two seconds before, no session is demanded or taken that early. -/
theorem cooldown_respected {c : Clocked}
    (h : (clocked J).Reach (fun c m => c.server.sparesReturned m = true) c) :
    Spaced c.hands := by
  have hcool : Cool c := by
    apply h.invariant
    · rintro _ ⟨listener, wakeup, now, rfl⟩
      refine ⟨new_inv listener wakeup now, .nil, ?_, ?_, ?_⟩
      · intro p hp
        cases hp
      · intro t id ht
        cases ht
      · intro t id f ht
        cases ht
    · intro c m c' hcool hspares hstep
      exact hcool.step hspares hstep
  exact hcool.spaced

/-- Session 7 is attached, taken by a visitor and given back, all at time 0. -/
private def givenBack : List Occurrence :=
  [.event (.accept 5),
    .event (.request 5 (.ok (.create none 80 24 none none none)) 0 calm),
    .event (.request 5 (.ok (.attach 7)) 0 calmLater),
    .event (.command .new (.request 1 (.attach 7) 1) calmLater),
    .event (.command .new (.request 1 (.detach 7 0 0 none) 2) calmLater)]

/-- A Detach after one second leaves the session where it is; an Attach after two takes it. -/
theorem cooldown_respected_later :
    ∃ c, (clocked silent).Reach (fun c m => c.server.sparesReturned m = true) c ∧
      Spaced c.hands ∧ c.hands = [(2 * second, .taken 7), (2 * second, .forced 7),
        (0, .returned 7), (0, .taken 7), (0, .forced 7)] := by
  have hrun : (((clocked silent).execWhere (fun c m => c.server.sparesReturned m = true)
      ⟨Server.new 3 none 0, 0, []⟩ (givenBack ++
        [.event (.command .new (.request 2 (.detach 7 0 0 none) 3)
          { calmLater with now := second }),
        .event (.command .new (.request 2 (.attach 7) 4)
          { calmLater with now := 2 * second })])).map Clocked.hands) =
      some [(2 * second, .taken 7), (2 * second, .forced 7), (0, .returned 7), (0, .taken 7),
        (0, .forced 7)] := by decide +kernel
  obtain ⟨c, hexec, hhands⟩ := Option.map_eq_some_iff.mp hrun
  have hstart : (clocked silent).Reach (fun c m => c.server.sparesReturned m = true)
      ⟨Server.new 3 none 0, 0, []⟩ := .start ⟨3, none, 0, rfl⟩
  have hreach := hstart.execWhere hexec
  exact ⟨c, hreach, cooldown_respected hreach, hhands⟩

/-- An Attach of a WebSocket client takes the session one second after it went back. -/
theorem attach_in_cooldown :
    ∃ c, (clocked silent).Reachable c ∧ ¬ Spaced c.hands ∧
      c.hands = [(second, .taken 7), (second, .forced 7), (0, .returned 7), (0, .taken 7),
        (0, .forced 7)] := by
  have hrun : (((clocked silent).exec ⟨Server.new 3 none 0, 0, []⟩ (givenBack ++
      [.event (.command .new (.request 2 (.attach 7) 3) { calmLater with now := second })])).map
        Clocked.hands) = some [(second, .taken 7), (second, .forced 7), (0, .returned 7),
          (0, .taken 7), (0, .forced 7)] := by decide +kernel
  obtain ⟨c, hexec, hhands⟩ := Option.map_eq_some_iff.mp hrun
  have hstart : (clocked silent).Reachable ⟨Server.new 3 none 0, 0, []⟩ :=
    .start ⟨3, none, 0, rfl⟩
  refine ⟨c, hstart.exec hexec, ?_, hhands⟩
  intro hspaced
  rw [hhands] at hspaced
  have hmem : (0, BatonNote.returned 7) ∈
      [(second, .forced 7), (0, .returned 7), (0, .taken 7), (0, .forced 7)] := by simp
  have hlater := List.rel_of_pairwise_cons hspaced hmem
  exact absurd (hlater 7 (.inr rfl) rfl) (by decide)

end Server

end PtyDaemon
