import PtyDaemon.Server.GiveAway
import PtyDaemon.Server.Tenure
import PtyDaemon.Wire.Occurrences

/-!
# To whom a session is offered back

A release pushes `ResumeAttach` to the connection in `previous_owner_fd`. A takeover sets that
field; a release, and the loss of the connection, clear it. Where nobody attaches or leaves a
session while the field is set, the connection in it is the one that was displaced.
-/

namespace PtyDaemon

/-- The entry ends a tenure of `conn`: somebody got the session, or the client left it. -/
def TenureNote.ends (id : Uuid) (conn : Nat) : TenureNote → Bool
  | .held i _ => decide (i = id)
  | .left i c => decide (i = id ∧ c = conn)
  | _ => false

/-- The last to get the session was `conn`, and it has not left it. -/
def Holding (id : Uuid) (conn : Nat) (log : List TenureNote) : Prop :=
  ∃ newer older, log = newer ++ .held id conn :: older ∧ ∀ n ∈ newer, n.ends id conn = false

/-- The last to get the session was `conn`, from whom it was taken over; since then nobody got it,
and `conn` has not left it. -/
def Entitled (id : Uuid) (conn : Nat) (log : List TenureNote) : Prop :=
  ∃ newer older, log = newer ++ .displaced id conn :: older ∧
    (∀ n ∈ newer, n.ends id conn = false) ∧ Holding id conn older

/-- Whenever a session was offered, it was to a client entitled to it. -/
def Offers (log : List TenureNote) : Prop :=
  ∀ newer older id conn, log = newer ++ .offered id conn :: older → Entitled id conn older

section

variable {id : Uuid} {conn : Nat} {n : TenureNote} {log entries : List TenureNote}

private theorem Holding.cons (h : Holding id conn log) (hn : n.ends id conn = false) :
    Holding id conn (n :: log) := by
  obtain ⟨newer, older, rfl, hnewer⟩ := h
  refine ⟨n :: newer, older, rfl, fun m hm => ?_⟩
  rcases List.mem_cons.mp hm with rfl | hm
  · exact hn
  · exact hnewer m hm

private theorem Entitled.cons (h : Entitled id conn log) (hn : n.ends id conn = false) :
    Entitled id conn (n :: log) := by
  obtain ⟨newer, older, rfl, hnewer, hheld⟩ := h
  refine ⟨n :: newer, older, rfl, fun m hm => ?_, hheld⟩
  rcases List.mem_cons.mp hm with rfl | hm
  · exact hn
  · exact hnewer m hm

private theorem Holding.append (h : Holding id conn log)
    (hentries : ∀ n ∈ entries, n.ends id conn = false) : Holding id conn (entries ++ log) := by
  induction entries with
  | nil => exact h
  | cons n entries ih =>
    have hrest := ih fun m hm => hentries m (List.mem_cons_of_mem n hm)
    exact hrest.cons (hentries n List.mem_cons_self)

private theorem Entitled.append (h : Entitled id conn log)
    (hentries : ∀ n ∈ entries, n.ends id conn = false) : Entitled id conn (entries ++ log) := by
  induction entries with
  | nil => exact h
  | cons n entries ih =>
    have hrest := ih fun m hm => hentries m (List.mem_cons_of_mem n hm)
    exact hrest.cons (hentries n List.mem_cons_self)

private theorem Holding.displaced (h : Holding id conn log) :
    Entitled id conn (.displaced id conn :: log) :=
  ⟨[], log, rfl, fun _ h => (by cases h), h⟩

private theorem holding_held (id : Uuid) (conn : Nat) (log : List TenureNote) :
    Holding id conn (.held id conn :: log) := ⟨[], log, rfl, fun _ h => (by cases h)⟩

private theorem Offers.cons (h : Offers log)
    (hn : ∀ id conn, n = .offered id conn → Entitled id conn log) :
    Offers (n :: log) := by
  intro newer older id conn heq
  cases newer with
  | nil =>
    obtain ⟨rfl, rfl⟩ := List.cons.inj heq
    exact hn id conn rfl
  | cons m newer => exact h newer older id conn (List.cons.inj heq).2

end

namespace Server

variable {J : Codec} {σ σ' : Server} {m : Occurrence} {e : Event} {log : List TenureNote}

/-- A Detach is an entry of its own. -/
def leaving (σ : Server) : Occurrence → List TenureNote
  | .event (.request fd (.ok (.detach id _ _ _)) _ _) =>
    match σ.connOf fd with
    | some conn => [.left id conn]
    | none => []
  | _ => []

def tenureNotes (σ : Server) (m : Occurrence) (σ' : Server) : List TenureNote :=
  σ.leaving m ++ σ'.tenures.take (σ'.tenures.length - σ.tenures.length)

/-- The runs of the daemon with the history of its sessions. -/
def tenured (J : Codec) : Transition.System (Transition.Recorded Server TenureNote) Occurrence :=
  (occurrences J).record tenureNotes

/-- Nobody gets a session that somebody was displaced from, and who was displaced does not send a
Detach for it. -/
def RespectsDisplaced (x : Transition.Recorded Server TenureNote) : Occurrence → Prop
  | .event (.request _ (.ok (.attach id)) _ env) => x.state.grants env id →
    ∀ s, x.state.sessions.lookup id = some s → s.previousOwnerFd = none
  | .event (.request fd (.ok (.detach id _ _ _)) _ _) =>
    ∀ s fd', x.state.sessions.lookup id = some s → s.previousOwnerFd = some fd' →
      x.state.connOf fd' ≠ x.state.connOf fd
  | _ => True

/-- The history says of every tenure in force whose it is. -/
structure Documented (σ : Server) (log : List TenureNote) : Prop where
  inv : Inv σ
  vacant : ∀ {id s}, σ.sessions.lookup id = some s → s.state = .attached →
    s.previousOwnerFd = none
  holding : ∀ {id s fd conn}, σ.sessions.lookup id = some s → s.state = .attached →
    s.ownerFd = some fd → σ.connOf fd = some conn → Holding id conn log
  entitled : ∀ {id s fd conn}, σ.sessions.lookup id = some s → s.previousOwnerFd = some fd →
    σ.connOf fd = some conn → Entitled id conn log

private theorem tenureNotes_eq {entries : List TenureNote} (h : σ'.tenures = entries ++ σ.tenures) :
    tenureNotes σ m σ' = σ.leaving m ++ entries := by
  rw [tenureNotes, h, List.length_append, Nat.add_sub_cancel, List.take_left]

/-- What the history is to say of one session. -/
structure SessionDocumented (σ : Server) (log : List TenureNote) (id : Uuid) (t : Session) :
    Prop where
  vacant : t.state = .attached → t.previousOwnerFd = none
  holding : ∀ {fd conn}, t.state = .attached → t.ownerFd = some fd → σ.connOf fd = some conn →
    Holding id conn log
  entitled : ∀ {fd conn}, t.previousOwnerFd = some fd → σ.connOf fd = some conn →
    Entitled id conn log

namespace Documented

private theorem of_sessions (hinv : Inv σ)
    (h : ∀ {id t}, σ.sessions.lookup id = some t → SessionDocumented σ log id t) :
    Documented σ log :=
  ⟨hinv, fun ht => (h ht).vacant, fun ht => (h ht).holding, fun ht => (h ht).entitled⟩

/-- A session whose tenures have lapsed, when the entries made do not end any of them. -/
theorem lapsed (h : Documented σ log) {id : Uuid} {t : Session}
    (ht : Bare t ∨ ∃ s, σ.sessions.lookup id = some s ∧ Lapsed s t)
    (hconns : ∀ {fd conn}, σ'.connOf fd = some conn → σ.connOf fd = some conn)
    {entries : List TenureNote} (hentries : ∀ conn, ∀ n ∈ entries, n.ends id conn = false) :
    SessionDocumented σ' (entries ++ log) id t := by
  rcases ht with hbare | ⟨s, hs, hlapsed⟩
  · refine ⟨fun _ => hbare.2, fun hstate => absurd hstate hbare.1, fun hfd => ?_⟩
    rw [hbare.2] at hfd
    cases hfd
  · constructor
    · intro hstate
      exact hlapsed.none (h.vacant hs (hlapsed.state hstate).1)
    · intro fd conn hstate howner hconn
      obtain ⟨hattached, hsame⟩ := hlapsed.state hstate
      exact (h.holding hs hattached (hsame ▸ howner) (hconns hconn)).append (hentries conn)
    · intro fd conn hfd hconn
      exact (h.entitled hs (hlapsed.previous fd hfd) (hconns hconn)).append (hentries conn)

private theorem lapses (h : Documented σ log) (hinv : Inv σ') (hlapses : Lapses σ σ') :
    Documented σ' log := by
  apply of_sessions hinv
  intro id t ht
  have hnone : ∀ conn, ∀ n ∈ ([] : List TenureNote), n.ends id conn = false := fun _ _ h => by
    cases h
  exact h.lapsed (hlapses.sessions ht) hlapses.conns hnone

/-- One session gets entries, which end no tenure of another. -/
theorem passes (h : Documented σ log) (hinv : Inv σ') {id : Uuid} {Q : Session → Prop}
    {entries : List TenureNote} (hpasses : Passes id Q entries σ σ')
    (hentries : ∀ i, i ≠ id → ∀ conn, ∀ n ∈ entries, n.ends i conn = false)
    (htarget : ∀ t, Q t → SessionDocumented σ' (entries ++ log) id t) :
    Documented σ' (entries ++ log) := by
  apply of_sessions hinv
  intro i t ht
  by_cases hi : i = id
  · subst hi
    exact htarget t (hpasses.target ht)
  · exact h.lapsed (hpasses.others hi ht) hpasses.conns (hentries i hi)

/-- The rule for one event: the history goes on saying whose each tenure is, and offers are made to
those entitled. -/
theorem turnover {G : Uuid → Prop} (h : Documented σ log) (hinv : Inv σ')
    (hturn : Turnover G σ σ')
    (hG : ∀ id, G id → ∀ s, σ.sessions.lookup id = some s → s.previousOwnerFd = none) :
    ∃ entries, σ'.tenures = entries ++ σ.tenures ∧ Documented σ' (entries ++ log) ∧
      (Offers log → Offers (entries ++ log)) := by
  cases hturn with
  | lapses hlapses => exact ⟨[], hlapses.tenures, h.lapses hinv hlapses, fun h => h⟩
  | @attached id fd conn hid hconn hpasses =>
    refine ⟨_, hpasses.tenures, h.passes hinv hpasses ?_ ?_, fun ho => ?_⟩
    · intro i hi c n hn
      cases List.mem_singleton.mp hn
      exact decide_eq_false (Ne.symm hi)
    · rintro t ⟨howner, hprevious⟩
      -- by the guard nobody was displaced
      have hnone : ∀ x, t.previousOwnerFd ≠ some x := by
        intro x hx
        obtain ⟨s, hs, hsx⟩ := hprevious x hx
        rw [hG id hid s hs] at hsx
        cases hsx
      constructor
      · intro _
        exact Option.eq_none_iff_forall_ne_some.mpr hnone
      · intro x c hstate hx hc
        rw [howner hstate] at hx
        cases hx
        rw [hpasses.conns hc] at hconn
        cases hconn
        exact holding_held id _ log
      · intro x c hx _
        exact absurd hx (hnone x)
    · exact ho.cons fun _ _ h => by cases h
  | @taken id s fd conn hs hstate howner hconn hpasses =>
    refine ⟨_, hpasses.tenures, h.passes hinv hpasses ?_ ?_, fun ho => ?_⟩
    · intro i _ c n hn
      cases List.mem_singleton.mp hn
      rfl
    · rintro t ⟨hfree, hprevious⟩
      refine ⟨fun h => absurd h hfree, fun h => absurd h hfree, fun hx hc => ?_⟩
      cases hprevious _ hx
      rw [hpasses.conns hc] at hconn
      cases hconn
      exact (h.holding hs hstate howner (hpasses.conns hc)).displaced
    · exact ho.cons fun _ _ h => by cases h
  | @refused id s fd conn hs hprevious hconn hpasses =>
    refine ⟨_, hpasses.tenures, h.passes hinv hpasses ?_ ?_, fun ho => ?_⟩
    · intro i _ c n hn
      cases List.mem_singleton.mp hn
      rfl
    · rintro t ⟨hfree, hnone⟩
      refine ⟨fun _ => hnone, fun h => absurd h hfree, fun hx => ?_⟩
      rw [hnone] at hx
      cases hx
    · apply ho.cons
      intro i c heq
      cases heq
      exact h.entitled hs hprevious hconn
  | @returned id s fd conn hs hprevious hconn hpasses =>
    refine ⟨_, hpasses.tenures, h.passes hinv hpasses ?_ ?_, fun ho => ?_⟩
    · intro i hi c n hn
      rcases List.mem_cons.mp hn with rfl | hn
      · exact decide_eq_false (Ne.symm hi)
      · cases List.mem_singleton.mp hn
        rfl
    · rintro t ⟨howner, hnone⟩
      constructor
      · exact fun _ => hnone
      · intro x c hstate hx hc
        rw [howner hstate] at hx
        cases hx
        rw [hpasses.conns hc] at hconn
        cases hconn
        exact holding_held id _ _
      · intro x c hx
        rw [hnone] at hx
        cases hx
    · have hoffered : Offers (.offered id conn :: log) := by
        apply ho.cons
        intro i c heq
        cases heq
        exact h.entitled hs hprevious hconn
      exact hoffered.cons fun _ _ h => by cases h

end Documented

/-! ## Steps and runs -/

/-- A new connection is nobody's owner. -/
theorem Documented.accept (h : Documented σ log) {fd : RawFd} (hfree : σ.freeFd fd = true) :
    Documented (σ.acceptClient fd) log := by
  have hnone := (freeFd_iff.mp hfree).2
  have hconns : ∀ {x conn conn'}, σ.connOf x = some conn →
      (σ.acceptClient fd).connOf x = some conn' → conn = conn' := by
    intro x conn conn' hx hx'
    rw [connOf_acceptClient, if_neg (ne_of_free (h.inv.client hx) hnone), hx] at hx'
    exact Option.some.inj hx'
  apply Documented.of_sessions (h.inv.accept hfree)
  intro id t (ht : σ.sessions.lookup id = some t)
  have hok := h.inv.session (coreOf_eq_some ht)
  constructor
  · exact h.vacant ht
  · intro x conn hstate hx hconn
    obtain ⟨conn', hconn', _⟩ := hok.owner x hx
    cases hconns hconn' hconn
    exact h.holding ht hstate hx hconn'
  · intro x conn hx hconn
    obtain ⟨conn', hconn', _⟩ := hok.previous x hx
    cases hconns hconn' hconn
    exact h.entitled ht hx hconn'

private theorem serve_detach_lapses {env : Env} {fd : RawFd} {id : Uuid} {cols rows : UInt16}
    {snapshot : Option String} {consumed : Nat}
    (h : σ.serve J env fd (.ok (.detach id cols rows snapshot)) consumed = .ok σ') :
    Lapses σ σ' := by
  unfold serve at h
  obtain ⟨p, hp, rfl⟩ := ok_of_map h
  cases hp
  exact (handleDetach_lapses ..).trans ((answer_lapses ..).trans (passOn_lapses ..))

/-- A client that is not the displaced one leaves. -/
theorem Documented.left (h : Documented σ log) (hinv : Inv σ') (hlapses : Lapses σ σ') {id : Uuid}
    {conn : Nat} (hfree : ¬ σ'.attachedAt id)
    (hother : ∀ s fd, σ.sessions.lookup id = some s → s.previousOwnerFd = some fd →
      σ.connOf fd ≠ some conn) :
    Documented σ' (.left id conn :: log) := by
  have hlapsed := h.lapses hinv hlapses
  apply Documented.of_sessions hinv
  intro i t ht
  by_cases hi : i = id
  · subst hi
    have hstate : t.state ≠ .attached := fun hstate => hfree ⟨t, ht, hstate⟩
    refine ⟨fun h => absurd h hstate, fun h => absurd h hstate, fun {fd c} hfd hc => ?_⟩
    apply (hlapsed.entitled ht hfd hc).cons
    apply decide_eq_false
    rintro ⟨_, rfl⟩
    obtain ⟨s, hs, hprevious⟩ := hlapses.previous ht hfd
    exact hother s fd hs hprevious (hlapses.conns hc)
  · have hends : ∀ c, TenureNote.ends i c (.left id conn) = false := fun c =>
      decide_eq_false fun h => hi h.1.symm
    exact ⟨hlapsed.vacant ht, fun h ho hc => (hlapsed.holding ht h ho hc).cons (hends _),
      fun hfd hc => (hlapsed.entitled ht hfd hc).cons (hends _)⟩

/-- The joint invariant of the daemon and its history. -/
def TenureInv (x : Transition.Recorded Server TenureNote) : Prop :=
  Documented x.state x.log ∧ Offers x.log

/-- One occurrence. -/
theorem TenureInv.step {x x' : Transition.Recorded Server TenureNote} (h : TenureInv x)
    (hg : RespectsDisplaced x m) (hstep : (tenured J).step x m = some x') : TenureInv x' := by
  obtain ⟨hdoc, hoffers⟩ := h
  obtain ⟨hoccur, hlog⟩ := Transition.System.step_record hstep
  have hoccur : x.state.occur J m = some x'.state := hoccur
  have hinv' := occur_inv hoccur hdoc.inv
  -- what every case comes to: nobody leaves, and these are the entries
  have hfinish : ∀ entries, x.state.leaving m = [] →
      x'.state.tenures = entries ++ x.state.tenures →
      Documented x'.state (entries ++ x.log) → Offers (entries ++ x.log) → TenureInv x' := by
    intro entries hleaving hentries hdoc' hoffers'
    rw [tenureNotes_eq hentries, hleaving, List.nil_append] at hlog
    exact ⟨hlog ▸ hdoc', hlog ▸ hoffers'⟩
  rcases occur_cases hoccur with ⟨e, rfl, hevent⟩ | ⟨hother, haside, hsessions, htrace⟩
  · cases e with
    | accept fd =>
      obtain ⟨hstate, hfree⟩ := event_accept hevent
      refine hfinish [] rfl ?_ ?_ hoffers
      · rw [hstate]
        rfl
      · rw [hstate]
        exact hdoc.accept hfree
    | request fd result consumed env =>
      have hG : ∀ id, x.state.attaching (.request fd result consumed env) id →
          ∀ s, x.state.sessions.lookup id = some s → s.previousOwnerFd = none := by
        rintro id ⟨fd', consumed', env', heq, hgrants⟩
        cases heq
        exact hg hgrants
      obtain ⟨entries, hentries, hdoc', hoffers'⟩ :=
        hdoc.turnover hinv' (event_turnover hdoc.inv (fun _ h => by cases h) hevent) hG
      have hstay := hfinish entries
      cases result with
      | error message => exact hstay rfl hentries hdoc' (hoffers' hoffers)
      | ok request =>
        cases request with
        | detach id cols rows snapshot =>
          cases event_runs hevent with
          | request hclient _ hserve =>
            obtain ⟨conn, hconn⟩ := Option.isSome_iff_exists.mp hclient
            have hlapses := serve_detach_lapses hserve
            have hleft : tenureNotes x.state
                (.event (.request fd (.ok (.detach id cols rows snapshot)) consumed env))
                  x'.state = [.left id conn] := by
              have hnone : x'.state.tenures = [] ++ x.state.tenures := hlapses.tenures
              rw [tenureNotes_eq hnone, leaving, hconn]
              rfl
            rw [hleft] at hlog
            have hother : ∀ s fd', x.state.sessions.lookup id = some s →
                s.previousOwnerFd = some fd' → x.state.connOf fd' ≠ some conn := by
              intro s fd' hs hprevious
              rw [← hconn]
              exact hg s fd' hs hprevious
            have hdoc' := hdoc.left hinv' hlapses (serve_detach_frees hserve) hother
            exact ⟨hlog ▸ hdoc', hlog ▸ hoffers.cons fun _ _ h => by cases h⟩
        | _ => exact hstay rfl hentries hdoc' (hoffers' hoffers)
    | _ =>
      obtain ⟨entries, hentries, hdoc', hoffers'⟩ := hdoc.turnover hinv'
        (event_turnover hdoc.inv (fun _ h => by cases h) hevent) (by
          rintro id ⟨_, _, _, h, _⟩
          cases h)
      exact hfinish entries rfl hentries hdoc' (hoffers' hoffers)
  · have hlapses : Lapses x.state x'.state :=
      ⟨fun hs => .inr ⟨_, hsessions ▸ hs, .refl _⟩, fun hconn => haside.clients _ ▸ hconn,
        congrArg (List.filterMap Act.tenureNote) htrace⟩
    have hleaving : x.state.leaving m = [] := by
      cases m with
      | event e => exact absurd rfl (hother e)
      | _ => rfl
    exact hfinish [] hleaving hlapses.tenures (hdoc.lapses hinv' hlapses) hoffers

/-- In a run in which nobody attaches a session that somebody was displaced from, and no displaced
client sends a Detach for it, every session is offered to a client entitled to it. -/
theorem offered_to_displaced {x : Transition.Recorded Server TenureNote}
    (h : (tenured J).Reach RespectsDisplaced x) : Offers x.log := by
  have hinv : TenureInv x := by
    apply h.invariant
    · rintro x ⟨⟨listener, wakeup, now, hnew⟩, hlog⟩
      rw [TenureInv, hnew, hlog]
      refine ⟨⟨new_inv listener wakeup now, ?_, ?_, ?_⟩, ?_⟩
      · exact fun hs => by cases hs
      · exact fun hs => by cases hs
      · exact fun hs => by cases hs
      · intro newer older id conn heq
        cases newer <;> cases heq
    · intro x m x' hinv hg hstep
      exact hinv.step hg hstep
  exact hinv.2

/-! ## Two runs -/

/-- Going back from an offer to an entitled client, its displacement comes first. -/
theorem find_entitled {id : Uuid} {conn : Nat} (h : Entitled id conn log) :
    log.find? (fun n => n.ends id conn || n == .displaced id conn) =
      some (.displaced id conn) := by
  obtain ⟨newer, older, rfl, hnewer, _⟩ := h
  induction newer with
  | nil => simp
  | cons n newer ih =>
    have hn := hnewer n List.mem_cons_self
    have hrest := ih fun m hm => hnewer m (List.mem_cons_of_mem n hm)
    by_cases heq : n = .displaced id conn
    · simp [heq]
    · simpa [hn, heq] using hrest

/-- `RespectsDisplaced`, where no session is left by a Detach. -/
private def respects (x : Transition.Recorded Server TenureNote) : Occurrence → Bool
  | .event (.request _ (.ok (.attach id)) _ _) =>
    (x.state.sessions.lookup id).all fun s => decide (s.previousOwnerFd = none)
  | .event (.request _ (.ok (.detach ..)) _ _) => false
  | _ => true

private theorem respectsDisplaced {x : Transition.Recorded Server TenureNote}
    (h : respects x m = true) : RespectsDisplaced x m := by
  cases m with
  | event e =>
    cases e with
    | request fd result consumed env =>
      cases result with
      | error message => trivial
      | ok request =>
        cases request with
        | attach id =>
          intro _ s hs
          simpa [respects, hs] using h
        | detach id cols rows snapshot => cases h
        | _ => trivial
    | _ => trivial
  | _ => trivial

private def visit : WsCommand := .request 1 (.attach 7) 1

private def leave : WsCommand := .request 1 (.detach 7 80 24 none) 2

/-- A client owns session 7 until a WebSocket client visits it. -/
private def visited : List Occurrence :=
  [.event (.accept 5),
    .event (.request 5 (.ok (.create none 80 24 none none none)) 0 calm),
    .event (.request 5 (.ok (.attach 7)) 0 calmLater),
    .event (.command .new visit calmLater)]

private theorem start_tenured (J : Codec) : (tenured J).init ⟨new 3 none 0, []⟩ :=
  ⟨⟨3, none, 0, rfl⟩, rfl⟩

/-- The visitor leaves, and the session goes back. -/
theorem offered_to_displaced_back :
    ∃ x, (tenured acking).Reach RespectsDisplaced x ∧ Offers x.log ∧
      x.log = [.held 7 0, .offered 7 0, .displaced 7 0, .held 7 0] := by
  have hrun : ((tenured acking).execWhere (respects · · = true) ⟨new 3 none 0, []⟩
      (visited ++ [.event (.command .new leave calmLater)])).map (·.log) =
      some [.held 7 0, .offered 7 0, .displaced 7 0, .held 7 0] := by decide +kernel
  obtain ⟨x, hexec, hlog⟩ := Option.map_eq_some_iff.mp hrun
  have hreach := (Transition.System.Reach.start (start_tenured acking)).execWhere hexec
  have hreach : (tenured acking).Reach RespectsDisplaced x :=
    hreach.mono fun _ _ => respectsDisplaced
  exact ⟨x, hreach, offered_to_displaced hreach, hlog⟩

/-- During the visit another client has the session for a while; it goes back to the first. -/
theorem offered_to_superseded :
    (∃ x, (tenured acking).Reachable x ∧ ¬ Offers x.log) ∧
      ∃ σ, (loop acking).Reachable σ ∧ ¬ Offers σ.tenures := by
  have hnot : ¬ Offers [.held 7 0, .offered 7 0, .held 7 1, .displaced 7 0, .held 7 0] := by
    intro h
    have hfind := find_entitled (h [.held 7 0] _ 7 0 rfl)
    revert hfind
    decide
  constructor
  · have hrun : ((tenured acking).exec ⟨new 3 none 0, []⟩
        (visited ++ [.event (.accept 6), .event (.request 6 (.ok (.attach 7)) 0 calmLater),
          .event (.disconnect 6), .event (.command .new leave calmLater)])).map (·.log) =
        some [.held 7 0, .offered 7 0, .held 7 1, .displaced 7 0, .held 7 0] := by decide +kernel
    obtain ⟨x, hexec, hlog⟩ := Option.map_eq_some_iff.mp hrun
    have hstart : (tenured acking).Reachable ⟨new 3 none 0, []⟩ := .start (start_tenured acking)
    exact ⟨x, hstart.exec hexec, hlog ▸ hnot⟩
  · have hrun : ((loop acking).exec (new 3 none 0)
        [readable 3 [.stream 5] [] [],
          readable 5 [] (encodeMessage [0] ++ encodeMessage [1]) [calm, calmLater],
          { readable 3 [.stream 6] [] [] with commands := [(.new, visit, calmLater)] },
          readable 6 [] (encodeMessage [1]) [calmLater],
          { readable 3 [] [] [] with
            polled := .events [(⟨6, .read, true⟩, ⟨[], .closed, .failed, calm, []⟩)] },
          { readable 3 [] [] [] with commands := [(.new, leave, calmLater)] }]).map tenures =
        some [.held 7 0, .offered 7 0, .held 7 1, .displaced 7 0, .held 7 0] := by decide +kernel
    obtain ⟨σ, hexec, hlog⟩ := Option.map_eq_some_iff.mp hrun
    have hstart : (loop acking).Reachable (new 3 none 0) := .start ⟨3, none, 0, rfl⟩
    exact ⟨σ, hstart.exec hexec, hlog ▸ hnot⟩

end Server

end PtyDaemon
