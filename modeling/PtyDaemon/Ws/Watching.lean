import PtyDaemon.Server.GiveAway
import PtyDaemon.Ws.History

/-!
# Watched sessions

A client watches every session it has been given access to, until it detaches that session or is cut
off. As long as no session is given away under the eyes of a client, the daemon reads what its
clients watch.
-/

namespace PtyDaemon

/-- An `AttachReady` for the session has been sent, and since then the client has neither detached
the session nor been cut off. -/
def watching (sid : Uuid) : List WsExchange → Bool
  | [] => false
  | .said (.detach i _ _ _) :: es => decide (i ≠ sid) && watching sid es
  | .sent (.text response) :: es => decide (response.granted = some sid) || watching sid es
  | .left :: _ => false
  | _ :: es => watching sid es

private theorem watching_texts {sid : Uuid} {responses : List Response}
    (h : ∀ response ∈ responses, response.granted = none) (es : List WsExchange) :
    watching sid ((responses.map fun response => .sent (.text response)) ++ es) =
      watching sid es := by
  induction responses with
  | nil => rfl
  | cons response responses ih =>
    simp only [List.map_cons, List.cons_append, watching, h response List.mem_cons_self]
    rw [ih fun response hmem => h response (List.mem_cons_of_mem _ hmem)]
    simp

private theorem watching_said {sid : Uuid} (request : Request) (es : List WsExchange)
    (h : watching sid (.said request :: es) = true) : watching sid es = true := by
  cases request with
  | detach i cols rows snapshot => exact (Bool.and_eq_true_iff.mp h).2
  | _ => exact h

namespace WsConnection

/-- What client `c` watches; an `AttachReady` counts from the moment the daemon has answered. -/
def watches (conn : WsConnection) (es : List WsExchange) (sid : Uuid) : Bool :=
  decide (conn.granted = some sid) || watching sid es

private theorem watches_iff {conn : WsConnection} {es : List WsExchange} {sid : Uuid} :
    conn.watches es sid = true ↔ conn.granted = some sid ∨ watching sid es = true := by
  simp [watches]

variable {t t' : WsSharedState} {c : Nat} {conn conn' : WsConnection} {cmd : Option WsCommand}
  {es es' : List WsExchange} {sid : Uuid}

/-- Watching begins with an answer of the daemon, not with a step of the task. -/
theorem Exchanged.watches (h : conn.Exchanged t c t' conn' cmd es')
    (hw : conn'.watches (es' ++ es) sid = true) : conn.watches es sid = true := by
  rw [watches_iff, h.granted, or_iff_right nofun] at hw
  rw [watches_iff]
  cases h with
  | plain _ _ _ _ hnone =>
    rw [watching_texts hnone] at hw
    exact .inr hw
  | said _ _ => exact .inr (watching_said _ es hw)
  | detached _ _ _ _ _ => exact .inr (watching_said _ es hw)
  | subscribed htask hgranted _ _ _ =>
    rcases Bool.or_eq_true_iff.mp hw with hsent | hw
    · have hsid := hgranted.symm.trans (of_decide_eq_true hsent)
      exact .inl (granted_eq_some.mpr ⟨_, _, _, htask, hgranted.trans hsid⟩)
    · exact .inr hw
  | left _ _ _ _ => cases hw
  | _ => exact .inr hw

end WsConnection

namespace Closing

/-- The event in which the daemon takes the step. -/
def Label.event (x : Closing) : Label → Option Event
  | .world (.daemon e) => some e
  | .world (.drain env) => x.world.queue.head?.map fun cmd => .command x.world.shared cmd env
  | _ => none

end Closing

private theorem Streams.clientRead_attachedAt {w : Streams} {id : Uuid} {s : Session}
    (hs : w.server.sessions.lookup id = some s) (data : List UInt8) (i : Uuid) :
    (w.clientRead id s data).server.attachedAt i ↔ w.server.attachedAt i := by
  have hstate := clientRead_map Session.state (fun _ _ => rfl) hs data i
  rw [Server.attachedAt, Server.attachedAt, ← Option.map_eq_some_iff, hstate,
    Option.map_eq_some_iff]

namespace History

variable {J : Codec} {x x' : History} {l : Closing.Label}

def watches (x : History) (c : Nat) (sid : Uuid) : Bool :=
  (x.world.connections.lookup c).any fun conn => conn.watches (transcript c x.log) sid

private theorem watches_iff {c : Nat} {sid : Uuid} :
    x.watches c sid = true ↔ ∃ conn, x.world.connections.lookup c = some conn ∧
      conn.watches (transcript c x.log) sid = true := by
  rw [watches, Option.any_eq_true]

/-- The session the step gives away is watched by no client. -/
def Sparing (x : History) (l : Closing.Label) : Prop :=
  ∀ e ∈ l.event x.state, ∀ sid ∈ x.world.server.givesAway e, ∀ c ∈ x.world.connections.keys,
    x.watches c sid = false

instance (x : History) (l : Closing.Label) : Decidable (Sparing x l) :=
  haveI (e : Event) : Decidable (∀ sid ∈ x.world.server.givesAway e,
      ∀ c ∈ x.world.connections.keys, x.watches c sid = false) := Option.decidableForallMem _
  Option.decidableForallMem _

/-- The daemon keeps what is watched. -/
structure Keeping (x : History) : Prop where
  free : ∀ {c sid}, x.watches c sid = true → ¬ x.world.server.attachedAt sid
  known : x.state.closed = false → ∀ {c sid}, x.watches c sid = true → sid ∈ x.world.server.ids

private theorem Keeping.event (hsound : Sound x) (h : Keeping x) (hg : Sparing x l) {e : Event}
    {σ' : Server} (hopen : x.state.closed = false) (hlabel : l.event x.state = some e)
    (hevent : x.world.server.event J e = .ok σ')
    (hleft : ∀ {shared c env}, e = .command shared (.disconnected c) env →
      shared.clientSessions.lookup c = none) {c : Nat} {sid : Uuid}
    (hw : x.watches c sid = true) : ¬ σ'.attachedAt sid ∧ sid ∈ σ'.ids := by
  have hinv := hsound.server hopen
  have hid := h.known hopen hw
  refine ⟨fun hatt => ?_, (Server.event_gone hinv hevent).1 hid⟩
  have hgives := Server.event_gives hinv hevent hid hleft (h.free hw) hatt
  obtain ⟨conn, hconn, _⟩ := watches_iff.mp hw
  have hkey : c ∈ x.world.connections.keys :=
    AList.mem_keys.mp (AList.lookup_isSome.mp (hconn ▸ rfl))
  cases hw.symm.trans (hg e hlabel sid hgives c hkey)

private theorem granted_free (hsound : Sound x) (hopen : x.state.closed = false)
    {client reply : Nat} {request : Request} {response : Response} {sid : Uuid} {env : Env}
    {σ' : Server}
    (hevent : x.world.server.event J
      (.command x.world.shared (.request client request reply) env) = .ok σ')
    (hreply : WsWorld.lastReply σ' = some response) (hgranted : response.granted = some sid) :
    ¬ σ'.attachedAt sid ∧ sid ∈ σ'.ids := by
  have hinv := hsound.server hopen
  have hids := (Server.event_gone hinv hevent).1
  obtain ⟨_, p, hp, hready, rfl⟩ := Server.event_granted hevent hreply hgranted
  obtain ⟨_, _, _, _, _, hready⟩ := Response.attachReady_of_granted hready
  refine ⟨Server.handleWsAttach_frees hp, hids ?_⟩
  exact Server.handleWsAttach_known (hinv.withShared _) hp hready

private theorem Keeping.step (hsound : Sound x) (h : Keeping x) (hg : Sparing x l)
    (hnoted : Noted J x l x') : Keeping x' := by
  cases hnoted with
  | accept =>
    have hold : ∀ {c sid}, watches ⟨{ x.state with world := x.world.accept }, x.log⟩ c sid = true →
        x.watches c sid = true := by
      intro c sid hw
      obtain ⟨conn, hconn, hw⟩ := watches_iff.mp hw
      rcases WsWorld.lookup_accept hconn with ⟨rfl, rfl⟩ | hconn
      · rw [hsound.newcomer] at hw
        cases hw
      · exact watches_iff.mpr ⟨conn, hconn, hw⟩
    exact ⟨fun hw => h.free (hold hw), fun hopen _ _ hw => h.known hopen (hold hw)⟩
  | @task c s conn conn' t cmd es hconn _ _ hex =>
    have hold : ∀ {i sid}, watches ⟨{ x.state with
        world := { x.world.withShared t with
          connections := x.world.connections.insert c conn'
          queue := x.world.queue ++ cmd.toList } }, es.map (.client c) ++ x.log⟩ i sid = true →
        x.watches i sid = true := by
      intro i sid hw
      obtain ⟨conn₁, hconn₁, hw⟩ := watches_iff.mp hw
      rcases lookup_exchanged es x.log hconn₁ with ⟨rfl, rfl, hlog⟩ | ⟨_, hconn₁, hlog⟩
      · rw [hlog] at hw
        exact watches_iff.mpr ⟨conn, hconn, hex.watches hw⟩
      · rw [hlog] at hw
        exact watches_iff.mpr ⟨conn₁, hconn₁, hw⟩
    exact ⟨fun hw => h.free (hold hw), fun hopen _ _ hw => h.known hopen (hold hw)⟩
  | @drain cmd queue env σ' hopen hqueue hevent =>
    have hboth : ∀ {c sid}, watches ⟨{ x.state with
        world := { x.world with
          streams := x.world.streams.advance σ'
          connections := WsWorld.replyTo x.world.connections (x.world.streams.advance σ') cmd
          queue := queue } }, .handled cmd (Server.newActs x.world.server σ') :: x.log⟩ c sid =
        true → ¬ σ'.attachedAt sid ∧ sid ∈ σ'.ids := by
      intro c sid hw
      obtain ⟨conn', hconn', hw⟩ := watches_iff.mp hw
      obtain ⟨conn, hconn, _, _, _, htask⟩ := WsWorld.lookup_replyTo hconn'
      have hbefore : conn.watches (transcript c x.log) sid = true →
          ¬ σ'.attachedAt sid ∧ sid ∈ σ'.ids := by
        intro hw
        apply h.event hsound hg hopen (by rw [Closing.Label.event, hqueue]; rfl) hevent
        · intro shared i env he
          cases he
          exact hsound.table.unsubscribed (hqueue ▸ List.mem_cons_self)
        · exact watches_iff.mpr ⟨conn, hconn, hw⟩
      rw [WsConnection.watches_iff] at hw
      rcases hw with hgranted | hw
      · obtain ⟨_, _, _, htask', hgranted⟩ := WsConnection.granted_eq_some.mp hgranted
        rcases htask with hsame | ⟨client, request, _, response, rfl, hreply, _, hanswered⟩
        · apply hbefore
          have htask := hsame.symm.trans htask'
          exact WsConnection.watches_iff.mpr
            (.inl (WsConnection.granted_eq_some.mpr ⟨_, _, _, htask, hgranted⟩))
        · cases htask'.symm.trans hanswered
          exact granted_free hsound hopen hevent hreply hgranted
      · exact hbefore (WsConnection.watches_iff.mpr (.inr hw))
    exact ⟨fun hw => (hboth hw).1, fun _ _ _ hw => (hboth hw).2⟩
  | @daemon e σ' hopen hplain _ hevent =>
    have hboth : ∀ {c sid}, x.watches c sid = true → ¬ σ'.attachedAt sid ∧ sid ∈ σ'.ids := by
      apply h.event hsound hg hopen rfl hevent
      exact fun he => absurd he (hplain _ _ _)
    exact ⟨fun hw => (hboth hw).1, fun _ _ _ hw => (hboth hw).2⟩
  | @clientRead id s data hs =>
    exact ⟨fun {c sid} hw => mt (Streams.clientRead_attachedAt hs data sid).mp (h.free hw), h.known⟩
  | @close env hopen =>
    have hgone := (Server.cleanup_kills env (hsound.server hopen)).1
    exact ⟨fun _ => Server.free_of_none (hgone _), fun hclosed => by cases hclosed⟩

/-- The daemon reads every session that a client watches. -/
def WatchedRead (x : History) : Prop :=
  ∀ c sid s, x.watches c sid = true → x.world.server.sessions.lookup sid = some s →
    x.world.server.Reads sid s

/-- As long as no session is given away that a client watches, the daemon reads them all. -/
theorem watched_read (h : (Closing.history J).Reach Sparing x) : WatchedRead x := by
  have hkeeping : Keeping x := by
    apply invariant h
    · intro listener wakeup now
      exact ⟨fun h => (nomatch h), fun _ _ _ h => nomatch h⟩
    · exact fun x l x' hsound hkeeping hg hnoted => hkeeping.step hsound hg hnoted
  intro c sid s hw hs
  cases hclosed : x.state.closed with
  | true => cases hs.symm.trans ((reachable_sound h).ended hclosed sid)
  | false =>
    apply ((reachable_sound h).server hclosed).reads hs
    exact fun hstate => hkeeping.free hw ⟨s, hs, hstate⟩

/-- Client 5 creates session 7 and attaches it, and WebSocket client 1 takes it over. -/
private def watchRun : List Closing.Label :=
  [.world (.daemon (.accept 5)),
    .world (.daemon (.request 5 (.ok (.create none 80 24 none none none)) 0 Server.calm)),
    .world (.daemon (.request 5 (.ok (.attach 7)) 0 Server.calmLater)),
    .world .accept,
    .world (.task 1 (.text (.ok (.attach 7)))),
    .world (.task 1 .forward),
    .world (.drain Server.calmLater),
    .world (.task 1 .finish)]

/-- The daemon reads what client 1 watches. -/
theorem watched_read_attached :
    ∃ (x : History) (s : Session), (Closing.history Server.silent).Reach Sparing x ∧
      x.watches 1 7 = true ∧ x.world.server.Reads 7 s := by
  have hrun : ((Closing.history Server.silent).execWhere Sparing (new 3 none 0)
      watchRun).map (fun x : History =>
        (x.watches 1 7, (x.world.server.sessions.lookup 7).isSome)) = some (true, true) := by
    decide +kernel
  obtain ⟨x, hexec, hall⟩ := Option.map_eq_some_iff.mp hrun
  simp only [Prod.mk.injEq] at hall
  obtain ⟨hwatches, hthere⟩ := hall
  obtain ⟨s, hs⟩ := Option.isSome_iff_exists.mp hthere
  have hreach := (Transition.System.Reach.start (init_new _ 3 none 0)).execWhere hexec
  exact ⟨x, s, hreach, hwatches, watched_read hreach 1 7 s hwatches hs⟩

/-- WebSocket client 2 attaches the session too and detaches it: it goes back to client 5, although
client 1 still watches. -/
theorem watched_given_away :
    ¬ ∀ (J : Codec) (x : History), (Closing.history J).Reachable x → WatchedRead x := by
  intro h
  have hrun : ((Closing.history Server.silent).exec (new 3 none 0) (watchRun ++
      [.world .accept,
        .world (.task 2 (.text (.ok (.attach 7)))),
        .world (.task 2 .forward),
        .world (.drain Server.calmLater),
        .world (.task 2 .finish),
        .world (.task 2 (.text (.ok (.detach 7 0 0 none)))),
        .world (.task 2 .forward),
        .world (.drain Server.calmLater)])).map
      (fun x : History =>
        (x.watches 1 7, (x.world.server.sessions.lookup 7).map Session.state)) =
      some (true, some .attached) := by
    decide +kernel
  obtain ⟨x, hexec, hall⟩ := Option.map_eq_some_iff.mp hrun
  simp only [Prod.mk.injEq] at hall
  obtain ⟨hwatches, hstate⟩ := hall
  obtain ⟨s, hs, hstate⟩ := Option.map_eq_some_iff.mp hstate
  have hreach : (Closing.history Server.silent).Reachable x :=
    Transition.System.Reachable.exec (.start (init_new _ 3 none 0)) hexec
  exact (h Server.silent x hreach 1 7 s hwatches hs).free hstate

end History

end PtyDaemon
