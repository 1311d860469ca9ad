import PtyDaemon.Server.Census
import PtyDaemon.Ws.Isolation

/-!
# The count of a session

The daemon counts the clients of a session without knowing who they are. The count is that of the
connections attached to the session, of the clients whose `AttachReady` is on its way and of those
whose Detach is, as long as nobody attaches twice, detaches what is not his or is cut off while he
is attached.
-/

namespace PtyDaemon

/-- The request a task passes on or waits with. -/
def WsTask.underWay : WsTask → Option Request
  | .forwarding request => some request
  | .waiting request => some request
  | _ => none

/-- The session that the last request, a Detach, gives up; the client was attached to it. -/
def givenUp : Option Request → List WsExchange → Option Uuid
  | some (.detach sid _ _ _), .said _ :: earlier =>
    if currentSession earlier = some sid then some sid else none
  | _, _ => none

/-- Only a Detach gives up a session, the one it names. -/
theorem givenUp_eq_some {request : Request} {es : List WsExchange} {sid : Uuid}
    (h : givenUp (some request) es = some sid) :
    ∃ cols rows snapshot, request = .detach sid cols rows snapshot := by
  cases request with
  | detach i cols rows snapshot =>
    have hsid : i = sid := by
      simp only [givenUp] at h
      split at h
      · grind
      · cases h
    rw [hsid]
    exact ⟨cols, rows, snapshot, rfl⟩
  | _ => cases h

namespace WsConnection

/-- The session a Detach under way gives up. -/
def detaching (conn : WsConnection) (es : List WsExchange) : Option Uuid :=
  givenUp conn.task.underWay es

/-- How often a connection counts for a session. -/
def counted (conn : WsConnection) (es : List WsExchange) (sid : Uuid) : Nat :=
  (if conn.attachedSession = some sid then 1 else 0) +
    (if conn.granted = some sid then 1 else 0) +
    if conn.detaching es = some sid then 1 else 0

private theorem detaching_none {conn : WsConnection} (h : conn.task.underWay = none)
    (es : List WsExchange) : conn.detaching es = none := by
  simp [detaching, h, givenUp]

/-- A connection that has nothing under way counts where it is attached. -/
theorem counted_quiet {conn : WsConnection} (hgranted : conn.granted = none)
    (htask : conn.task.underWay = none) (es : List WsExchange) (sid : Uuid) :
    conn.counted es sid = if conn.attachedSession = some sid then 1 else 0 := by
  simp [counted, hgranted, detaching_none htask]

private theorem counted_reading {conn : WsConnection} (htask : conn.task = .reading)
    (es : List WsExchange) (sid : Uuid) :
    conn.counted es sid = if conn.attachedSession = some sid then 1 else 0 := by
  apply counted_quiet
  · simp [granted, htask]
  · simp [htask, WsTask.underWay]

private theorem Idle.counted {conn : WsConnection} (h : conn.Idle) (es : List WsExchange)
    (sid : Uuid) :
    conn.counted es sid = if conn.attachedSession = some sid then 1 else 0 := by
  rcases h with htask | ⟨request, response, n, htask, hnone⟩
  · exact counted_reading htask es sid
  · apply counted_quiet
    · simpa [WsConnection.granted, htask, Response.granted] using hnone
    · simp [htask, WsTask.underWay]

private theorem counted_waiting {conn : WsConnection} {request : Request}
    (htask : conn.task = .waiting request) (es : List WsExchange) (sid : Uuid) :
    conn.counted es sid = (if conn.attachedSession = some sid then 1 else 0) +
      if givenUp (some request) es = some sid then 1 else 0 := by
  have hgranted : conn.granted = none := by simp [granted, htask]
  simp [counted, hgranted, detaching, htask, WsTask.underWay]

private theorem counted_answered {conn : WsConnection} {request : Request} {response : Response}
    {n : Nat}
    (htask : conn.task = .answered request response n) (es : List WsExchange) (sid : Uuid) :
    conn.counted es sid = (if conn.attachedSession = some sid then 1 else 0) +
      if response.granted = some sid then 1 else 0 := by
  have hgranted : conn.granted = response.granted := by simp [granted, htask, Response.granted]
  have hunder : conn.task.underWay = none := by rw [htask]; rfl
  simp [counted, hgranted, detaching_none hunder]

variable {t t' : WsSharedState} {trace : List Act} {c : Nat} {conn conn' : WsConnection}
  {cmd : Option WsCommand} {es es' : List WsExchange}

/-- A step of a task leaves the count as it is, unless the client loses a session it is attached to
without a Detach. -/
theorem Exchanged.counted (h : conn.Exchanged t c t' conn' cmd es')
    (hprivate : Private t trace es conn) (sid : Uuid) :
    conn'.counted (es' ++ es) sid = conn.counted es sid ∨
      conn'.counted (es' ++ es) sid ≤ conn.counted es sid ∧ conn.attachedSession = some sid ∧
        (conn.granted.isSome = true ∨ conn'.task = .leaving ∨
          ∃ rx, conn.eventRx = some rx ∧ .sessionEnded ∈ t.eventsOf rx.tx) := by
  have hgranted := h.granted
  cases h with
  | plain hidle htask hattached _ _ =>
    left
    rw [counted_reading htask, hidle.counted, hattached]
  | @said request htask hforeign =>
    left
    have hcurrent := hprivate.current (by rw [htask]; rfl)
    have hdetaching : ({ conn with task := .forwarding request } : WsConnection).detaching
        (.said request :: es) = none := by
      cases request with
      | detach i cols rows snapshot =>
        have hne : currentSession es ≠ some i := hcurrent ▸ hforeign rfl
        simp [detaching, WsTask.underWay, givenUp, hne]
      | _ => rfl
    rw [counted_reading htask]
    simp [WsConnection.counted, hdetaching, hgranted]
  | @detached _ i cols rows snapshot htask hsession htask' hattached _ =>
    left
    have hcurrent := hprivate.current (by rw [htask]; rfl)
    have hdetaching : conn'.detaching (.said (.detach i cols rows snapshot) :: es) = some i := by
      simp [detaching, htask', WsTask.underWay, givenUp, ← hcurrent, hsession]
    rw [counted_reading htask, hsession]
    simp [WsConnection.counted, hdetaching, hgranted, hattached]
  | typed htask =>
    left
    rw [counted_reading htask, counted_reading htask]
  | @forwarded request htask =>
    left
    have hnone : conn.granted = none := by simp [WsConnection.granted, htask]
    have hsame : ({ conn with task := .waiting request } : WsConnection).detaching es =
        conn.detaching es := by
      rw [detaching, detaching, htask]
      rfl
    simp [WsConnection.counted, hgranted, hnone, hsame]
  | @subscribed _ _ _ _ i htask hsession htask' hattached _ =>
    have hbefore : conn.granted = some i := granted_eq_some.mpr ⟨_, _, _, htask, hsession⟩
    have hunder : conn.task.underWay = none := by rw [htask]; rfl
    have hnone := detaching_none hunder es
    rw [counted_reading htask', hattached]
    by_cases hlost : conn.attachedSession = some sid
    · right
      simp only [WsConnection.counted, hbefore, hlost, Option.some.injEq]
      refine ⟨?_, trivial, .inl rfl⟩
      split <;> omega
    · left
      simp [WsConnection.counted, hbefore, hlost, hnone]
  | delivered htask _ _ htask' hattached _ =>
    left
    rw [counted_reading htask, counted_reading htask', hattached]
  | @ended _ rx i htask hrx hevent hsession htask' hattached _ =>
    rw [counted_reading htask, counted_reading htask', hattached, hsession]
    by_cases hi : i = sid
    · right
      exact ⟨by simp, by rw [hi], .inr (.inr ⟨rx, hrx, List.mem_of_getElem? hevent⟩)⟩
    · left
      simp [hi]
  | left hidle htask hattached _ =>
    have hunder : conn'.task.underWay = none := by rw [htask]; rfl
    rw [counted_quiet hgranted hunder, hidle.counted, hattached]
    by_cases hlost : conn.attachedSession = some sid
    · right
      exact ⟨by simp, hlost, .inr (.inl htask)⟩
    · left
      simp [hlost]
  | reported htask =>
    left
    have hbefore : conn.granted = none := by simp [WsConnection.granted, htask]
    rw [counted_quiet hgranted rfl, counted_quiet hbefore (by rw [htask]; rfl)]

/-- The step takes the task out of its loop: the client closes or goes, the daemon is shut down, a
frame cannot be written or the channel has been dropped. -/
def leaves (conn : WsConnection) (t : WsSharedState) : WsStep → Bool
  | .close => true
  | .finish =>
    match conn.task with
    | .answered request _ _ => request = .shutdown
    | _ => false
  | .recv written =>
    conn.eventRx.any fun rx =>
      match (t.eventsOf rx.tx)[rx.read]? with
      | some (.ptyOutput _) => !written
      | some .sessionEnded => false
      | none => true
  | _ => false

private theorem Branch.leaves {out : Uuid → Nat} {s : WsStep} {p : WsSharedState × WsConnection}
    (h : Branch t c out conn s p cmd) (hleaving : p.2.task = .leaving) :
    conn.leaves t s = true := by
  cases h with
  | unparsed htask => cases htask.symm.trans hleaving
  | said htask => cases hleaving
  | typed htask => cases htask.symm.trans hleaving
  | forwarded htask => cases hleaving
  | shutdown htask => simp [WsConnection.leaves, htask]
  | finished htask => cases hleaving
  | @received rx written htask hrx =>
    rw [WsConnection.leaves, hrx, Option.any_some]
    cases hevent : (t.eventsOf rx.tx)[rx.read]? with
    | none => rfl
    | some event =>
      rw [hevent] at hleaving
      cases event with
      | ptyOutput data =>
        cases written with
        | true => cases htask.symm.trans hleaving
        | false => rfl
      | sessionEnded =>
        rw [handleEvent] at hleaving
        split at hleaving
        · cases htask.symm.trans hleaving
        · cases htask.symm.trans hleaving
  | closed htask => rfl
  | reported htask => cases hleaving

private theorem step_leaves {out : Uuid → Nat} {s : WsStep}
    (h : conn.step t c out s = some ((t', conn'), cmd)) (hleaving : conn'.task = .leaving) :
    conn.leaves t s = true :=
  (step_branch h).leaves hleaving

end WsConnection

namespace WsWorld

/-- The reply comes to the task that waits for it. -/
theorem replyTo_asker {connections : Table Nat WsConnection} {s : Streams} (client : Nat) {c : Nat}
    (request : Request) {waiting : Request} {response : Response} {conn : WsConnection}
    (hconn : connections.lookup c = some conn) (htask : conn.task = .waiting waiting)
    (hreply : lastReply s.server = some response) :
    ∃ n, replyTo connections s (.request client request c) =
      connections.insert c { conn with task := .answered waiting response n } := by
  simp only [replyTo, hreply, hconn, reply, htask]
  exact ⟨_, rfl⟩

end WsWorld

namespace History

variable {J : Codec} {x x' : History} {l : Closing.Label}

/-- How many clients session `sid` should count. -/
def counted (x : History) (sid : Uuid) : Nat :=
  Table.total (fun c conn => conn.counted (transcript c x.log) sid) x.world.connections

/-- The daemon counts the client of a command right: an Attach does not overflow, and a Detach
comes from a client that was attached, or there is nothing to take from. -/
def Reckoned (x : History) (env : Env) : WsCommand → Prop
  | .request _ (.attach sid) _ => ∀ s ∈ x.world.server.sessions.lookup sid,
    env.childAlive s.childPid = true → s.wsClientCount + 1 < 2 ^ 32
  | .request _ (.detach sid _ _ _) c => ∀ s ∈ x.world.server.sessions.lookup sid,
    s.wsClientCount = 0 ∨ ∀ conn ∈ x.world.connections.lookup c,
      conn.detaching (transcript c x.log) = some sid
  | _ => True

/-- No client loses a session that is there by attaching anew or by being cut off, and the daemon
counts right. -/
def Counting (x : History) : Closing.Label → Prop
  | .world (.task c s) => ∀ conn ∈ x.world.connections.lookup c, ∀ sid ∈ conn.attachedSession,
    (x.world.server.sessions.lookup sid).isSome = true →
      conn.granted = none ∧ conn.leaves x.world.shared s = false
  | .world (.drain env) => ∀ cmd ∈ x.world.queue.head?, x.Reckoned env cmd
  | _ => True

instance (x : History) (env : Env) : ∀ cmd, Decidable (x.Reckoned env cmd)
  | .request _ (.attach _) _ => Option.decidableForallMem _
  | .request _ (.detach sid _ _ _) c =>
    haveI (s : Session) : Decidable (s.wsClientCount = 0 ∨
        ∀ conn ∈ x.world.connections.lookup c, conn.detaching (transcript c x.log) = some sid) :=
      haveI : Decidable (∀ conn ∈ x.world.connections.lookup c,
          conn.detaching (transcript c x.log) = some sid) := Option.decidableForallMem _
      inferInstanceAs (Decidable (_ ∨ _))
    Option.decidableForallMem _
  | .request _ (.create _ _ _ _ _ _) _ | .request _ .list _ | .request _ (.kill _) _
  | .request _ (.winsizeUpdate _ _ _) _ | .request _ .ping _ | .request _ .shutdown _
  | .request _ (.input _ _) _ | .disconnected _ | .input _ _ => .isTrue trivial

instance (x : History) : ∀ l, Decidable (Counting x l)
  | .world (.task _ s) =>
    haveI (conn : WsConnection) : Decidable (∀ sid ∈ conn.attachedSession,
        (x.world.server.sessions.lookup sid).isSome = true →
          conn.granted = none ∧ conn.leaves x.world.shared s = false) := Option.decidableForallMem _
    Option.decidableForallMem _
  | .world (.drain _) => Option.decidableForallMem _
  | .world .accept | .world (.daemon _) | .world (.clientRead _ _) | .close _ => .isTrue trivial

/-- The daemon counts right, and nobody counts for a session that was never there. -/
structure Counts (x : History) : Prop where
  exact : ∀ {sid n}, x.world.server.countOf sid = some n → n = x.counted sid
  known : x.state.closed = false → ∀ {sid}, x.counted sid ≠ 0 → sid ∈ x.world.server.ids

/-- One connection changes. -/
theorem counted_replaced {c : Nat} {conn conn' : WsConnection}
    (hconn : x.world.connections.lookup c = some conn)
    (hconns : x'.world.connections = x.world.connections.insert c conn')
    (hothers : ∀ i, i ≠ c → transcript i x'.log = transcript i x.log) (sid : Uuid) :
    x'.counted sid + conn.counted (transcript c x.log) sid =
      x.counted sid + conn'.counted (transcript c x'.log) sid := by
  have hrest : Table.total (fun i conn₁ => conn₁.counted (transcript i x'.log) sid)
      (x.world.connections.erase c) =
      Table.total (fun i conn₁ => conn₁.counted (transcript i x.log) sid)
        (x.world.connections.erase c) := by
    apply Table.total_congr
    intro i conn₁ hconn₁
    rw [Table.lookup_erase] at hconn₁
    split at hconn₁
    · cases hconn₁
    · rename_i hi
      rw [hothers i hi]
  rw [counted, counted, hconns, Table.total_insert, hrest,
    Table.total_erase_some (fun i conn₁ => conn₁.counted (transcript i x.log) sid) hconn]
  omega

private theorem Counts.unknown (h : Counts x) (hopen : x.state.closed = false) {sid : Uuid}
    (hsid : sid ∉ x.world.server.ids) : x.counted sid = 0 := by
  by_contra hcounted
  exact hsid (h.known hopen hcounted)

private theorem counted_le {c : Nat} {conn conn' : WsConnection}
    (hconn : x.world.connections.lookup c = some conn)
    (hconns : x'.world.connections = x.world.connections.insert c conn')
    (hothers : ∀ i, i ≠ c → transcript i x'.log = transcript i x.log) {sid : Uuid}
    (hle : conn'.counted (transcript c x'.log) sid ≤ conn.counted (transcript c x.log) sid) :
    x'.counted sid ≤ x.counted sid := by
  have hreplaced := counted_replaced hconn hconns hothers sid
  omega

private theorem Counts.steady (h : Counts x)
    (hcount : ∀ {sid n}, x'.world.server.countOf sid = some n →
      x.world.server.countOf sid = some n ∨ x.counted sid = 0 ∧ n = 0)
    (hids : x'.state.closed = false → x.state.closed = false ∧
      x.world.server.ids ⊆ x'.world.server.ids)
    (hcounted : x'.counted = x.counted) : Counts x' := by
  constructor
  case exact =>
    intro sid n hn
    rw [hcounted]
    rcases hcount hn with hsame | ⟨hzero, hnone⟩
    · exact h.exact hsame
    · rw [hzero, hnone]
  case known =>
    intro hopen sid hsid
    rw [hcounted] at hsid
    obtain ⟨hopen', hsub⟩ := hids hopen
    exact hsub (h.known hopen' hsid)

private theorem Counts.accept (hsound : Sound x) (h : Counts x) :
    Counts ⟨{ x.state with world := x.world.accept }, x.log⟩ := by
  have hfresh : x.world.connections.lookup x.world.shared.nextClientId = none :=
    lookup_fresh hsound.table
  apply h.steady
  · exact fun hn => .inl hn
  · exact fun hopen => ⟨hopen, List.Subset.refl _⟩
  · funext sid
    have hnew :
        WsConnection.new.counted (transcript x.world.shared.nextClientId x.log) sid = 0 := by
      rw [WsConnection.counted_reading rfl]
      rfl
    have hinsert := Table.total_insert
      (fun c conn => WsConnection.counted conn (transcript c x.log) sid) x.world.connections
      x.world.shared.nextClientId .new
    rw [hnew, Nat.zero_add, Table.total_erase_none _ hfresh] at hinsert
    exact hinsert

private theorem ended_absent (hsound : Sound x) {c : Nat} {conn : WsConnection} {rx : WsReceiver}
    {sid : Uuid} (hconn : x.world.connections.lookup c = some conn) (hrx : conn.eventRx = some rx)
    (hattached : conn.attachedSession = some sid)
    (hended : .sessionEnded ∈ x.world.shared.eventsOf rx.tx) :
    x.world.server.countOf sid = none := by
  rw [Server.countOf_eq_none]
  cases hclosed : x.state.closed with
  | true =>
    rw [← Server.countOf_eq_none, Server.countOf, hsound.ended hclosed, Option.map_none]
  | false =>
    have hfollows := (hsound.feed hclosed).conn hconn
    obtain ⟨st, hst, hsession⟩ := hfollows.attached hrx
    cases hattached.symm.trans hsession
    obtain ⟨_, hst⟩ := hfollows.follows hst
    obtain ⟨htx, _⟩ := hst.receiving hrx
    rw [htx] at hended
    exact hst.ended hended

private theorem Counts.task (hsound : Sound x) (hisolated : Isolated x) (h : Counts x) {c : Nat}
    {s : WsStep} (hg : Counting x (.world (.task c s))) {conn conn' : WsConnection}
    {t : WsSharedState} {cmd : Option WsCommand} {es : List WsExchange}
    (hconn : x.world.connections.lookup c = some conn)
    (hstep : conn.step x.world.shared c (fun id => (x.world.streams.out id).length) s =
      some ((t, conn'), cmd))
    (hconns : x'.world.connections = x.world.connections.insert c conn')
    (hserver : x'.world.server = { x.world.server with wsShared := t })
    (hclosed : x'.state.closed = x.state.closed) (hlog : x'.log = es.map (.client c) ++ x.log)
    (hex : conn.Exchanged x.world.shared c t conn' cmd es) : Counts x' := by
  have hothers : ∀ i, i ≠ c → transcript i x'.log = transcript i x.log := by
    intro i hi
    rw [hlog, transcript_clients, if_neg hi]
  have hcounted := fun sid => hex.counted (hisolated c conn hconn) sid
  have hmine : transcript c x'.log = es ++ transcript c x.log := by
    rw [hlog, transcript_clients, if_pos rfl]
  rw [← hmine] at hcounted
  have hcount : x'.world.server.countOf = x.world.server.countOf := by
    rw [hserver]
    rfl
  constructor
  case exact =>
    intro sid n hn
    rw [hcount] at hn
    rw [h.exact hn]
    have hreplaced := counted_replaced hconn hconns hothers sid
    rcases hcounted sid with hsame | ⟨_, hattached, hlost⟩
    · omega
    · obtain ⟨s, hs, _⟩ := Option.map_eq_some_iff.mp hn
      obtain ⟨hgranted, hleaves⟩ := hg conn hconn sid hattached (by rw [hs]; rfl)
      rcases hlost with hsome | hleaving | ⟨rx, hrx, hended⟩
      · rw [hgranted] at hsome
        cases hsome
      · cases hleaves.symm.trans (WsConnection.step_leaves hstep hleaving)
      · cases hn.symm.trans (ended_absent hsound hconn hrx hattached hended)
  case known =>
    intro hopen sid hsid
    rw [hserver]
    apply h.known (hclosed ▸ hopen)
    intro hzero
    have hle : x'.counted sid ≤ x.counted sid := by
      apply counted_le hconn hconns hothers
      rcases hcounted sid with hsame | ⟨hless, _⟩
      · exact hsame.le
      · exact hless
    exact hsid (Nat.le_zero.mp (hzero ▸ hle))

private theorem counted_replied (hsound : Sound x) {client c : Nat} {request : Request}
    {queue : List WsCommand} {streams : Streams} {response : Response}
    (hqueue : x.world.queue = .request client request c :: queue)
    (hreply : WsWorld.lastReply streams.server = some response)
    (hconns : x'.world.connections =
      WsWorld.replyTo x.world.connections streams (.request client request c))
    (hlog : ∀ i, transcript i x'.log = transcript i x.log) (sid : Uuid) :
    x'.counted sid + (if givenUp (some request) (transcript c x.log) = some sid then 1 else 0) =
      x.counted sid + if response.granted = some sid then 1 else 0 := by
  obtain ⟨_, conn, hconn, hwaiting⟩ := hsound.dialogue.asked (hqueue ▸ List.mem_cons_self)
  obtain ⟨n, hanswered⟩ := WsWorld.replyTo_asker client request hconn hwaiting hreply
  have hreplaced := counted_replaced hconn (hconns.trans hanswered) (fun i _ => hlog i) sid
  rw [hlog, WsConnection.counted_waiting hwaiting, WsConnection.counted_answered rfl] at hreplaced
  dsimp only at hreplaced
  omega

private theorem other_counts (hsound : Sound x) (h : Counts x) (hopen : x.state.closed = false)
    {client c : Nat} {request : Request} {env : Env} {σ' : Server} {response : Response}
    (hother : (WsCommand.request client request c).recounts = false)
    (hevent : x.world.server.event J
      (.command x.world.shared (.request client request c) env) = .ok σ')
    (hreply : WsWorld.lastReply σ' = some response) {sid : Uuid} {n : Nat}
    (hn : σ'.countOf sid = some n) :
    n + (if givenUp (some request) (transcript c x.log) = some sid then 1 else 0) =
      x.counted sid + if response.granted = some sid then 1 else 0 := by
  have hkeeps : givenUp (some request) (transcript c x.log) ≠ some sid := by
    intro hgiven
    obtain ⟨_, _, _, rfl⟩ := givenUp_eq_some hgiven
    cases hother
  have hdenied : response.granted ≠ some sid := by
    intro hgranted
    obtain ⟨rfl, _⟩ := Server.event_granted hevent hreply hgranted
    cases hother
  have hquiet : (Event.command x.world.shared (.request client request c) env).recounts = false :=
    hother
  rw [if_neg hkeeps, if_neg hdenied]
  rcases Server.event_counts (hsound.server hopen) hquiet hevent hn with hsame | ⟨hnew, rfl⟩
  · rw [h.exact hsame]
  · rw [h.unknown hopen hnew]

private theorem attach_counts (h : Counts x) {i : Uuid} {c c' : Nat} {env : Env}
    {p : Server × Response} (hg : x.Reckoned env (.request c (.attach i) c'))
    (hp : { x.world.server with wsShared := x.world.shared }.handleWsAttach J env i = .ok p)
    {sid : Uuid} {n : Nat} (hn : p.1.countOf sid = some n) :
    n = x.counted sid + if p.2.granted = some sid then 1 else 0 := by
  rcases Server.handleWsAttach_counts hp with
    ⟨s, cols, rows, pid, shm, snapshot, hs, halive, hready, hcount⟩ | ⟨hnot, hcount⟩
  · have hbound := hg s hs halive
    rw [hcount] at hn
    rw [hready, Response.granted_attachReady]
    by_cases hi : sid = i
    · rw [if_pos hi, Nat.mod_eq_of_lt hbound] at hn
      cases hn
      rw [hi, if_pos rfl, ← h.exact (Server.countOf_eq_some hs)]
    · rw [if_neg hi] at hn
      rw [if_neg fun hsid => hi (Option.some.inj hsid).symm, h.exact hn, Nat.add_zero]
  · rw [hcount] at hn
    have hdenied : p.2.granted ≠ some sid := by
      intro hgranted
      obtain ⟨_, _, _, _, _, hready⟩ := Response.attachReady_of_granted hgranted
      exact hnot _ _ _ _ _ _ hready
    rw [if_neg hdenied, h.exact hn, Nat.add_zero]

private theorem detach_counts (h : Counts x) {i : Uuid} {client c : Nat} {cols rows : UInt16}
    {snapshot : Option String} {env : Env}
    (hg : x.Reckoned env (.request client (.detach i cols rows snapshot) c))
    (hwaiting : ∃ conn, x.world.connections.lookup c = some conn ∧
      conn.task = .waiting (.detach i cols rows snapshot)) {sid : Uuid} {n : Nat}
    (hn : (Server.handleWsDetach J env
      { x.world.server with wsShared := x.world.shared } i).1.countOf sid = some n) :
    n + (if givenUp (some (.detach i cols rows snapshot)) (transcript c x.log) = some sid
      then 1 else 0) = x.counted sid := by
  rw [Server.handleWsDetach_counts] at hn
  by_cases hi : sid = i
  · subst hi
    rw [if_pos rfl] at hn
    obtain ⟨m, hm, hless⟩ := Option.map_eq_some_iff.mp hn
    obtain ⟨s, hs, hcount⟩ := Option.map_eq_some_iff.mp hm
    obtain ⟨conn, hconn, htask⟩ := hwaiting
    have hexact := h.exact hm
    have hle := Table.le_total
      (fun c conn => WsConnection.counted conn (transcript c x.log) sid) hconn
    change conn.counted (transcript c x.log) sid ≤ x.counted sid at hle
    rw [WsConnection.counted_waiting htask] at hle
    rcases hg s hs with hzero | hgiven
    · omega
    · have hgiven := hgiven conn hconn
      rw [WsConnection.detaching, htask] at hgiven
      rw [WsTask.underWay] at hgiven
      rw [if_pos hgiven] at hle ⊢
      omega
  · rw [if_neg hi] at hn
    rw [if_neg, h.exact hn, Nat.add_zero]
    intro hgiven
    obtain ⟨_, _, _, hdetach⟩ := givenUp_eq_some hgiven
    cases hdetach
    exact hi rfl

private theorem request_counts (hsound : Sound x) (h : Counts x) (hopen : x.state.closed = false)
    {client c : Nat} {request : Request} {env : Env} {σ' : Server} {response : Response}
    (hg : x.Reckoned env (.request client request c))
    (hevent : x.world.server.event J
      (.command x.world.shared (.request client request c) env) = .ok σ')
    (hwaiting : ∃ conn, x.world.connections.lookup c = some conn ∧ conn.task = .waiting request)
    (hreply : WsWorld.lastReply σ' = some response) {sid : Uuid} {n : Nat}
    (hn : σ'.countOf sid = some n) :
    n + (if givenUp (some request) (transcript c x.log) = some sid then 1 else 0) =
      x.counted sid + if response.granted = some sid then 1 else 0 := by
  cases hcmd : (WsCommand.request client request c).recounts with
  | false => exact other_counts hsound h hopen hcmd hevent hreply hn
  | true =>
    have hevent := Server.event_command hevent
    obtain ⟨p, hp, rfl⟩ := ok_of_map hevent
    cases hreply
    have hn' : p.1.countOf sid = some n := hn
    cases request with
    | attach i =>
      have hnone : givenUp (some (.attach i)) (transcript c x.log) ≠ some sid := by
        intro hgiven
        obtain ⟨_, _, _, hdetach⟩ := givenUp_eq_some hgiven
        cases hdetach
      rw [if_neg hnone]
      exact attach_counts h hg hp hn'
    | detach i cols rows snapshot =>
      cases hp
      have hdenied : (Server.handleWsDetach J env
          { x.world.server with wsShared := x.world.shared } i).2.granted = none := by
        rw [Response.granted, Server.handleWsDetach_ready, Option.map_none]
      have hno : none ≠ some sid := (Option.some_ne_none sid).symm
      rw [hdenied, if_neg hno]
      exact detach_counts h hg hwaiting hn'
    | _ => cases hcmd

private theorem Counts.quiet (hsound : Sound x) (h : Counts x) (hopen : x.state.closed = false)
    {e : Event} {σ' : Server} (he : e.recounts = false)
    (hevent : x.world.server.event J e = .ok σ') (hserver : x'.world.server = σ')
    (hcounted : x'.counted = x.counted) : Counts x' := by
  have hinv := hsound.server hopen
  apply h.steady
  · intro sid n hn
    rw [hserver] at hn
    rcases Server.event_counts hinv he hevent hn with hsame | ⟨hnew, hzero⟩
    · exact .inl hsame
    · exact .inr ⟨h.unknown hopen hnew, hzero⟩
  · intro _
    rw [hserver]
    exact ⟨hopen, (Server.event_gone hinv hevent).1⟩
  · exact hcounted

private theorem Counts.drain (hsound : Sound x) (h : Counts x) {cmd : WsCommand}
    {queue : List WsCommand} {env : Env} {σ' : Server} (hg : Counting x (.world (.drain env)))
    (hopen : x.state.closed = false) (hqueue : x.world.queue = cmd :: queue)
    (hevent : x.world.server.event J (.command x.world.shared cmd env) = .ok σ')
    (hserver : x'.world.server = σ')
    (hconns : x'.world.connections =
      WsWorld.replyTo x.world.connections (x.world.streams.advance σ') cmd)
    (hlog : ∀ i, transcript i x'.log = transcript i x.log) : Counts x' := by
  have hreckoned : x.Reckoned env cmd := hg cmd (hqueue ▸ rfl)
  have hsame : x'.world.connections = x.world.connections → x'.counted = x.counted := by
    intro hconns
    funext sid
    simp only [counted, hconns, hlog]
  cases cmd with
  | input sid data => exact h.quiet hsound hopen rfl hevent hserver (hsame hconns)
  | disconnected c =>
    have hleft : x.world.shared.clientSessions.lookup c = none :=
      hsound.table.unsubscribed (hqueue ▸ List.mem_cons_self)
    have hnothing : σ' = { x.world.server with wsShared := x.world.shared } := by
      have hevent := Server.event_command hevent
      cases hevent
      simp only [Server.handleWsClientDisconnect, hleft]
    rw [hnothing] at hserver
    apply h.steady
    · intro sid n hn
      rw [hserver] at hn
      exact .inl hn
    · intro _
      rw [hserver]
      exact ⟨hopen, List.Subset.refl _⟩
    · exact hsame hconns
  | request client request c =>
    have hinv := hsound.server hopen
    have hids := (Server.event_gone hinv hevent).1
    obtain ⟨_, hwaiting⟩ := hsound.dialogue.asked (hqueue ▸ List.mem_cons_self)
    obtain ⟨response, hreply⟩ := Server.event_replied hevent
    have hreplied := counted_replied hsound hqueue hreply hconns hlog
    rw [← hserver] at hids
    constructor
    case exact =>
      intro sid n hn
      rw [hserver] at hn
      have hcounts := request_counts hsound h hopen hreckoned hevent hwaiting hreply hn
      have hreplied := hreplied sid
      omega
    case known =>
      intro _ sid hsid
      by_cases hgranted : response.granted = some sid
      · obtain ⟨_, p, hp, hready, _⟩ := Server.event_granted hevent hreply hgranted
        obtain ⟨_, _, _, _, _, hready⟩ := Response.attachReady_of_granted hready
        exact hids (Server.handleWsAttach_known (hinv.withShared _) hp hready)
      · apply hids
        apply h.known hopen
        have hreplied := hreplied sid
        rw [if_neg hgranted] at hreplied
        omega

private theorem Counts.step (hsound : Sound x) (hisolated : Isolated x) (h : Counts x)
    (hg : Counting x l) (hnoted : Noted J x l x') : Counts x' := by
  cases hnoted with
  | accept => exact h.accept hsound
  | task hconn hstep _ hex => exact h.task hsound hisolated hg hconn hstep rfl rfl rfl rfl hex
  | drain hopen hqueue hevent =>
    exact h.drain hsound hg hopen hqueue hevent rfl rfl fun _ => rfl
  | @daemon e σ' hopen hplain _ hevent =>
    have hquiet : e.recounts = false := by
      cases e with
      | command shared cmd env => exact absurd rfl (hplain shared cmd env)
      | _ => rfl
    exact h.quiet hsound hopen hquiet hevent rfl rfl
  | @clientRead id s data hs =>
    apply h.steady
    · intro sid n hn
      left
      rw [← hn]
      exact (Streams.clientRead_map Session.wsClientCount (fun _ _ => rfl) hs data sid).symm
    · exact fun hopen => ⟨hopen, List.Subset.refl _⟩
    · rfl
  | @close env hopen =>
    have hnone := (Server.cleanup_kills env (hsound.server hopen)).1
    constructor
    · intro sid n hn
      obtain ⟨s, hs, _⟩ := Option.map_eq_some_iff.mp hn
      cases (hnone sid).symm.trans hs
    · exact fun hclosed => by cases hclosed

/-- No command and no reply is in flight, nor is a task about to send one. -/
def Quiet (x : History) : Prop :=
  x.world.queue = [] ∧ ∀ c conn, x.world.connections.lookup c = some conn →
    conn.task.underWay = none ∧ ∀ request response n, conn.task ≠ .answered request response n

/-- A session counts the connections attached to it. -/
def CountsExact (x : History) : Prop :=
  x.Quiet → ∀ sid s, x.world.server.sessions.lookup sid = some s →
    s.wsClientCount =
      (x.world.connections.values.filter fun conn => conn.attachedSession = some sid).length

private theorem Counts.countsExact (h : Counts x) : CountsExact x := by
  intro hquiet sid s hs
  have hattached : x.counted sid =
      Table.total (fun _ conn => if WsConnection.attachedSession conn = some sid then 1 else 0)
        x.world.connections := by
    apply Table.total_congr
    intro c conn hconn
    obtain ⟨hunder, hunanswered⟩ := hquiet.2 c conn hconn
    exact WsConnection.counted_quiet (WsConnection.granted_none hunanswered) hunder _ sid
  rw [h.exact (Server.countOf_eq_some hs), hattached, Table.total_indicator]

/-- As long as no client loses a live session without a Detach and the daemon counts right, a
session counts the clients attached to it. -/
theorem counts_exact (h : (Closing.history J).Reach Counting x) : CountsExact x := by
  have hall : Isolated x ∧ Counts x := by
    apply invariant h
    · intro listener wakeup now
      exact ⟨fun _ _ h => (nomatch h), fun h => (nomatch h), fun _ _ h => absurd rfl h⟩
    · intro x l x' hsound hall hg hnoted
      obtain ⟨hisolated, hcounts⟩ := hall
      exact ⟨hisolated.step hsound hnoted, hcounts.step hsound hisolated hg hnoted⟩
  exact hall.2.countsExact

/-- Client 5 creates session 7, and WebSocket clients 1 and 2 attach it. -/
private def countRun : List Closing.Label :=
  [.world (.daemon (.accept 5)),
    .world (.daemon (.request 5 (.ok (.create none 80 24 none none none)) 0 Server.calm)),
    .world .accept,
    .world (.task 1 (.text (.ok (.attach 7)))),
    .world (.task 1 .forward),
    .world (.drain Server.calmLater),
    .world (.task 1 .finish),
    .world .accept,
    .world (.task 2 (.text (.ok (.attach 7)))),
    .world (.task 2 .forward),
    .world (.drain Server.calmLater),
    .world (.task 2 .finish)]

/-- What a session counts, how many clients are attached to it, and whether nobody is busy. -/
private def countSeen (x : History) (sid : Uuid) : Option Nat × Nat × Bool :=
  (x.world.server.countOf sid,
    (x.world.connections.values.filter fun conn => conn.attachedSession = some sid).length,
    x.world.queue.isEmpty && x.world.connections.values.all fun conn =>
      conn.task = .reading || conn.task = .gone)

private theorem countSeen_quiet {x : History} {sid : Uuid} {n m : Nat}
    (h : countSeen x sid = (some n, m, true)) : x.Quiet := by
  simp only [countSeen, Prod.mk.injEq, Bool.and_eq_true, List.isEmpty_iff, List.all_eq_true,
    Bool.or_eq_true, decide_eq_true_eq] at h
  obtain ⟨_, _, hqueue, hall⟩ := h
  refine ⟨hqueue, fun c conn hconn => ?_⟩
  rcases hall conn (Table.mem_values.mpr ⟨c, hconn⟩) with htask | htask
  · simp [htask, WsTask.underWay]
  · simp [htask, WsTask.underWay]

/-- Client 2 detaches, and the session counts client 1 alone. -/
theorem counts_exact_detached :
    ∃ (x : History) (s : Session), (Closing.history Server.silent).Reach Counting x ∧ x.Quiet ∧
      x.world.server.sessions.lookup 7 = some s ∧ s.wsClientCount = 1 := by
  have hrun : ((Closing.history Server.silent).execWhere Counting (new 3 none 0) (countRun ++
      [.world (.task 2 (.text (.ok (.detach 7 0 0 none)))),
        .world (.task 2 .forward),
        .world (.drain Server.calmLater),
        .world (.task 2 .finish)])).map
      (fun x : History => countSeen x 7) = some (some 1, 1, true) := by
    decide +kernel
  obtain ⟨x, hexec, hseen⟩ := Option.map_eq_some_iff.mp hrun
  have hquiet := countSeen_quiet hseen
  have hthere : x.world.server.countOf 7 = some 1 := congrArg Prod.fst hseen
  obtain ⟨s, hs, _⟩ := Option.map_eq_some_iff.mp hthere
  have hreach := (Transition.System.Reach.start (init_new _ 3 none 0)).execWhere hexec
  refine ⟨x, s, hreach, hquiet, hs, ?_⟩
  rw [counts_exact hreach hquiet 7 s hs]
  exact congrArg (fun p => p.2.1) hseen

/-- Client 2 closes its connection while it is attached, and is counted for ever. -/
theorem count_stays :
    ¬ ∀ (J : Codec) (x : History), (Closing.history J).Reachable x → CountsExact x := by
  intro h
  have hrun : ((Closing.history Server.silent).exec (new 3 none 0) (countRun ++
      [.world (.task 2 .close),
        .world (.task 2 .report),
        .world (.drain Server.calmLater)])).map
      (fun x : History => countSeen x 7) = some (some 2, 1, true) := by
    decide +kernel
  obtain ⟨x, hexec, hseen⟩ := Option.map_eq_some_iff.mp hrun
  have hthere : x.world.server.countOf 7 = some 2 := congrArg Prod.fst hseen
  obtain ⟨s, hs, hcount⟩ := Option.map_eq_some_iff.mp hthere
  have hreach : (Closing.history Server.silent).Reachable x :=
    Transition.System.Reachable.exec (.start (init_new _ 3 none 0)) hexec
  have hexact := h Server.silent x hreach (countSeen_quiet hseen) 7 s hs
  have hone : (x.world.connections.values.filter
      fun conn => conn.attachedSession = some 7).length = 1 := congrArg (fun p => p.2.1) hseen
  rw [hcount, hone] at hexact
  cases hexact

end History

end PtyDaemon
