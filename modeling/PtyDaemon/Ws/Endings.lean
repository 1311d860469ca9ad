import PtyDaemon.Server.Census
import PtyDaemon.Ws.History

/-!
# Every ending is announced

A client that holds a session has its channel among the subscribers as long as the session is there,
and one `SessionEnded` to take from it afterwards. Two things spoil this: the end of the output, of
which the daemon tells nobody, and an `AttachReady` that finds the session gone.
-/

namespace PtyDaemon

open WsSharedState

/-- The session of the last `AttachReady`, unless a Detach of it has come since or the task has left
its loop. -/
def holding : List WsExchange → Option Uuid
  | [] => none
  | .said (.detach sid _ _ _) :: es => if holding es = some sid then none else holding es
  | .sent (.text response) :: es => response.granted.or (holding es)
  | .left :: _ => none
  | _ :: es => holding es

/-- How often the client has been told since its last `AttachReady` that the session has ended. -/
def endings (sid : Uuid) : List WsExchange → Nat
  | [] => 0
  | .sent (.text response) :: es => if response.granted.isSome then 0 else endings sid es
  | .sent (.sessionEnded i) :: es => endings sid es + if i = sid then 1 else 0
  | _ :: es => endings sid es

private theorem holding_texts {responses : List Response}
    (h : ∀ response ∈ responses, response.granted = none) (es : List WsExchange) :
    holding ((responses.map fun response => .sent (.text response)) ++ es) = holding es := by
  induction responses with
  | nil => rfl
  | cons response responses ih =>
    rw [List.map_cons, List.cons_append, holding, h response List.mem_cons_self, Option.none_or]
    exact ih fun response hmem => h response (List.mem_cons_of_mem _ hmem)

private theorem endings_texts {responses : List Response}
    (h : ∀ response ∈ responses, response.granted = none) (sid : Uuid) (es : List WsExchange) :
    endings sid ((responses.map fun response => .sent (.text response)) ++ es) =
      endings sid es := by
  induction responses with
  | nil => rfl
  | cons response responses ih =>
    rw [List.map_cons, List.cons_append, endings, h response List.mem_cons_self]
    exact ih fun response hmem => h response (List.mem_cons_of_mem _ hmem)

/-- What is still to be taken from the channel about the end of the session. -/
def WsReceiver.endings (t : WsSharedState) (rx : WsReceiver) : Nat :=
  ((t.eventsOf rx.tx).drop rx.read).count .sessionEnded

def WsConnection.pending (conn : WsConnection) (t : WsSharedState) : Nat :=
  conn.eventRx.elim 0 (WsReceiver.endings t)

/-- The channel of client `c`, which waits for the end of session `sid`. -/
structure Awaits (t : WsSharedState) (gone : Prop) (c : Nat) (sid : Uuid) (rx : WsReceiver) :
    Prop where
  made : rx.tx < t.channels
  only : ∀ {id sub}, sub ∈ t.subscribersOf id → sub.tx = rx.tx → id = sid
  read : rx.read ≤ (t.eventsOf rx.tx).length
  live : ¬ gone → ⟨rx.tx, c⟩ ∈ t.subscribersOf sid ∧ rx.endings t = 0
  ended : gone → (∀ {id sub}, sub ∈ t.subscribersOf id → sub.tx ≠ rx.tx) ∧ rx.endings t = 1

namespace Awaits

variable {t t' : WsSharedState} {gone gone' : Prop} {c : Nat} {sid : Uuid} {rx : WsReceiver}

private theorem start (ht : t.Wf) (hlive : ¬ gone) (c : Nat) (sid : Uuid) :
    Awaits (t.subscribe sid c).2 gone c sid ⟨t.channels, 0⟩ := by
  have hevents : (t.subscribe sid c).2.eventsOf t.channels = [] := eventsOf_fresh ht (le_refl _)
  constructor
  case made => exact Nat.lt_succ_self _
  case only =>
    intro id sub hsub htx
    rcases mem_subscribe hsub with hold | ⟨hid, _⟩
    · exact absurd (ht.made hold) (htx ▸ Nat.lt_irrefl _)
    · exact hid
  case read => exact Nat.zero_le _
  case live =>
    intro _
    refine ⟨mem_subscribe_new t sid c, ?_⟩
    rw [WsReceiver.endings, hevents]
    rfl
  case ended => exact fun hgone => absurd hgone hlive

/-- Nothing is sent on the channel, and it keeps its subscriber. -/
theorem retable (h : Awaits t gone c sid rx) (hchannels : t.channels ≤ t'.channels)
    (hevents : t'.events = t.events)
    (hkeep : ⟨rx.tx, c⟩ ∈ t.subscribersOf sid → ⟨rx.tx, c⟩ ∈ t'.subscribersOf sid)
    (hold : ∀ {id sub}, sub ∈ t'.subscribersOf id → sub.tx = rx.tx → sub ∈ t.subscribersOf id) :
    Awaits t' gone c sid rx := by
  have hsame : ∀ tx, t'.eventsOf tx = t.eventsOf tx := fun tx => by rw [eventsOf, hevents]; rfl
  have hendings : rx.endings t' = rx.endings t := by rw [WsReceiver.endings, hsame]; rfl
  constructor
  case made => exact h.made.trans_le hchannels
  case only => exact fun hsub htx => h.only (hold hsub htx) htx
  case read =>
    rw [hsame]
    exact h.read
  case live =>
    intro hlive
    rw [hendings]
    exact ⟨hkeep (h.live hlive).1, (h.live hlive).2⟩
  case ended =>
    intro hgone
    rw [hendings]
    exact ⟨fun hsub htx => (h.ended hgone).1 (hold hsub htx) htx, (h.ended hgone).2⟩

private theorem subscribe (h : Awaits t gone c sid rx) (id : Uuid) (i : Nat) :
    Awaits (t.subscribe id i).2 gone c sid rx := by
  refine h.retable (Nat.le_succ _) rfl mem_subscribe_old fun hsub htx => ?_
  rcases mem_subscribe hsub with hsub | ⟨_, rfl⟩
  · exact hsub
  · exact absurd h.made (htx ▸ Nat.lt_irrefl _)

/-- Another client leaves. -/
theorem unsubscribe (h : Awaits t gone c sid rx) (id : Uuid) {i : Nat} (hi : i ≠ c) :
    Awaits (t.unsubscribe id i) gone c sid rx :=
  h.retable (le_refl _) rfl (fun hsub => mem_unsubscribe_other hsub hi.symm)
    fun hsub _ => mem_unsubscribe hsub

private theorem broadcast (h : Awaits t gone c sid rx) (ht : t.Wf) (id : Uuid) (data : List UInt8) :
    Awaits (t.broadcast id data) gone c sid rx := by
  have hevents := eventsOf_broadcast ht id data rx.tx
  have hendings : rx.endings (t.broadcast id data) = rx.endings t := by
    rw [WsReceiver.endings, hevents, List.drop_append_of_le_length h.read, List.count_append]
    split <;> rfl
  constructor
  case made => exact h.made
  case only => exact h.only
  case read =>
    rw [hevents, List.length_append]
    exact h.read.trans (Nat.le_add_right _ _)
  case live =>
    rw [hendings]
    exact h.live
  case ended =>
    rw [hendings]
    exact h.ended

/-- The daemon tells the subscribers of some sessions; this one may have come to its end then, and
stays there. -/
theorem told (h : Awaits t gone c sid rx) (ht : t.Wf) (ended : List Uuid) (hgone : gone → gone')
    (htold : sid ∈ ended → gone') (hends : gone' → gone ∨ sid ∈ ended) :
    Awaits (ended.foldl notifySessionEnded t) gone' c sid rx := by
  have hevents := told_eventsOf ht ended h.only
  have hsubs := told_subscribersOf ended t
  have hsub : ∀ {id sub}, sub ∈ (ended.foldl notifySessionEnded t).subscribersOf id →
      id ∉ ended ∧ sub ∈ t.subscribersOf id := by
    intro id sub hmem
    rw [hsubs] at hmem
    split at hmem
    · cases hmem
    · rename_i hid
      exact ⟨hid, hmem⟩
  have hendings : rx.endings (ended.foldl notifySessionEnded t) = rx.endings t +
      if sid ∈ ended ∧ rx.tx ∈ (t.subscribersOf sid).map WsSubscriber.tx then 1 else 0 := by
    rw [WsReceiver.endings, hevents, List.drop_append_of_le_length h.read, List.count_append]
    split <;> rfl
  have hchannels : ∀ (ended : List Uuid) (t : WsSharedState),
      (ended.foldl notifySessionEnded t).channels = t.channels := by
    intro ended
    induction ended with
    | nil => exact fun _ => rfl
    | cons id ended ih => exact fun t => ih (t.notifySessionEnded id)
  constructor
  case made =>
    rw [hchannels]
    exact h.made
  case only => exact fun hmem htx => h.only (hsub hmem).2 htx
  case read =>
    rw [hevents, List.length_append]
    exact h.read.trans (Nat.le_add_right _ _)
  case live =>
    intro hlive
    have hnot : sid ∉ ended := fun hmem => hlive (htold hmem)
    obtain ⟨hmem, hzero⟩ := h.live fun hg => hlive (hgone hg)
    rw [hendings, hsubs, if_neg hnot, if_neg fun hboth => hnot hboth.1]
    exact ⟨hmem, hzero⟩
  case ended =>
    intro hnow
    by_cases hbefore : gone
    · obtain ⟨hnone, hone⟩ := h.ended hbefore
      have hnot : rx.tx ∉ (t.subscribersOf sid).map WsSubscriber.tx := by
        intro hmem
        obtain ⟨sub, hsub, htx⟩ := List.mem_map.mp hmem
        exact hnone hsub htx
      rw [hendings, if_neg fun hboth => hnot hboth.2]
      exact ⟨fun hmem => hnone (hsub hmem).2, hone⟩
    · have hmem := (hends hnow).resolve_left hbefore
      obtain ⟨hlisted, hzero⟩ := h.live hbefore
      rw [hendings, if_pos ⟨hmem, List.mem_map_of_mem hlisted⟩, hzero]
      refine ⟨fun {id sub} hin htx => ?_, rfl⟩
      obtain ⟨hid, hold⟩ := hsub hin
      exact hid (h.only hold htx ▸ hmem)

/-- Output is taken from the channel. -/
theorem deliver (h : Awaits t gone c sid rx) {data : List UInt8}
    (hevent : (t.eventsOf rx.tx)[rx.read]? = some (.ptyOutput data)) :
    Awaits t gone c sid { rx with read := rx.read + 1 } := by
  obtain ⟨hlt, hget⟩ := List.getElem?_eq_some_iff.mp hevent
  have hendings : ({ rx with read := rx.read + 1 } : WsReceiver).endings t = rx.endings t := by
    rw [WsReceiver.endings, WsReceiver.endings, List.drop_eq_getElem_cons hlt, hget]
    rfl
  constructor
  case made => exact h.made
  case only => exact h.only
  case read => exact hlt
  case live =>
    rw [hendings]
    exact h.live
  case ended =>
    rw [hendings]
    exact h.ended

/-- Only a session that is gone has its end in the channel. -/
theorem finished (h : Awaits t gone c sid rx)
    (hevent : (t.eventsOf rx.tx)[rx.read]? = some .sessionEnded) : gone := by
  obtain ⟨hlt, hget⟩ := List.getElem?_eq_some_iff.mp hevent
  by_contra hlive
  have hzero := (h.live hlive).2
  rw [WsReceiver.endings, List.drop_eq_getElem_cons hlt, hget, List.count_cons_self] at hzero
  omega

end Awaits

/-- A connection and what it holds: the session it is attached to, of which it has heard nothing, or
one that is gone, of whose end it has been told. -/
structure Hears (t : WsSharedState) (gone known : Uuid → Prop) (c : Nat) (es : List WsExchange)
    (conn : WsConnection) : Prop where
  attached : ∀ {sid}, conn.attachedSession = some sid → holding es = some sid ∧
    endings sid es = 0 ∧ ∃ rx, conn.eventRx = some rx ∧ Awaits t (gone sid) c sid rx
  told : ∀ {sid}, holding es = some sid → conn.attachedSession = none →
    gone sid ∧ endings sid es = 1
  closed : conn.attachedSession = none → conn.eventRx = none
  known : ∀ {sid}, holding es = some sid → known sid

namespace Hears

variable {t t' : WsSharedState} {gone gone' known known' : Uuid → Prop} {c : Nat}
  {es es' : List WsExchange} {conn conn' : WsConnection}

private theorem new (t : WsSharedState) (gone known : Uuid → Prop) (c : Nat) :
    Hears t gone known c [] .new :=
  ⟨fun h => (nomatch h), fun h => (nomatch h), fun _ => rfl, fun h => nomatch h⟩

/-- The table changes, and sessions go. -/
theorem retable (h : Hears t gone known c es conn) (hknown : ∀ {sid}, known sid → known' sid)
    (hgone : ∀ {sid}, known sid → gone sid → gone' sid)
    (hawaits : ∀ {sid rx}, known sid → Awaits t (gone sid) c sid rx →
      Awaits t' (gone' sid) c sid rx) : Hears t' gone' known' c es conn where
  attached hsession := by
    obtain ⟨hholding, hzero, rx, hrx, hwait⟩ := h.attached hsession
    exact ⟨hholding, hzero, rx, hrx, hawaits (h.known hholding) hwait⟩
  told hholding hsession := by
    obtain ⟨hg, hone⟩ := h.told hholding hsession
    exact ⟨hgone (h.known hholding) hg, hone⟩
  closed := h.closed
  known hholding := hknown (h.known hholding)

/-- What passes is of no interest. -/
theorem keep (h : Hears t gone known c es conn) (hholding : holding es' = holding es)
    (hendings : ∀ sid, endings sid es' = endings sid es)
    (hattached : conn'.attachedSession = conn.attachedSession)
    (hrx : conn'.eventRx = conn.eventRx) : Hears t gone known c es' conn' := by
  constructor
  case attached =>
    intro sid hsession
    rw [hholding, hendings, hrx]
    exact h.attached (hattached.symm.trans hsession)
  case told =>
    intro sid hheld hsession
    rw [hendings]
    exact h.told (hholding.symm.trans hheld) (hattached.symm.trans hsession)
  case closed =>
    rw [hattached, hrx]
    exact h.closed
  case known => exact fun hheld => h.known (hholding.symm.trans hheld)

private theorem dropped (hholding : holding es = none) (hattached : conn.attachedSession = none)
    (hrx : conn.eventRx = none) : Hears t gone known c es conn where
  attached hsession := by cases hattached.symm.trans hsession
  told hheld := by cases hholding.symm.trans hheld
  closed _ := hrx
  known hheld := by cases hholding.symm.trans hheld

private theorem said (h : Hears t gone known c es conn) {request : Request} {task : WsTask}
    (hforeign : ∀ {sid cols rows snapshot}, request = .detach sid cols rows snapshot →
      conn.attachedSession ≠ some sid) :
    Hears t gone known c (.said request :: es) { conn with task := task } := by
  have hsub : ∀ {sid}, holding (.said request :: es) = some sid → holding es = some sid := by
    intro sid hheld
    cases request with
    | detach i cols rows snapshot =>
      rw [holding] at hheld
      split at hheld
      · cases hheld
      · exact hheld
    | _ => exact hheld
  constructor
  case attached =>
    intro sid hsession
    obtain ⟨hheld, hzero, hwait⟩ := h.attached hsession
    refine ⟨?_, hzero, hwait⟩
    cases request with
    | detach i cols rows snapshot =>
      have hne : holding es ≠ some i := by
        rintro hi
        cases hheld.symm.trans hi
        exact hforeign rfl hsession
      exact (if_neg hne).trans hheld
    | _ => exact hheld
  case told => exact fun hheld hsession => h.told (hsub hheld) hsession
  case closed => exact h.closed
  case known => exact fun hheld => h.known (hsub hheld)

private theorem exchanged (h : Hears t gone known c es conn) (ht : t.Wf) {cmd : Option WsCommand}
    (hgranted : ∀ {sid}, conn.granted = some sid → ¬ gone sid ∧ known sid)
    (hex : conn.Exchanged t c t' conn' cmd es') : Hears t' gone known c (es' ++ es) conn' := by
  cases hex with
  | plain _ _ hattached hrx hnone =>
    exact h.keep (holding_texts hnone es) (fun sid => endings_texts hnone sid es) hattached hrx
  | said _ hforeign => exact h.said hforeign
  | detached _ hsession _ hattached hrx =>
    exact dropped (if_pos (h.attached hsession).1) hattached hrx
  | typed _ => exact h.keep rfl (fun _ => rfl) rfl rfl
  | forwarded _ => exact h.keep rfl (fun _ => rfl) rfl rfl
  | @subscribed _ _ response _ sid htask hresponse _ hattached hrx =>
    obtain ⟨hlive, hknown⟩ := hgranted
      (WsConnection.granted_eq_some.mpr ⟨_, _, _, htask, hresponse⟩)
    have hholding : holding ([.sent (.text response)] ++ es) = some sid := by
      change response.granted.or _ = _
      rw [hresponse, Option.some_or]
    constructor
    case attached =>
      intro i hi
      cases hattached.symm.trans hi
      refine ⟨hholding, ?_, _, hrx, .start ht hlive c sid⟩
      change (if response.granted.isSome then 0 else _) = 0
      rw [hresponse]
      rfl
    case told =>
      intro i _ hi
      cases hattached.symm.trans hi
    case closed =>
      intro hi
      cases hattached.symm.trans hi
    case known =>
      intro i hi
      cases hholding.symm.trans hi
      exact hknown
  | @delivered _ rx data _ hrx hevent _ hattached hrx' =>
    constructor
    case attached =>
      intro sid hsession
      obtain ⟨hheld, hzero, rx₀, hrx₀, hwait⟩ := h.attached (hattached.symm.trans hsession)
      cases hrx.symm.trans hrx₀
      exact ⟨hheld, hzero, _, hrx', hwait.deliver hevent⟩
    case told => exact fun hheld hsession => h.told hheld (hattached.symm.trans hsession)
    case closed =>
      intro hsession
      cases hrx.symm.trans (h.closed (hattached.symm.trans hsession))
    case known => exact h.known
  | @ended _ rx sid _ hrx hevent hsession _ hattached hrx' =>
    obtain ⟨hheld, hzero, rx₀, hrx₀, hwait⟩ := h.attached hsession
    cases hrx.symm.trans hrx₀
    constructor
    case attached =>
      intro i hi
      cases hattached.symm.trans hi
    case told =>
      intro i hi _
      cases hheld.symm.trans hi
      refine ⟨hwait.finished hevent, ?_⟩
      change endings sid es + (if sid = sid then 1 else 0) = 1
      rw [hzero, if_pos rfl]
    case closed => exact fun _ => hrx'
    case known => exact h.known
  | left _ _ hattached hrx => exact dropped rfl hattached hrx
  | reported _ => exact h.keep rfl (fun _ => rfl) rfl rfl

/-- Other clients. -/
theorem aside (h : Hears t gone known c es conn) {i : Nat} (hi : c ≠ i)
    {conn₁ conn₂ : WsConnection} {cmd : Option WsCommand}
    (hex : conn₁.Exchanged t i t' conn₂ cmd es') : Hears t' gone known c es conn := by
  rcases hex.shared with rfl | ⟨sid, rfl⟩ | ⟨sid, _, rfl⟩
  · exact h
  · exact h.retable id (fun _ hg => hg) fun _ hw => hw.unsubscribe sid hi.symm
  · exact h.retable id (fun _ hg => hg) fun _ hw => hw.subscribe sid i

/-- Once the session is gone there is one announcement, taken or to be taken; before, there is
none. -/
theorem announced (h : Hears t gone known c es conn) {sid : Uuid} (hheld : holding es = some sid) :
    (gone sid → endings sid es + conn.pending t = 1) ∧
      (¬ gone sid → endings sid es + conn.pending t = 0) := by
  cases hsession : conn.attachedSession with
  | none =>
    obtain ⟨hgone, hone⟩ := h.told hheld hsession
    have hnone : conn.pending t = 0 := by
      rw [WsConnection.pending, h.closed hsession]
      rfl
    rw [hone, hnone]
    exact ⟨fun _ => rfl, fun hlive => absurd hgone hlive⟩
  | some i =>
    obtain ⟨hheld', hzero, rx, hrx, hwait⟩ := h.attached hsession
    cases hheld.symm.trans hheld'
    have hpending : conn.pending t = rx.endings t := by
      rw [WsConnection.pending, hrx]
      rfl
    rw [hzero, hpending, Nat.zero_add]
    exact ⟨fun hgone => (hwait.ended hgone).2, fun hlive => (hwait.live hlive).2⟩

end Hears

namespace Closing

/-- The descriptor of which the daemon finds the end. -/
def Label.endOfOutput : Label → Option RawFd
  | .world (.daemon (.output fd .eof _)) => some fd
  | _ => none

/-- The connection whose task takes the step. -/
def Label.taskOf : Label → Option Nat
  | .world (.task c _) => some c
  | _ => none

end Closing

namespace Server

variable {J : Codec} {σ σ' : Server} {e : Event}

/-- An event and what the channels announce, where no session with subscribers ends silently. -/
theorem event_hears (hinv : Inv σ) (harrive : σ.arrive e = σ) (h : σ.event J e = .ok σ')
    (ht : σ.wsShared.Wf)
    (hsilent : ∀ {id}, σ.endsSilently e id → σ.wsShared.subscribers.lookup id = none) :
    (∀ {c es conn}, Hears σ.wsShared σ.gone (· ∈ σ.ids) c es conn →
        Hears σ'.wsShared σ'.gone (· ∈ σ'.ids) c es conn) ∧
      ∀ {id}, (σ.wsShared.subscribers.lookup id ≠ none → ¬ σ.gone id) →
        σ'.wsShared.subscribers.lookup id ≠ none → ¬ σ'.gone id := by
  obtain ⟨hids, hgone⟩ := event_gone hinv h
  have hlisted : ∀ {t : WsSharedState} {id : Uuid} {sub : WsSubscriber}, sub ∈ t.subscribersOf id →
      t.subscribers.lookup id ≠ none := by
    intro t id sub hsub hnone
    rw [subscribersOf, hnone] at hsub
    cases hsub
  rcases event_ended hinv h with ⟨ended, htold, hends⟩ | ⟨id, bytes, _, hread⟩
  · have hshared := htold.shared
    have hended := htold.gone
    rw [harrive] at hshared hended
    rw [hshared]
    constructor
    · intro c es conn hhears
      refine hhears.retable (fun hid => hids hid) (fun hid => hgone _ hid)
        fun {sid rx} hid hwait => ?_
      apply hwait.told ht ended (hgone _ hid) (fun hmem => hended _ hmem hid)
      intro hnow
      by_cases hbefore : σ.gone sid
      · exact .inl hbefore
      · rcases hends sid hbefore hnow with hmem | hquiet
        · exact .inr hmem
        · exact absurd (hsilent hquiet) (hlisted (hwait.live hbefore).1)
    · intro id hlive hkey hnow
      rw [told_lookup] at hkey
      split at hkey
      · exact hkey rfl
      · rename_i hnot
        rcases hends id (hlive hkey) hnow with hmem | hquiet
        · exact hnot hmem
        · exact hkey (hsilent hquiet)
  · have hsame : σ'.gone = σ.gone := by
      obtain ⟨s, s', hs, _, _, _, hcore, _⟩ := hread.spec
      funext i
      rw [Server.gone, Server.gone, hcore]
      split
      · rename_i hi
        rw [hi, coreOf_eq_some hs]
        simp
      · rfl
    rw [hsame]
    cases hread
    constructor
    · intro c es conn hhears
      exact hhears.retable (fun hid => hids hid) (fun _ hg => hg) fun _ hwait =>
        hwait.broadcast ht id bytes
    · exact fun hlive => hlive

end Server

private theorem Streams.clientRead_gone {w : Streams} {id : Uuid} {s : Session} {data : List UInt8}
    (hs : w.server.sessions.lookup id = some s) :
    (w.clientRead id s data).server.gone = w.server.gone := by
  funext i
  rw [← propext Server.countOf_eq_none, ← propext Server.countOf_eq_none, Server.countOf,
    clientRead_map Session.wsClientCount (fun _ _ => rfl) hs data]
  rfl

namespace History

variable {J : Codec} {x x' : History} {l : Closing.Label}

/-- The end of its output takes no session that has subscribers, and an `AttachReady` finds its
session still there. -/
def Announcing (x : History) (l : Closing.Label) : Prop :=
  (∀ fd ∈ l.endOfOutput, ∀ s ∈ x.world.server.sessions.findByMasterFd fd, s.state ≠ .attached →
    x.world.shared.subscribers.lookup s.id = none) ∧
  ∀ c ∈ l.taskOf, ∀ conn ∈ x.world.connections.lookup c, ∀ sid ∈ conn.granted,
    (x.world.server.sessions.lookup sid).isSome = true

-- the sessions are not to be enumerated
instance (x : History) (l : Closing.Label) : Decidable (Announcing x l) :=
  haveI (conn : WsConnection) : Decidable (∀ sid ∈ conn.granted,
      (x.world.server.sessions.lookup sid).isSome = true) := Option.decidableForallMem _
  inferInstanceAs (Decidable (_ ∧ _))

structure Heard (x : History) : Prop where
  conn : ∀ {c conn}, x.world.connections.lookup c = some conn →
    Hears x.world.shared x.world.server.gone (fun sid => x.state.closed = false →
      sid ∈ x.world.server.ids) c (transcript c x.log) conn
  keys : ∀ {sid}, x.world.shared.subscribers.lookup sid ≠ none → ¬ x.world.server.gone sid

private theorem Heard.event (hsound : Sound x) (h : Heard x) {e : Event} {σ' : Server}
    (hopen : x.state.closed = false) (harrive : x.world.server.arrive e = x.world.server)
    (hevent : x.world.server.event J e = .ok σ')
    (hsilent : ∀ {id}, x.world.server.endsSilently e id →
      x.world.shared.subscribers.lookup id = none) :
    (∀ {c conn es}, Hears x.world.shared x.world.server.gone
        (fun sid => x.state.closed = false → sid ∈ x.world.server.ids) c es conn →
      Hears σ'.wsShared σ'.gone (fun sid => x.state.closed = false → sid ∈ σ'.ids) c es conn) ∧
      ∀ {sid}, σ'.wsShared.subscribers.lookup sid ≠ none → ¬ σ'.gone sid := by
  obtain ⟨hhears, hkeys⟩ :=
    Server.event_hears (hsound.server hopen) harrive hevent hsound.wf hsilent
  constructor
  · intro c conn es hconn
    have hbefore : Hears _ _ (· ∈ x.world.server.ids) c es conn :=
      hconn.retable (fun hid => hid hopen) (fun _ hg => hg) fun _ hwait => hwait
    exact (hhears hbefore).retable (fun hid _ => hid) (fun _ hg => hg) fun _ hwait => hwait
  · exact fun hkey => hkeys h.keys hkey

private theorem Heard.task (hsound : Sound x) (h : Heard x) {c : Nat} {conn conn' : WsConnection}
    {t : WsSharedState} {cmd : Option WsCommand} {queue : List WsCommand} {es : List WsExchange}
    (hconn : x.world.connections.lookup c = some conn)
    (hlive : ∀ {sid}, conn.granted = some sid → ¬ x.world.server.gone sid)
    (hex : conn.Exchanged x.world.shared c t conn' cmd es) :
    Heard ⟨{ x.state with
      world := { x.world.withShared t with
        connections := x.world.connections.insert c conn'
        queue := queue } }, es.map (.client c) ++ x.log⟩ := by
  have hknown : ∀ {sid}, ¬ x.world.server.gone sid → x.state.closed = false →
      sid ∈ x.world.server.ids := by
    intro sid hlive hopen
    obtain ⟨core, hcore⟩ := Option.ne_none_iff_exists'.mp hlive
    exact ((hsound.server hopen).session hcore).known
  refine ⟨fun {i conn₁} hconn₁ => ?_, fun {sid} hkey => ?_⟩
  · rcases lookup_exchanged es x.log hconn₁ with ⟨rfl, rfl, hlog⟩ | ⟨hi, hconn₁, hlog⟩
    · rw [hlog]
      exact (h.conn hconn).exchanged hsound.wf
        (fun hgranted => ⟨hlive hgranted, hknown (hlive hgranted)⟩) hex
    · rw [hlog]
      exact (h.conn hconn₁).aside hi hex
  · rcases hex.shared with rfl | ⟨i, rfl⟩ | ⟨i, hgranted, rfl⟩
    · exact h.keys hkey
    · exact h.keys (lookup_unsubscribe hkey)
    · have hkey : (x.world.shared.subscribers.insert i _).lookup sid ≠ none := hkey
      rw [Table.lookup_insert] at hkey
      split at hkey
      · rename_i hi
        rw [hi]
        exact hlive hgranted
      · exact h.keys hkey

private theorem Heard.close (hsound : Sound x) (h : Heard x) (env : Env)
    (hopen : x.state.closed = false) : Heard ⟨⟨x.world.cleanup env, true⟩, x.log⟩ := by
  have hshared : (x.world.cleanup env).shared = _ := Server.cleanup_wsShared env _
  have hgone : ∀ sid, (x.world.cleanup env).server.gone sid := fun sid =>
    congrArg (Option.map Session.core) ((Server.cleanup_kills env (hsound.server hopen)).1 sid)
  have hkey : ∀ {sid}, sid ∈ x.world.shared.subscribers.keys ↔
      x.world.shared.subscribers.lookup sid ≠ none := by
    intro sid
    rw [← AList.mem_keys, ← AList.lookup_isSome, Option.isSome_iff_ne_none]
  refine ⟨fun {c conn} hconn => ?_, fun {sid} hkey' => ?_⟩
  · refine (h.conn hconn).retable (fun _ hclosed => by cases hclosed) (fun _ _ => hgone _) ?_
    intro sid rx _ hwait
    rw [hshared]
    apply hwait.told hsound.wf _ (fun _ => hgone sid) (fun _ => hgone sid)
    intro _
    by_cases hbefore : x.world.server.gone sid
    · exact .inl hbefore
    · right
      apply hkey.mpr
      intro hnone
      have hlisted := (hwait.live hbefore).1
      rw [subscribersOf, hnone] at hlisted
      cases hlisted
  · rw [hshared, told_lookup] at hkey'
    split at hkey'
    · exact absurd rfl hkey'
    · rename_i hnot
      exact absurd (hkey.mpr hkey') hnot

private theorem Heard.step (hsound : Sound x) (h : Heard x) (hg : Announcing x l)
    (hnoted : Noted J x l x') : Heard x' := by
  cases hnoted with
  | accept =>
    refine ⟨fun {c conn} hconn => ?_, h.keys⟩
    rcases WsWorld.lookup_accept hconn with ⟨rfl, rfl⟩ | hconn
    · rw [hsound.newcomer]
      exact .new ..
    · exact (h.conn hconn).retable id (fun _ hg => hg) fun _ hwait =>
        hwait.retable (le_refl _) rfl id fun hsub _ => hsub
  | @task c s conn conn' t cmd es hconn _ _ hex =>
    apply h.task hsound hconn _ hex
    intro sid hgranted
    have hsome := hg.2 c rfl conn hconn sid hgranted
    rw [Server.gone, Server.coreOf, Option.map_eq_none_iff]
    exact fun hnone => by cases hnone ▸ hsome
  | @drain cmd queue env σ' hopen hqueue hevent =>
    obtain ⟨hhears, hkeys⟩ := h.event hsound hopen rfl hevent fun hends => hends.elim
    refine ⟨fun {c conn'} hconn' => ?_, hkeys⟩
    obtain ⟨conn, hconn, hattached, hrx, _, _⟩ := WsWorld.lookup_replyTo hconn'
    exact (hhears (h.conn hconn)).keep rfl (fun _ => rfl) hattached hrx
  | @daemon e σ' hopen _ harrive hevent =>
    have hsilent : ∀ {id}, x.world.server.endsSilently e id →
        x.world.shared.subscribers.lookup id = none := by
      intro id hends
      cases e with
      | output fd read env =>
        cases read with
        | eof =>
          obtain ⟨s, hs, rfl, hfree⟩ := hends
          exact hg.1 fd rfl s hs hfree
        | _ => cases hends
      | _ => cases hends
    obtain ⟨hhears, hkeys⟩ := h.event hsound hopen harrive hevent hsilent
    exact ⟨fun hconn => hhears (h.conn hconn), hkeys⟩
  | @clientRead id s data hs =>
    have hgone : (x.world.streams.clientRead id s data).server.gone = x.world.server.gone :=
      Streams.clientRead_gone hs
    refine ⟨fun {c conn} hconn => ?_, fun {sid} hkey => ?_⟩
    · change Hears _ (x.world.streams.clientRead id s data).server.gone _ c _ conn
      rw [hgone]
      exact h.conn hconn
    · change ¬ (x.world.streams.clientRead id s data).server.gone sid
      rw [hgone]
      exact h.keys hkey
  | close hopen => exact h.close hsound _ hopen

/-- A client that holds a session has been told once of its end, or has yet to take the news from
its channel, if the session is gone; otherwise there is no news. -/
def Announced (x : History) : Prop :=
  ∀ c conn sid, x.world.connections.lookup c = some conn →
    holding (transcript c x.log) = some sid →
      endings sid (transcript c x.log) + conn.pending x.world.shared =
        if (x.world.server.sessions.lookup sid).isSome then 0 else 1

/-- As long as no session with subscribers ends silently and no `AttachReady` comes too late, every
ending is announced once, and the subscribers are those of sessions there are. -/
theorem endings_announced (h : (Closing.history J).Reach Announcing x) :
    Announced x ∧ ∀ sid, x.world.shared.subscribers.lookup sid ≠ none →
      (x.world.server.sessions.lookup sid).isSome = true := by
  have hheard : Heard x := by
    apply invariant h
    · intro listener wakeup now
      exact ⟨fun h => (nomatch h), fun h => absurd rfl h⟩
    · exact fun x l x' hsound hheard hg hnoted => hheard.step hsound hg hnoted
  have hlive : ∀ sid, ¬ x.world.server.gone sid ↔
      (x.world.server.sessions.lookup sid).isSome = true := by
    intro sid
    rw [Server.gone, Server.coreOf, Option.map_eq_none_iff, ← ne_eq, Option.isSome_iff_ne_none]
  constructor
  · intro c conn sid hconn hheld
    obtain ⟨hgone, hthere⟩ := (hheard.conn hconn).announced hheld
    split
    · rename_i hsome
      exact hthere ((hlive sid).mpr hsome)
    · rename_i hnone
      exact hgone (not_not.mp fun hnot => hnone ((hlive sid).mp hnot))
  · exact fun sid hkey => (hlive sid).mp (hheard.keys hkey)

/-- A local client creates session 7, and WebSocket client 1 attaches it. -/
private def holdRun : List Closing.Label :=
  [.world (.daemon (.accept 5)),
    .world (.daemon (.request 5 (.ok (.create none 80 24 none none none)) 0 Server.calm)),
    .world .accept,
    .world (.task 1 (.text (.ok (.attach 7)))),
    .world (.task 1 .forward),
    .world (.drain Server.calmLater),
    .world (.task 1 .finish)]

/-- The local client kills the session, and the news is in the channel of client 1. -/
theorem endings_announced_kill :
    ∃ (x : History) (conn : WsConnection), (Closing.history Server.silent).Reach Announcing x ∧
      x.world.connections.lookup 1 = some conn ∧ conn.pending x.world.shared = 1 := by
  have hrun : ((Closing.history Server.silent).execWhere Announcing (new 3 none 0) (holdRun ++
      [.world (.daemon (.request 5 (.ok (.kill 7)) 0 Server.calmLater))])).map
      (fun x : History => ((x.world.connections.lookup 1).isSome, holding (transcript 1 x.log),
        endings 7 (transcript 1 x.log), (x.world.server.sessions.lookup 7).isSome)) =
      some (true, some 7, 0, false) := by decide +kernel
  obtain ⟨x, hexec, hall⟩ := Option.map_eq_some_iff.mp hrun
  simp only [Prod.mk.injEq] at hall
  obtain ⟨hthere, hheld, hnone, hgone⟩ := hall
  have hreach := (Transition.System.Reach.start (init_new _ 3 none 0)).execWhere hexec
  obtain ⟨conn, hconn⟩ := Option.isSome_iff_exists.mp hthere
  have hannounced := (endings_announced hreach).1 1 conn 7 hconn hheld
  rw [hnone, hgone, Nat.zero_add] at hannounced
  exact ⟨x, conn, hreach, hconn, hannounced⟩

/-- The daemon reads the end of the output, and client 1 is never told. -/
theorem silent_ending :
    ¬ ∀ (J : Codec) (x : History), (Closing.history J).Reachable x → Announced x := by
  intro h
  have hrun : ((Closing.history Server.silent).exec (new 3 none 0) (holdRun ++
      [.world (.daemon (.output 10 .eof Server.calm))])).map
      (fun x : History => ((x.world.connections.lookup 1).map fun conn =>
        conn.pending x.world.shared, holding (transcript 1 x.log),
        endings 7 (transcript 1 x.log), (x.world.server.sessions.lookup 7).isSome)) =
      some (some 0, some 7, 0, false) := by decide +kernel
  obtain ⟨x, hexec, hall⟩ := Option.map_eq_some_iff.mp hrun
  simp only [Prod.mk.injEq] at hall
  obtain ⟨hpending, hheld, hnone, hgone⟩ := hall
  obtain ⟨conn, hconn, hpending⟩ := Option.map_eq_some_iff.mp hpending
  have hreach : (Closing.history Server.silent).Reachable x :=
    Transition.System.Reachable.exec (.start (init_new _ 3 none 0)) hexec
  have hannounced := h Server.silent x hreach 1 conn 7 hconn hheld
  rw [hnone, hpending, hgone] at hannounced
  cases hannounced

end History

end PtyDaemon
