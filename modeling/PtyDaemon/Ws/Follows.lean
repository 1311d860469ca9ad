import PtyDaemon.Ws.World

/-!
# A channel follows its session

From its subscription on, a channel gets every byte the daemon reads from the PTY, until it is told
that the session has ended. What the client has got is the part of it that has been taken from the
channel.
-/

namespace PtyDaemon

open WsSharedState

/-- The channel of `st`, a stream of client `c`, follows a session that has put out `out` and has
been read by local clients up to `clientEnd`. -/
structure Follows (t : WsSharedState) (gone : Prop) (out : List UInt8) (clientEnd c : Nat)
    (st : WsStream) (eventRx : Option WsReceiver) : Prop where
  made : st.tx < t.channels
  subscribed : ¬ gone → ⟨st.tx, c⟩ ∈ t.subscribersOf st.sessionId
  only : ∀ {id sub}, sub ∈ t.subscribersOf id → sub.tx = st.tx → id = st.sessionId
  ended : .sessionEnded ∈ t.eventsOf st.tx → gone
  closed : .sessionEnded ∈ t.eventsOf st.tx → ∀ {id sub}, sub ∈ t.subscribersOf id → sub.tx ≠ st.tx
  last : ∀ {n}, (t.eventsOf st.tx)[n]? = some .sessionEnded → n + 1 = (t.eventsOf st.tx).length
  sent : clientEnd ≤ st.subscribedAt → outputs (t.eventsOf st.tx) = out.drop st.subscribedAt
  dumped : st.dumpedAt ≤ st.subscribedAt
  bound : st.subscribedAt ≤ out.length
  history : st.history <:+ out.take st.dumpedAt
  receiving : ∀ {rx}, eventRx = some rx → rx.tx = st.tx ∧ rx.read ≤ (t.eventsOf st.tx).length ∧
    st.delivered = outputs ((t.eventsOf st.tx).take rx.read)
  done : eventRx = none → gone ∧ st.delivered = outputs (t.eventsOf st.tx)

namespace Follows

variable {t t' : WsSharedState} {gone gone' : Prop} {out : List UInt8} {clientEnd c : Nat}
  {st : WsStream} {eventRx : Option WsReceiver}

/-- Nothing is sent on the channel, and it keeps its subscriber. -/
theorem retable (h : Follows t gone out clientEnd c st eventRx)
    (hchannels : t.channels ≤ t'.channels) (hevents : t'.eventsOf st.tx = t.eventsOf st.tx)
    (hkeep : ¬ gone → ⟨st.tx, c⟩ ∈ t'.subscribersOf st.sessionId)
    (hold : ∀ {id sub}, sub ∈ t'.subscribersOf id → sub.tx = st.tx → sub ∈ t.subscribersOf id) :
    Follows t' gone out clientEnd c st eventRx where
  made := h.made.trans_le hchannels
  subscribed := hkeep
  only hsub htx := h.only (hold hsub htx) htx
  ended hmem := h.ended (hevents ▸ hmem)
  closed hmem _ _ hsub htx := h.closed (hevents ▸ hmem) (hold hsub htx) htx
  last hn := by
    rw [hevents] at hn ⊢
    exact h.last hn
  sent hend := by
    rw [hevents]
    exact h.sent hend
  dumped := h.dumped
  bound := h.bound
  history := h.history
  receiving hrx := by
    rw [hevents]
    exact h.receiving hrx
  done hrx := by
    rw [hevents]
    exact h.done hrx

/-- The session may go. -/
theorem goes (h : Follows t gone out clientEnd c st eventRx) (hgone : gone → gone') :
    Follows t gone' out clientEnd c st eventRx :=
  { h with
    subscribed := fun hlive => h.subscribed fun hg => hlive (hgone hg)
    ended := fun hmem => hgone (h.ended hmem)
    done := fun hrx => ⟨hgone (h.done hrx).1, (h.done hrx).2⟩ }

theorem subscribe (h : Follows t gone out clientEnd c st eventRx) (id : Uuid) (i : Nat) :
    Follows (t.subscribe id i).2 gone out clientEnd c st eventRx := by
  refine h.retable (Nat.le_succ _) rfl (fun hlive => mem_subscribe_old (h.subscribed hlive)) ?_
  intro id' sub hsub htx
  rcases mem_subscribe hsub with hsub | ⟨_, rfl⟩
  · exact hsub
  · exact absurd h.made (htx ▸ Nat.lt_irrefl _)

/-- Another client leaves, or the session is gone. -/
theorem unsubscribe (h : Follows t gone out clientEnd c st eventRx) (id : Uuid) {i : Nat}
    (hi : gone ∨ i ≠ c) : Follows (t.unsubscribe id i) gone out clientEnd c st eventRx := by
  refine h.retable (le_refl _) rfl (fun hlive => ?_) fun hsub _ => mem_unsubscribe hsub
  exact mem_unsubscribe_other (h.subscribed hlive) (hi.resolve_left hlive).symm

private theorem last_append {es : List WsEvent} (hes : .sessionEnded ∉ es) (e : WsEvent) {n : Nat}
    (hn : (es ++ [e])[n]? = some .sessionEnded) : n + 1 = (es ++ [e]).length := by
  rcases Nat.lt_trichotomy n es.length with hlt | rfl | hgt
  · rw [List.getElem?_append_left hlt] at hn
    exact absurd (List.mem_of_getElem? hn) hes
  · rw [List.length_append, List.length_singleton]
  · rw [List.getElem?_eq_none (by rw [List.length_append, List.length_singleton]; omega)] at hn
    cases hn

/-- A session that is gone has ended. -/
theorem notify (h : Follows t gone out clientEnd c st eventRx) (ht : t.Wf) (id : Uuid)
    (hgone : id = st.sessionId → gone) :
    Follows (t.notifySessionEnded id) gone out clientEnd c st eventRx := by
  have hevents := eventsOf_notify ht id st.tx
  by_cases hmem : st.tx ∈ (t.subscribersOf id).map WsSubscriber.tx
  · rw [if_pos hmem] at hevents
    obtain ⟨sub, hsub, htx⟩ := List.mem_map.mp hmem
    obtain rfl := h.only hsub htx
    have hopen : .sessionEnded ∉ t.eventsOf st.tx := fun hended => h.closed hended hsub htx
    constructor
    case made => exact h.made
    case subscribed => exact fun hlive => absurd (hgone rfl) hlive
    case only => exact fun hsub htx => h.only (mem_notify hsub).2 htx
    case ended => exact fun _ => hgone rfl
    case closed =>
      intro _ id' sub' hsub' htx'
      obtain ⟨hne, hold⟩ := mem_notify hsub'
      exact hne (h.only hold htx')
    case last =>
      rw [hevents]
      exact last_append hopen _
    case sent =>
      intro hend
      rw [hevents, outputs_append]
      exact (List.append_nil _).trans (h.sent hend)
    case dumped => exact h.dumped
    case bound => exact h.bound
    case history => exact h.history
    case receiving =>
      intro rx hrx
      obtain ⟨htx, hread, hdelivered⟩ := h.receiving hrx
      rw [hevents, List.take_append_of_le_length hread, List.length_append]
      exact ⟨htx, hread.trans (Nat.le_add_right _ _), hdelivered⟩
    case done =>
      intro hrx
      rw [hevents, outputs_append]
      exact ⟨hgone rfl, (h.done hrx).2.trans (List.append_nil _).symm⟩
  · rw [if_neg hmem, List.append_nil] at hevents
    refine h.retable (le_refl _) hevents (fun hlive => ?_) fun hsub _ => (mem_notify hsub).2
    rw [subscribersOf_notify]
    split
    · rename_i hid
      exact absurd (hgone hid.symm) hlive
    · exact h.subscribed hlive

/-- The daemon tells the subscribers of some sessions, this one only if it is gone. -/
theorem told (ended : List Uuid) (h : Follows t gone out clientEnd c st eventRx) (ht : t.Wf)
    (hgone : st.sessionId ∈ ended → gone) :
    Follows (ended.foldl notifySessionEnded t) gone out clientEnd c st eventRx := by
  induction ended generalizing t with
  | nil => exact h
  | cons id ended ih =>
    have hnotify := h.notify ht id fun hid => hgone (hid ▸ List.mem_cons_self)
    exact ih hnotify (ht.notify id) fun hmem => hgone (List.mem_cons_of_mem id hmem)

/-- The daemon has read from a session that is there, and broadcasts. -/
theorem broadcast (h : Follows t gone out clientEnd c st eventRx) (ht : t.Wf) {id : Uuid}
    (data : List UInt8) (hlive : id = st.sessionId → ¬ gone) :
    Follows (t.broadcast id data) gone (if st.sessionId = id then out ++ data else out) clientEnd
      c st eventRx := by
  have hevents := eventsOf_broadcast ht id data st.tx
  by_cases hid : st.sessionId = id
  · subst hid
    have hsub := h.subscribed (hlive rfl)
    have hopen : .sessionEnded ∉ t.eventsOf st.tx := fun hended => h.closed hended hsub rfl
    rw [if_pos (List.mem_map_of_mem hsub)] at hevents
    rw [if_pos rfl]
    constructor
    case made => exact h.made
    case subscribed => exact fun _ => hsub
    case only => exact h.only
    case ended =>
      intro hended
      rw [hevents] at hended
      rcases List.mem_append.mp hended with hended | hended
      · exact h.ended hended
      · cases List.mem_singleton.mp hended
    case closed =>
      intro hended
      rw [hevents] at hended
      rcases List.mem_append.mp hended with hended | hended
      · exact h.closed hended
      · cases List.mem_singleton.mp hended
    case last =>
      rw [hevents]
      exact last_append hopen _
    case sent =>
      intro hend
      rw [hevents, outputs_append, h.sent hend, List.drop_append_of_le_length h.bound]
      exact congrArg (out.drop st.subscribedAt ++ ·) (List.append_nil data)
    case dumped => exact h.dumped
    case bound =>
      rw [List.length_append]
      exact h.bound.trans (Nat.le_add_right _ _)
    case history =>
      rw [List.take_append_of_le_length (h.dumped.trans h.bound)]
      exact h.history
    case receiving =>
      intro rx hrx
      obtain ⟨htx, hread, hdelivered⟩ := h.receiving hrx
      rw [hevents, List.take_append_of_le_length hread, List.length_append]
      exact ⟨htx, hread.trans (Nat.le_add_right _ _), hdelivered⟩
    case done => exact fun hrx => absurd (h.done hrx).1 (hlive rfl)
  · have hnot : st.tx ∉ (t.subscribersOf id).map WsSubscriber.tx := by
      intro hmem
      obtain ⟨sub, hsub, htx⟩ := List.mem_map.mp hmem
      exact hid (h.only hsub htx).symm
    rw [if_neg hnot, List.append_nil] at hevents
    rw [if_neg hid]
    exact h.retable (le_refl _) hevents h.subscribed fun hsub _ => hsub

/-- A local client has read something: from then on the channel does not have all of it. -/
theorem clientRead (h : Follows t gone out clientEnd c st eventRx) (data : List UInt8) :
    Follows t gone (out ++ data) (if data ≠ [] then (out ++ data).length else clientEnd) c st
      eventRx := by
  refine { h with
    sent := fun hend => ?_
    bound := by
      rw [List.length_append]
      exact h.bound.trans (Nat.le_add_right _ _)
    history := by
      rw [List.take_append_of_le_length (h.dumped.trans h.bound)]
      exact h.history }
  by_cases hdata : data = []
  · rw [if_neg (not_not.mpr hdata)] at hend
    rw [hdata, List.append_nil]
    exact h.sent hend
  · rw [if_pos hdata, List.length_append] at hend
    have hpos := List.length_pos_of_ne_nil hdata
    have hbound := h.bound
    omega

/-- A new subscription, made when `history` was an end of the output at the dump. -/
theorem start (ht : t.Wf) (c : Nat) {sid : Uuid} {history : List UInt8} {dumpedAt : Nat}
    (hdumped : dumpedAt ≤ out.length) (hhistory : history <:+ out.take dumpedAt) :
    Follows (t.subscribe sid c).2 gone out clientEnd c
      ⟨sid, t.channels, history, [], dumpedAt, out.length⟩ (some ⟨t.channels, 0⟩) := by
  have hevents : (t.subscribe sid c).2.eventsOf t.channels = [] := eventsOf_fresh ht (le_refl _)
  constructor
  case made => exact Nat.lt_succ_self _
  case subscribed => exact fun _ => mem_subscribe_new t sid c
  case only =>
    intro id sub hsub htx
    rcases mem_subscribe hsub with hsub | ⟨rfl, _⟩
    · exact absurd (ht.made hsub) (htx ▸ Nat.lt_irrefl _)
    · rfl
  case ended =>
    intro hmem
    rw [hevents] at hmem
    cases hmem
  case closed =>
    intro hmem
    rw [hevents] at hmem
    cases hmem
  case last =>
    intro n hn
    rw [hevents] at hn
    cases hn
  case sent =>
    intro _
    rw [hevents, List.drop_length]
    rfl
  case dumped => exact hdumped
  case bound => exact le_refl _
  case history => exact hhistory
  case receiving =>
    rintro rx ⟨⟩
    rw [hevents]
    exact ⟨rfl, le_refl _, rfl⟩
  case done => exact fun hrx => nomatch hrx

/-- An output event is taken from the channel. -/
theorem deliver {rx : WsReceiver} (h : Follows t gone out clientEnd c st (some rx))
    {data : List UInt8} (hevent : (t.eventsOf rx.tx)[rx.read]? = some (.ptyOutput data)) :
    Follows t gone out clientEnd c { st with delivered := st.delivered ++ data }
      (some { rx with read := rx.read + 1 }) := by
  obtain ⟨htx, hread, hdelivered⟩ := h.receiving rfl
  rw [htx] at hevent
  obtain ⟨hlt, hget⟩ := List.getElem?_eq_some_iff.mp hevent
  refine { h with
    receiving := ?_
    done := fun hrx => nomatch hrx }
  rintro rx' ⟨⟩
  refine ⟨htx, hlt, ?_⟩
  change st.delivered ++ data = outputs ((t.eventsOf st.tx).take (rx.read + 1))
  rw [List.take_succ_eq_append_getElem hlt, outputs_append, ← hdelivered, hget]
  exact congrArg (st.delivered ++ ·) (List.append_nil data).symm

/-- The end is taken from the channel: there is nothing after it. -/
theorem finish {rx : WsReceiver} (h : Follows t gone out clientEnd c st (some rx))
    (hevent : (t.eventsOf rx.tx)[rx.read]? = some .sessionEnded) :
    Follows t gone out clientEnd c st none := by
  obtain ⟨htx, hread, hdelivered⟩ := h.receiving rfl
  rw [htx] at hevent
  obtain ⟨hlt, hget⟩ := List.getElem?_eq_some_iff.mp hevent
  refine { h with
    receiving := fun hrx => nomatch hrx
    done := fun _ => ⟨h.ended (List.mem_of_getElem? hevent), ?_⟩ }
  have hall : (t.eventsOf st.tx).take (rx.read + 1) = t.eventsOf st.tx :=
    List.take_of_length_le (h.last hevent).ge
  rw [← hall, List.take_succ_eq_append_getElem hlt, outputs_append, ← hdelivered, hget]
  exact (List.append_nil _).symm

end Follows

end PtyDaemon
