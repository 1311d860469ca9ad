import PtyDaemon.WsShared

/-!
# Subscribers and their channels

What the operations on the shared table do to the subscribers of every session, to the sessions of
the clients, and to what has been sent on every channel.
-/

namespace PtyDaemon

/-- The output an event carries. -/
def WsEvent.bytes : WsEvent → List UInt8
  | .ptyOutput data => data
  | .sessionEnded => []

/-- The output a list of events carries. -/
def outputs (events : List WsEvent) : List UInt8 := events.flatMap WsEvent.bytes

theorem outputs_append (es fs : List WsEvent) : outputs (es ++ fs) = outputs es ++ outputs fs :=
  List.flatMap_append

namespace WsSharedState

variable {w : WsSharedState}

/-- What has been sent on a channel, oldest first. -/
def eventsOf (w : WsSharedState) (tx : Nat) : List WsEvent :=
  w.events.filterMap fun p => if p.1 = tx then some p.2 else none

/-- Somebody holds the sending end of a channel. -/
def hasSender (w : WsSharedState) (tx : Nat) : Bool :=
  w.subscribers.values.any fun subs => subs.any fun s => s.tx = tx

/-- Every channel has at most one subscriber, and nothing has been sent on those to come. -/
structure Wf (w : WsSharedState) : Prop where
  made : ∀ {id sub}, sub ∈ w.subscribersOf id → sub.tx < w.channels
  session : ∀ {id id' sub sub'}, sub ∈ w.subscribersOf id → sub' ∈ w.subscribersOf id' →
    sub.tx = sub'.tx → id = id'
  nodup : ∀ id, ((w.subscribersOf id).map WsSubscriber.tx).Nodup
  sent : ∀ p ∈ w.events, p.1 < w.channels

theorem new_wf : WsSharedState.new.Wf :=
  ⟨fun h => (nomatch h), fun h => (nomatch h), fun _ => List.nodup_nil, fun _ h => (nomatch h)⟩

theorem eventsOf_fresh (h : w.Wf) {tx : Nat} (htx : w.channels ≤ tx) : w.eventsOf tx = [] := by
  rw [eventsOf, List.filterMap_eq_nil_iff]
  intro p hp
  have hlt := h.sent p hp
  exact if_neg (by omega)

/-! ## The subscribers of a session -/

private theorem subscribersOf_insert (w : WsSharedState) (id i : Uuid) (subs : List WsSubscriber) :
    ((w.subscribers.insert id subs).lookup i).getD [] =
      if i = id then subs else w.subscribersOf i := by
  rw [Table.lookup_insert]
  split
  · rfl
  · rfl

private theorem subscribersOf_erase (w : WsSharedState) (id i : Uuid) :
    ((w.subscribers.erase id).lookup i).getD [] =
      if i = id then [] else w.subscribersOf i := by
  rw [Table.lookup_erase]
  split
  · rfl
  · rfl

theorem subscribersOf_subscribe (w : WsSharedState) (id i : Uuid) (c : Nat) :
    (w.subscribe id c).2.subscribersOf i =
      if i = id then w.subscribersOf id ++ [⟨w.channels, c⟩] else w.subscribersOf i :=
  subscribersOf_insert w id i _

theorem subscribersOf_unsubscribe (w : WsSharedState) (id i : Uuid) (c : Nat) :
    (w.unsubscribe id c).subscribersOf i =
      if i = id then (w.subscribersOf id).filter fun s => s.clientId ≠ c
      else w.subscribersOf i := by
  simp only [unsubscribe, subscribersOf]
  cases hsubs : w.subscribers.lookup id with
  | none =>
    by_cases hi : i = id
    · rw [if_pos hi, hi, hsubs]
      rfl
    · rw [if_neg hi]
  | some subs =>
    simp only [Option.getD_some]
    by_cases hempty : (subs.filter fun s => decide (s.clientId ≠ c)).isEmpty = true
    · rw [if_pos hempty]
      refine (subscribersOf_erase w id i).trans ?_
      rw [List.isEmpty_iff.mp hempty]
      rfl
    · rw [if_neg hempty]
      exact subscribersOf_insert w id i _

theorem subscribersOf_notify (w : WsSharedState) (id i : Uuid) :
    (w.notifySessionEnded id).subscribersOf i = if i = id then [] else w.subscribersOf i :=
  subscribersOf_erase w id i

theorem mem_unsubscribe {id i : Uuid} {c : Nat} {sub : WsSubscriber}
    (h : sub ∈ (w.unsubscribe id c).subscribersOf i) : sub ∈ w.subscribersOf i := by
  rw [subscribersOf_unsubscribe] at h
  split at h
  · rename_i hi
    rw [hi]
    exact (List.mem_filter.mp h).1
  · exact h

/-- No session comes to the table. -/
theorem lookup_unsubscribe {id i : Uuid} {c : Nat}
    (h : (w.unsubscribe id c).subscribers.lookup i ≠ none) : w.subscribers.lookup i ≠ none := by
  rw [unsubscribe] at h
  dsimp only at h
  split at h
  · exact h
  · rename_i subs hsubs
    split at h
    · rw [Table.lookup_erase] at h
      split at h
      · exact absurd rfl h
      · exact h
    · rw [Table.lookup_insert] at h
      split at h
      · rename_i hi
        rw [hi, hsubs]
        exact fun hnone => by cases hnone
      · exact h

/-- Other clients stay. -/
theorem mem_unsubscribe_other {id i : Uuid} {c : Nat} {sub : WsSubscriber}
    (h : sub ∈ w.subscribersOf i) (hne : sub.clientId ≠ c) :
    sub ∈ (w.unsubscribe id c).subscribersOf i := by
  rw [subscribersOf_unsubscribe]
  split
  · rename_i hi
    rw [hi] at h
    exact List.mem_filter.mpr ⟨h, decide_eq_true hne⟩
  · exact h

theorem mem_notify {id i : Uuid} {sub : WsSubscriber}
    (h : sub ∈ (w.notifySessionEnded id).subscribersOf i) :
    i ≠ id ∧ sub ∈ w.subscribersOf i := by
  rw [subscribersOf_notify] at h
  split at h
  · cases h
  · rename_i hi
    exact ⟨hi, h⟩

theorem mem_subscribe {id i : Uuid} {c : Nat} {sub : WsSubscriber}
    (h : sub ∈ (w.subscribe id c).2.subscribersOf i) :
    sub ∈ w.subscribersOf i ∨ i = id ∧ sub = ⟨w.channels, c⟩ := by
  rw [subscribersOf_subscribe] at h
  split at h
  · rename_i hi
    rcases List.mem_append.mp h with h | h
    · exact .inl (hi ▸ h)
    · exact .inr ⟨hi, List.mem_singleton.mp h⟩
  · exact .inl h

theorem mem_subscribe_old {id i : Uuid} {c : Nat} {sub : WsSubscriber}
    (h : sub ∈ w.subscribersOf i) : sub ∈ (w.subscribe id c).2.subscribersOf i := by
  rw [subscribersOf_subscribe]
  split
  · rename_i hi
    exact List.mem_append_left _ (hi ▸ h)
  · exact h

theorem mem_subscribe_new (w : WsSharedState) (id : Uuid) (c : Nat) :
    ⟨w.channels, c⟩ ∈ (w.subscribe id c).2.subscribersOf id := by
  rw [subscribersOf_subscribe, if_pos rfl]
  exact List.mem_append_right _ (List.mem_singleton_self _)

/-! ## The sessions of the clients -/

/-- The clients that are told are taken out. -/
theorem lookup_notify (w : WsSharedState) (id : Uuid) (c : Nat) :
    (w.notifySessionEnded id).clientSessions.lookup c =
      if c ∈ (w.subscribersOf id).map WsSubscriber.clientId then none
      else w.clientSessions.lookup c := by
  have hfold : ∀ (subs : List WsSubscriber) (m : Table Nat Uuid),
      (subs.foldl (fun m s => m.erase s.clientId) m).lookup c =
        if c ∈ subs.map WsSubscriber.clientId then none else m.lookup c := by
    intro subs
    induction subs with
    | nil => exact fun m => rfl
    | cons sub subs ih =>
      intro m
      simp only [List.foldl_cons, ih, Table.lookup_erase, List.map_cons, List.mem_cons]
      by_cases hc : c = sub.clientId
      · simp [hc]
      · simp [hc]
  exact hfold _ _

/-- The daemon only takes clients out of the table. -/
theorem clientSessions_notify {id s : Uuid} {c : Nat}
    (h : (w.notifySessionEnded id).clientSessions.lookup c = some s) :
    w.clientSessions.lookup c = some s := by
  rw [lookup_notify] at h
  split at h
  · cases h
  · exact h

/-- Telling the subscribers of some sessions adds no entry. -/
theorem told_clientSessions (ended : List Uuid) (t : WsSharedState) :
    (ended.foldl notifySessionEnded t).nextClientId = t.nextClientId ∧
      ∀ {c id}, (ended.foldl notifySessionEnded t).clientSessions.lookup c = some id →
        t.clientSessions.lookup c = some id := by
  induction ended generalizing t with
  | nil => exact ⟨rfl, fun h => h⟩
  | cons i ended ih =>
    obtain ⟨hnext, hsessions⟩ := ih (t.notifySessionEnded i)
    exact ⟨hnext, fun h => clientSessions_notify (hsessions h)⟩

/-! ## What has been sent -/

private theorem filterMap_send {subs : List WsSubscriber}
    (hnodup : (subs.map WsSubscriber.tx).Nodup) (tx : Nat) (e : WsEvent) :
    (subs.map fun s => (s.tx, e)).filterMap (fun p => if p.1 = tx then some p.2 else none) =
      if tx ∈ subs.map WsSubscriber.tx then [e] else [] := by
  induction subs with
  | nil => rfl
  | cons sub subs ih =>
    rw [List.map_cons, List.nodup_cons] at hnodup
    simp only [List.map_cons, List.filterMap_cons, List.mem_cons, ih hnodup.2]
    by_cases htx : sub.tx = tx
    · have hnot : tx ∉ subs.map WsSubscriber.tx := htx ▸ hnodup.1
      simp only [if_pos htx, if_neg hnot, if_pos (Or.inl htx.symm)]
    · simp only [if_neg htx, Ne.symm htx, false_or]

theorem eventsOf_broadcast (h : w.Wf) (id : Uuid) (data : List UInt8) (tx : Nat) :
    (w.broadcast id data).eventsOf tx =
      w.eventsOf tx ++ if tx ∈ (w.subscribersOf id).map WsSubscriber.tx then [.ptyOutput data]
        else [] := by
  rw [eventsOf, broadcast, List.filterMap_append, filterMap_send (h.nodup id)]
  rfl

theorem eventsOf_notify (h : w.Wf) (id : Uuid) (tx : Nat) :
    (w.notifySessionEnded id).eventsOf tx =
      w.eventsOf tx ++ if tx ∈ (w.subscribersOf id).map WsSubscriber.tx then [.sessionEnded]
        else [] := by
  rw [eventsOf, notifySessionEnded, List.filterMap_append, filterMap_send (h.nodup id)]
  rfl

/-! ## The table stays well formed -/

theorem Wf.subscribe (h : w.Wf) (id : Uuid) (c : Nat) : (w.subscribe id c).2.Wf where
  made {i sub} hsub := by
    change sub.tx < w.channels + 1
    rcases mem_subscribe hsub with hsub | ⟨_, rfl⟩
    · exact Nat.lt_succ_of_lt (h.made hsub)
    · exact Nat.lt_succ_self _
  session {i i' sub sub'} hsub hsub' htx := by
    rcases mem_subscribe hsub with hold | ⟨hi, rfl⟩
    · rcases mem_subscribe hsub' with hold' | ⟨_, rfl⟩
      · exact h.session hold hold' htx
      · exact absurd (h.made hold) (by rw [htx]; exact Nat.lt_irrefl _)
    · rcases mem_subscribe hsub' with hold' | ⟨hi', _⟩
      · exact absurd (h.made hold') (by rw [← htx]; exact Nat.lt_irrefl _)
      · rw [hi, hi']
  nodup i := by
    rw [subscribersOf_subscribe]
    split
    · rw [List.map_append, List.nodup_append]
      refine ⟨h.nodup id, by simp, ?_⟩
      intro tx htx tx' htx' heq
      obtain ⟨sub, hsub, rfl⟩ := List.mem_map.mp htx
      have hlt := h.made hsub
      have hnew : tx' = w.channels := by simpa using htx'
      omega
    · exact h.nodup i
  sent p hp := Nat.lt_succ_of_lt (h.sent p hp)

theorem Wf.unsubscribe (h : w.Wf) (id : Uuid) (c : Nat) : (w.unsubscribe id c).Wf where
  made hsub := h.made (mem_unsubscribe hsub)
  session hsub hsub' htx := h.session (mem_unsubscribe hsub) (mem_unsubscribe hsub') htx
  nodup i := by
    rw [subscribersOf_unsubscribe]
    split
    · exact (h.nodup id).sublist (List.filter_sublist.map _)
    · exact h.nodup i
  sent p hp := h.sent p hp

private theorem sent_map (h : w.Wf) {id : Uuid} {e : WsEvent} :
    ∀ p ∈ w.events ++ (w.subscribersOf id).map fun s => (s.tx, e), p.1 < w.channels := by
  intro p hp
  rcases List.mem_append.mp hp with hp | hp
  · exact h.sent p hp
  · obtain ⟨sub, hsub, rfl⟩ := List.mem_map.mp hp
    exact h.made hsub

theorem Wf.broadcast (h : w.Wf) (id : Uuid) (data : List UInt8) : (w.broadcast id data).Wf :=
  ⟨h.made, h.session, h.nodup, sent_map h⟩

theorem Wf.notify (h : w.Wf) (id : Uuid) : (w.notifySessionEnded id).Wf where
  made hsub := h.made (mem_notify hsub).2
  session hsub hsub' htx := h.session (mem_notify hsub).2 (mem_notify hsub').2 htx
  nodup i := by
    rw [subscribersOf_notify]
    split
    · exact List.nodup_nil
    · exact h.nodup i
  sent := sent_map h

theorem Wf.told (h : w.Wf) (ended : List Uuid) : (ended.foldl notifySessionEnded w).Wf := by
  induction ended generalizing w with
  | nil => exact h
  | cons id ended ih => exact ih (h.notify id)

/-! ## Telling the subscribers of several sessions -/

theorem told_subscribersOf (ended : List Uuid) (w : WsSharedState) (i : Uuid) :
    (ended.foldl notifySessionEnded w).subscribersOf i =
      if i ∈ ended then [] else w.subscribersOf i := by
  induction ended generalizing w with
  | nil => rfl
  | cons id ended ih =>
    rw [List.foldl_cons, ih, subscribersOf_notify]
    by_cases hi : i = id
    · simp [hi]
    · simp [hi]

theorem told_lookup (ended : List Uuid) (w : WsSharedState) (i : Uuid) :
    (ended.foldl notifySessionEnded w).subscribers.lookup i =
      if i ∈ ended then none else w.subscribers.lookup i := by
  induction ended generalizing w with
  | nil => rfl
  | cons id ended ih =>
    have hlookup : (w.notifySessionEnded id).subscribers.lookup i =
        if i = id then none else w.subscribers.lookup i := Table.lookup_erase w.subscribers id i
    rw [List.foldl_cons, ih, hlookup]
    by_cases hi : i = id
    · simp [hi]
    · simp [hi]

/-- A channel is told once, however often its session is named. -/
theorem told_eventsOf (h : w.Wf) (ended : List Uuid) {id : Uuid} {tx : Nat}
    (honly : ∀ {i sub}, sub ∈ w.subscribersOf i → sub.tx = tx → i = id) :
    (ended.foldl notifySessionEnded w).eventsOf tx =
      w.eventsOf tx ++
        if id ∈ ended ∧ tx ∈ (w.subscribersOf id).map WsSubscriber.tx then [.sessionEnded]
        else [] := by
  induction ended generalizing w with
  | nil => simp
  | cons i ended ih =>
    have honly' : ∀ {j sub}, sub ∈ (w.notifySessionEnded i).subscribersOf j → sub.tx = tx →
        j = id := fun hsub htx => honly (mem_notify hsub).2 htx
    rw [List.foldl_cons, ih (h.notify i) honly', eventsOf_notify h, subscribersOf_notify]
    by_cases hi : id = i
    · subst hi
      by_cases hmem : tx ∈ (w.subscribersOf id).map WsSubscriber.tx <;> simp [hmem]
    · have hnot : tx ∉ (w.subscribersOf i).map WsSubscriber.tx := by
        intro hmem
        obtain ⟨sub, hsub, htx⟩ := List.mem_map.mp hmem
        exact hi (honly hsub htx).symm
      simp [hi, hnot]

end WsSharedState

end PtyDaemon
