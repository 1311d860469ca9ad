import PtyDaemon.Ws.Dialogue

/-!
# The two maps of the shared table

The table of subscribers and the table of the clients' sessions agree as long as no client is
subscribed while it still has an entry: `subscribe` does not look for one.
-/

namespace PtyDaemon

namespace WsSharedState

variable {t : WsSharedState} {id s : Uuid} {c : Nat}

/-- A client has a session just when it is among the subscribers of it; it is there once and nowhere
else; and no list of subscribers is empty. -/
structure Agree (t : WsSharedState) : Prop where
  sessions : ∀ {c s}, t.clientSessions.lookup c = some s ↔
    ∃ sub ∈ t.subscribersOf s, sub.clientId = c
  once : ∀ s, ((t.subscribersOf s).map WsSubscriber.clientId).Nodup
  across : ∀ {s s' sub sub'}, sub ∈ t.subscribersOf s → sub' ∈ t.subscribersOf s' →
    sub.clientId = sub'.clientId → s = s'
  nonempty : ∀ {s subs}, t.subscribers.lookup s = some subs → subs ≠ []

private theorem new_agree : WsSharedState.new.Agree :=
  ⟨by simp [WsSharedState.new, subscribersOf], by simp [WsSharedState.new, subscribersOf],
    by simp [WsSharedState.new, subscribersOf], by simp [WsSharedState.new]⟩

/-- A client without an entry is nowhere. -/
theorem Agree.nowhere (h : t.Agree) (hc : t.clientSessions.lookup c = none) {sub : WsSubscriber}
    (hsub : sub ∈ t.subscribersOf s) : sub.clientId ≠ c := by
  rintro rfl
  have hsome := h.sessions.mpr ⟨sub, hsub, rfl⟩
  cases hc.symm.trans hsome

private theorem across_of_sessions
    (h : ∀ {c s}, t.clientSessions.lookup c = some s ↔ ∃ sub ∈ t.subscribersOf s, sub.clientId = c)
    {s s' : Uuid} {sub sub' : WsSubscriber} (hsub : sub ∈ t.subscribersOf s)
    (hsub' : sub' ∈ t.subscribersOf s') (hsame : sub.clientId = sub'.clientId) : s = s' := by
  have hs := h.mpr ⟨sub, hsub, rfl⟩
  have hs' := h.mpr ⟨sub', hsub', rfl⟩
  rw [hsame] at hs
  exact Option.some.inj (hs.symm.trans hs')

private theorem Agree.subscribe (h : t.Agree) (hnew : t.clientSessions.lookup c = none)
    (id : Uuid) :
    (t.subscribe id c).2.Agree := by
  have hlookup : ∀ i, (t.subscribe id c).2.clientSessions.lookup i =
      if i = c then some id else t.clientSessions.lookup i :=
    (Table.lookup_insert t.clientSessions c · id)
  have hsessions : ∀ {i s}, (t.subscribe id c).2.clientSessions.lookup i = some s ↔
      ∃ sub ∈ (t.subscribe id c).2.subscribersOf s, sub.clientId = i := by
    intro i s
    rw [hlookup]
    by_cases hi : i = c
    · rw [if_pos hi]
      constructor
      · rintro ⟨⟩
        exact ⟨_, mem_subscribe_new t id c, hi.symm⟩
      · rintro ⟨sub, hsub, rfl⟩
        rcases mem_subscribe hsub with hold | ⟨hs, _⟩
        · exact absurd hi (h.nowhere hnew hold)
        · rw [hs]
    · rw [if_neg hi, h.sessions]
      constructor
      · rintro ⟨sub, hsub, hclient⟩
        exact ⟨sub, mem_subscribe_old hsub, hclient⟩
      · rintro ⟨sub, hsub, rfl⟩
        rcases mem_subscribe hsub with hold | ⟨_, rfl⟩
        · exact ⟨sub, hold, rfl⟩
        · exact absurd rfl hi
  constructor
  case sessions => exact hsessions
  case across => exact across_of_sessions hsessions
  case once =>
    intro s
    rw [subscribersOf_subscribe]
    split
    · rw [List.map_append, List.nodup_append]
      refine ⟨h.once id, by simp, ?_⟩
      intro i hi j hj heq
      obtain ⟨sub, hsub, rfl⟩ := List.mem_map.mp hi
      have hj : j = c := by simpa using hj
      exact h.nowhere hnew hsub (heq.trans hj)
    · exact h.once s
  case nonempty =>
    intro s subs hsubs
    have hsubs := (Table.lookup_insert t.subscribers id s _).symm.trans hsubs
    split at hsubs
    · cases hsubs
      simp
    · exact h.nonempty hsubs

/-- The client is subscribed to no other session. -/
theorem Agree.unsubscribe (h : t.Agree)
    (hown : ∀ {s}, t.clientSessions.lookup c = some s → s = id) : (t.unsubscribe id c).Agree := by
  have hlookup : ∀ i, (t.unsubscribe id c).clientSessions.lookup i =
      if i = c then none else t.clientSessions.lookup i := Table.lookup_erase t.clientSessions c
  have hsessions : ∀ {i s}, (t.unsubscribe id c).clientSessions.lookup i = some s ↔
      ∃ sub ∈ (t.unsubscribe id c).subscribersOf s, sub.clientId = i := by
    intro i s
    rw [hlookup]
    by_cases hi : i = c
    · rw [if_pos hi]
      constructor
      · rintro ⟨⟩
      · rintro ⟨sub, hsub, rfl⟩
        have hsession := hown (hi ▸ h.sessions.mpr ⟨sub, mem_unsubscribe hsub, rfl⟩)
        rw [subscribersOf_unsubscribe, if_pos hsession] at hsub
        exact absurd hi (of_decide_eq_true (List.mem_filter.mp hsub).2)
    · rw [if_neg hi, h.sessions]
      constructor
      · rintro ⟨sub, hsub, rfl⟩
        exact ⟨sub, mem_unsubscribe_other hsub hi, rfl⟩
      · rintro ⟨sub, hsub, hclient⟩
        exact ⟨sub, mem_unsubscribe hsub, hclient⟩
  constructor
  case sessions => exact hsessions
  case across => exact across_of_sessions hsessions
  case once =>
    intro s
    rw [subscribersOf_unsubscribe]
    split
    · exact (h.once id).sublist (List.filter_sublist.map _)
    · exact h.once s
  case nonempty =>
    intro s subs hsubs
    simp only [WsSharedState.unsubscribe] at hsubs
    split at hsubs
    · exact h.nonempty hsubs
    · split at hsubs
      · rw [Table.lookup_erase] at hsubs
        split at hsubs
        · cases hsubs
        · exact h.nonempty hsubs
      · rename_i hsome
        rw [Table.lookup_insert] at hsubs
        split at hsubs
        · cases hsubs
          exact fun hnil => hsome (List.isEmpty_iff.mpr hnil)
        · exact h.nonempty hsubs

private theorem Agree.notify (h : t.Agree) (id : Uuid) : (t.notifySessionEnded id).Agree := by
  have hsessions : ∀ {i s}, (t.notifySessionEnded id).clientSessions.lookup i = some s ↔
      ∃ sub ∈ (t.notifySessionEnded id).subscribersOf s, sub.clientId = i := by
    intro i s
    rw [lookup_notify, subscribersOf_notify]
    by_cases hi : i ∈ (t.subscribersOf id).map WsSubscriber.clientId
    · rw [if_pos hi]
      constructor
      · rintro ⟨⟩
      · rintro ⟨sub, hsub, rfl⟩
        split at hsub
        · cases hsub
        · rename_i hs
          obtain ⟨sub', hsub', hclient⟩ := List.mem_map.mp hi
          exact absurd (h.across hsub hsub' hclient.symm) hs
    · rw [if_neg hi, h.sessions]
      by_cases hs : s = id
      · rw [if_pos hs, hs]
        simpa using hi
      · rw [if_neg hs]
  constructor
  case sessions => exact hsessions
  case across => exact across_of_sessions hsessions
  case once =>
    intro s
    rw [subscribersOf_notify]
    split
    · exact List.nodup_nil
    · exact h.once s
  case nonempty =>
    intro s subs hsubs
    have hsubs := (Table.lookup_erase t.subscribers id s).symm.trans hsubs
    split at hsubs
    · cases hsubs
    · exact h.nonempty hsubs

private theorem Agree.told (h : t.Agree) (ended : List Uuid) :
    (ended.foldl notifySessionEnded t).Agree := by
  induction ended generalizing t with
  | nil => exact h
  | cons id ended ih => exact ih (h.notify id)

private theorem Agree.broadcast (h : t.Agree) (id : Uuid) (data : List UInt8) :
    (t.broadcast id data).Agree :=
  ⟨h.sessions, h.once, h.across, h.nonempty⟩

end WsSharedState

namespace Closing

open WsSharedState

variable {J : Codec} {x x' : Closing} {l : Label}

/-- A client has no entry when it is about to be subscribed. -/
def SubscribesOnce (x : Closing) : Label → Prop
  | .world (.task c _) => ∀ conn ∈ x.world.connections.lookup c, conn.granted.isSome = true →
      x.world.shared.clientSessions.lookup c = none
  | _ => True

instance (x : Closing) : ∀ l, Decidable (SubscribesOnce x l)
  | .world (.task _ _) => inferInstanceAs (Decidable (∀ conn ∈ _, _ → _))
  | .world .accept => inferInstanceAs (Decidable True)
  | .world (.drain _) => inferInstanceAs (Decidable True)
  | .world (.daemon _) => inferInstanceAs (Decidable True)
  | .world (.clientRead _ _) => inferInstanceAs (Decidable True)
  | .close _ => inferInstanceAs (Decidable True)

private theorem agree_did {t t' : WsSharedState} {c : Nat} {out : Uuid → Nat}
    {conn conn' : WsConnection} {cmd : Option WsCommand} (h : t.Agree)
    (hown : ∀ {s}, t.clientSessions.lookup c = some s → conn.attachedSession = some s)
    (honce : conn.granted.isSome = true → t.clientSessions.lookup c = none)
    (hdid : conn.Did t c out t' conn' cmd) : t'.Agree := by
  cases hdid with
  | aside _ _ _ _ _ _ _ => exact h
  | leave _ _ _ _ _ =>
    cases hsession : conn.attachedSession with
    | none => exact h
    | some sid =>
      exact h.unsubscribe fun hs => Option.some.inj ((hown hs).symm.trans hsession)
  | @subscribe _ request response n sid history htask hready _ _ _ _ =>
    have hgranted : conn.granted = some sid := by
      rw [WsConnection.granted, htask]
      exact congrArg (Option.map Prod.fst) hready
    exact h.subscribe (honce (by rw [hgranted]; rfl)) sid
  | deliver _ _ _ => exact h
  | ended _ _ _ hsession _ _ _ _ =>
    exact h.unsubscribe fun hs => Option.some.inj ((hown hs).symm.trans hsession)
  | report _ => exact h

private theorem agree_event {σ σ' : Server} {e : Event} (hinv : Server.Inv σ)
    (h : σ.wsShared.Agree) (harrive : σ.arrive e = σ) (hevent : σ.event J e = .ok σ') :
    σ'.wsShared.Agree := by
  rcases Server.event_shared hinv hevent with ⟨⟨ended, htold⟩, _⟩ | ⟨id, bytes, _, hread⟩
  · rw [htold.shared, harrive]
    exact h.told ended
  · cases hread
    exact h.broadcast id bytes

/-- As long as no client is subscribed while it has an entry, the two maps agree. -/
theorem maps_agree (h : (system J).Reach SubscribesOnce x) : x.world.shared.Agree := by
  apply h.invariant_with (Q := fun x => WsWorld.TableInv x.world ∧
    (x.closed = false → Server.Inv x.world.server))
  · exact fun x hreach => ⟨reachable_table hreach.reachable, reachable_inv hreach.reachable⟩
  · rintro x ⟨⟨listener, wakeup, now, hnew⟩, _⟩
    rw [hnew]
    exact new_agree
  · rintro x l x' ⟨htable, hinv⟩ hagree honce hstep
    cases l with
    | close env =>
      obtain ⟨_, _, hworld⟩ := step_close (J := J) hstep
      have hshared : (x.world.cleanup env).shared = _ := Server.cleanup_wsShared env _
      rw [hworld, hshared]
      exact hagree.told x.world.shared.subscribers.keys
    | world l =>
      obtain ⟨hw, _, hopen⟩ := step_world hstep
      cases l with
      | accept =>
        rw [← Option.some.inj hw]
        exact ⟨hagree.sessions, hagree.once, hagree.across, hagree.nonempty⟩
      | task c s =>
        obtain ⟨conn, t, conn', cmd, hconn, hp, hworld⟩ := WsWorld.step_task hw
        rw [hworld]
        refine agree_did hagree (fun hs => ?_) (honce conn hconn) (WsConnection.step_did hp)
        obtain ⟨conn₀, hconn₀, hattached⟩ := htable.attached hs
        cases hconn.symm.trans hconn₀
        exact hattached
      | drain env =>
        obtain ⟨cmd, queue, σ', _, hevent, hworld⟩ := WsWorld.step_drain hw
        rw [hworld]
        exact agree_event (hinv (hopen rfl)) hagree rfl hevent
      | daemon e =>
        obtain ⟨σ', harrive, hevent, hworld⟩ := WsWorld.step_daemon hw
        rw [hworld]
        exact agree_event (hinv (hopen rfl)) hagree harrive hevent
      | clientRead id data =>
        obtain ⟨s, _, hworld⟩ := WsWorld.step_clientRead hw
        rw [hworld]
        exact hagree

/-- A local client creates session 7, and WebSocket client 1 attaches it. -/
private def subscribeRun : List Label :=
  [.world (.daemon (.accept 5)),
    .world (.daemon (.request 5 (.ok (.create none 80 24 none none none)) 0 Server.calm)),
    .world .accept,
    .world (.task 1 (.text (.ok (.attach 7)))),
    .world (.task 1 .forward),
    .world (.drain Server.calmLater),
    .world (.task 1 .finish)]

private theorem start_init :
    (system Server.silent).init ⟨WsWorld.new 3 none 0, false⟩ := ⟨⟨3, none, 0, rfl⟩, rfl⟩

theorem maps_agree_attached :
    ∃ x, (system Server.silent).Reach SubscribesOnce x ∧
      x.world.shared.clientSessions.lookup 1 = some 7 ∧ x.world.shared.Agree := by
  have hrun : ((system Server.silent).execWhere SubscribesOnce ⟨WsWorld.new 3 none 0, false⟩
      subscribeRun).map (fun x => x.world.shared.clientSessions.lookup 1) = some (some 7) := by
    decide +kernel
  obtain ⟨x, hexec, hentry⟩ := Option.map_eq_some_iff.mp hrun
  have hreach := (Transition.System.Reach.start start_init).execWhere hexec
  exact ⟨x, hreach, hentry, maps_agree hreach⟩

/-- Client 1 attaches another session without detaching: it stays among the subscribers of the
first. -/
theorem stale_subscriber :
    ¬ ∀ (J : Codec) (x : Closing), (system J).Reachable x → x.world.shared.Agree := by
  intro h
  let another : Env := { Server.calm with createPty := .ok (12, 101, "pts"), uuid := 8 }
  have hrun : ((system Server.silent).exec ⟨WsWorld.new 3 none 0, false⟩ (subscribeRun ++
      [.world (.daemon (.request 5 (.ok (.create none 80 24 none none none)) 0 another)),
        .world (.task 1 (.text (.ok (.attach 8)))),
        .world (.task 1 .forward),
        .world (.drain Server.calmLater),
        .world (.task 1 .finish)])).map
      (fun x => (x.world.shared.clientSessions.lookup 1, x.world.shared.subscribersOf 7)) =
      some (some 8, [⟨0, 1⟩]) := by decide +kernel
  obtain ⟨x, hexec, hpair⟩ := Option.map_eq_some_iff.mp hrun
  obtain ⟨hentry, hsubs⟩ := Prod.mk.inj hpair
  have hreach : (system Server.silent).Reachable x :=
    Transition.System.Reachable.exec (.start start_init) hexec
  have hother := (h Server.silent x hreach).sessions.mpr
    ⟨⟨0, 1⟩, hsubs ▸ List.mem_singleton_self _, rfl⟩
  cases hentry.symm.trans hother

end Closing

end PtyDaemon
