import PtyDaemon.Server.Frame

/-!
# What the daemon does to the shared table

Apart from broadcasting the output it reads, the daemon only tells the subscribers of sessions that
are gone. It never puts a client into the table.
-/

namespace PtyDaemon

namespace Server

variable {P : Uuid → Prop} {J : Codec} {σ σ' σ'' : Server} {e : Event}

def gone (σ : Server) (id : Uuid) : Prop := σ.coreOf id = none

/-- The daemon has come from `σ` to `σ'` telling the subscribers of the sessions `ended`. -/
structure Told (σ σ' : Server) (ended : List Uuid) : Prop where
  shared : σ'.wsShared = ended.foldl WsSharedState.notifySessionEnded σ.wsShared
  gone : ∀ id ∈ ended, id ∈ σ.ids → σ'.gone id

/-- A session that is gone does not come back. -/
theorem Kept.gone (h : Kept P σ σ') {id : Uuid} (hid : id ∈ σ.ids) (hgone : σ.gone id) :
    σ'.gone id := by
  cases hc' : σ'.coreOf id with
  | none => exact hc'
  | some c' =>
    obtain ⟨c, hc, _⟩ := h.bytes hid hc'
    cases hc.symm.trans hgone

private theorem Told.nil (h : σ'.wsShared = σ.wsShared) : Told σ σ' [] :=
  ⟨h, fun _ hmem => nomatch hmem⟩

private theorem Move.told (hmove : Move P σ σ') : ∃ ended, Told σ σ' ended := by
  cases hmove with
  | aside h => exact ⟨[], .nil h.wsShared⟩
  | @notify id hgone =>
    refine ⟨[id], rfl, fun i hi _ => ?_⟩
    rw [List.mem_singleton.mp hi]
    exact congrArg (Option.map Session.core) hgone
  | _ => exact ⟨[], .nil rfl⟩

private theorem Told.trans {ended ended' : List Uuid} (h : Told σ σ' ended)
    (hkept : Kept P σ σ') (h' : Told σ' σ'' ended') (hkept' : Kept P σ' σ'') :
    Told σ σ'' (ended ++ ended') := by
  refine ⟨?_, fun id hid hknown => ?_⟩
  · rw [h'.shared, h.shared, List.foldl_append]
  · rcases List.mem_append.mp hid with hid | hid
    · exact hkept'.gone (hkept.ids hknown) (h.gone id hid hknown)
    · exact h'.gone id hid (hkept.ids hknown)

private theorem Moves.told (hinv : Inv σ) (hmoves : Moves P σ σ') :
    ∃ ended, Told σ σ' ended := by
  induction hmoves with
  | refl => exact ⟨[], .nil rfl⟩
  | tail hmoves hmove ih =>
    obtain ⟨ended, htold⟩ := ih
    obtain ⟨ended', htold'⟩ := hmove.told
    have hinv' := Moves.inv hmoves hinv
    exact ⟨ended ++ ended', htold.trans (Moves.kept hinv hmoves) htold' (hmove.kept hinv')⟩

private theorem Outcome.told (hinv : Inv σ) (hout : Outcome P σ σ') :
    ∃ ended, Told σ σ' ended := by
  cases hout with
  | plain hmoves => exact hmoves.told hinv
  | @passes τ ρ id conn hP hmoves hpass haside =>
    have hinv' := hmoves.inv hinv
    obtain ⟨ended, htold⟩ := hmoves.told hinv
    have hpassed : Told τ ρ [] := .nil (by cases hpass <;> rfl)
    have hkept := hmoves.kept hinv
    have hkept' := hpass.kept hinv' hP
    have haside' := (Move.aside (P := P) haside).kept (hpass.inv hinv')
    exact ⟨_, (htold.trans hkept hpassed hkept').trans (hkept.trans hkept') (.nil haside.wsShared)
      haside'⟩

/-- Known sessions stay known, and those that are gone stay gone. -/
theorem event_gone (hinv : Inv σ) (h : σ.event J e = .ok σ') :
    σ.ids ⊆ σ'.ids ∧ ∀ id ∈ σ.ids, σ.gone id → σ'.gone id := by
  cases event_effect hinv h with
  | handled hout =>
    have hkept := hout.kept (hinv.arrive e)
    obtain ⟨hids, hcore, _, _⟩ := arrive_same σ e
    refine ⟨hids ▸ hkept.ids, fun id hid hgone => hkept.gone ?_ ((hcore id).trans hgone)⟩
    rwa [hids]
  | lost _ _ hdisc =>
    refine ⟨hdisc.ids ▸ List.Subset.refl _, fun id _ hgone => ?_⟩
    exact congrArg (Option.map Session.core) (hdisc.absent (Option.map_eq_none_iff.mp hgone))
  | read _ hread =>
    obtain ⟨s, s', hs, _, _, _, hcore, _, hids, _⟩ := hread.spec
    refine ⟨hids ▸ List.Subset.refl _, fun i _ hgone => ?_⟩
    rw [Server.gone, hcore]
    split
    · rename_i hi
      rw [hi, Server.gone, coreOf_eq_some hs] at hgone
      cases hgone
    · exact hgone

/-- An event of the daemon tells some subscribers and reads nothing, or it broadcasts what it has
read. -/
theorem event_shared (hinv : Inv σ) (h : σ.event J e = .ok σ') :
    ((∃ ended, Told (σ.arrive e) σ' ended) ∧
        ∃ acts, σ'.trace = acts ++ σ.trace ∧ ∀ id bytes, .ptyRead id bytes ∉ acts) ∨
      ∃ id bytes, σ.arrive e = σ ∧ Read id bytes σ σ' := by
  cases event_effect hinv h with
  | handled hout =>
    obtain ⟨acts, hacts, hread, _⟩ := hout.acts
    rw [(arrive_same σ e).2.2.2] at hacts
    exact .inl ⟨hout.told (hinv.arrive e), acts, hacts, hread⟩
  | lost he _ hdisc =>
    subst he
    exact .inl ⟨⟨[], .nil hdisc.wsShared⟩, [], hdisc.trace, fun _ _ h => nomatch h⟩
  | read he hread =>
    subst he
    exact .inr ⟨_, _, rfl, hread⟩

end Server

end PtyDaemon
