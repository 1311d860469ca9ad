import PtyDaemon.Server.Run

/-!
# What an event leaves alone

Sessions that are not moved keep owner and state, moved sessions keep their bytes, connections
stay, and a descriptor is passed to nobody but the owner.
-/

namespace PtyDaemon

/-- Acts that neither pass a PTY on nor read from one. -/
def Act.quiet : Act → Bool
  | .sent _ (.fd _) => false
  | .ptyRead _ _ => false
  | _ => true

private theorem Act.quiet_of_plain {a : Act} (h : a.plain = true) : a.quiet = true := by
  cases a with
  | sent conn frame => cases frame <;> first | rfl | cases h
  | ptyRead id data => cases h
  | _ => rfl

namespace Server

variable {P : Uuid → Prop} {σ σ' σ'' : Server} {e : Event}

structure Kept (P : Uuid → Prop) (σ σ' : Server) : Prop where
  ids : σ.ids ⊆ σ'.ids
  conns : ∀ {fd conn}, σ.connOf fd = some conn → σ'.connOf fd = some conn
  still : ∀ {id c}, id ∈ σ.ids → ¬ P id → σ'.coreOf id = some c → σ.coreOf id = some c
  bytes : ∀ {id c'}, id ∈ σ.ids → σ'.coreOf id = some c' →
    ∃ c, σ.coreOf id = some c ∧ c'.sharedRing = c.sharedRing ∧ c'.fed = c.fed
  born : ∀ {id c}, id ∉ σ.ids → σ'.coreOf id = some c →
    (∃ page, SharedRingBuffer.create page defaultRingSize = some c.sharedRing) ∧ c.fed = some []

private theorem Kept.of_same (hinv : Inv σ) (hids : σ.ids ⊆ σ'.ids)
    (hconns : ∀ {fd conn}, σ.connOf fd = some conn → σ'.connOf fd = some conn)
    (hsame : ∀ {id c}, σ'.coreOf id = some c → σ.coreOf id = some c) : Kept P σ σ' where
  ids := hids
  conns := hconns
  still _ _ hc := hsame hc
  bytes _ hc := ⟨_, hsame hc, rfl, rfl⟩
  born hid hc := absurd (hinv.session (hsame hc)).known hid

private theorem Kept.refl (hinv : Inv σ) : Kept P σ σ :=
  .of_same hinv (List.Subset.refl _) (fun h => h) fun h => h

theorem Kept.trans (h : Kept P σ σ') (h' : Kept P σ' σ'') : Kept P σ σ'' where
  ids := fun _ hid => h'.ids (h.ids hid)
  conns hconn := h'.conns (h.conns hconn)
  still hid hP hc := h.still hid hP (h'.still (h.ids hid) hP hc)
  bytes hid hc := by
    obtain ⟨c', hc', hring', hfed'⟩ := h'.bytes (h.ids hid) hc
    obtain ⟨c, hc, hring, hfed⟩ := h.bytes hid hc'
    exact ⟨c, hc, hring'.trans hring, hfed'.trans hfed⟩
  born {id c} hid hc := by
    by_cases hid' : id ∈ σ'.ids
    · obtain ⟨c', hc', hring, hfed⟩ := h'.bytes hid' hc
      rw [hring, hfed]
      exact h.born hid hc'
    · exact h'.born hid' hc

private theorem Kept.of_replace (hinv : Inv σ) {id : Uuid} {s s' : Session} (hP : P id)
    (hs : σ.sessions.lookup id = some s) (hids : σ'.ids = σ.ids) (hclients : σ'.clients = σ.clients)
    (hsessions : σ'.sessions = σ.sessions.insert id s')
    (hring : s'.core.sharedRing = s.core.sharedRing) (hfed : s'.core.fed = s.core.fed) :
    Kept P σ σ' := by
  have hcore : ∀ i, σ'.coreOf i = if i = id then some s'.core else σ.coreOf i := by
    intro i
    rw [← coreOf_putSession]
    exact congrArg (fun t : Sessions => (t.lookup i).map Session.core) hsessions
  refine ⟨hids ▸ List.Subset.refl _, ?_, ?_, ?_, ?_⟩
  · intro fd conn hconn
    rwa [connOf, hclients]
  · intro i c _ hnP hc
    have hi : i ≠ id := by
      rintro rfl
      exact hnP hP
    rw [hcore, if_neg hi] at hc
    exact hc
  · intro i c _ hc
    rw [hcore] at hc
    by_cases hi : i = id
    · rw [if_pos hi] at hc
      cases hc
      exact ⟨s.core, hi ▸ coreOf_eq_some hs, hring, hfed⟩
    · rw [if_neg hi] at hc
      exact ⟨c, hc, rfl, rfl⟩
  · intro i c hi hc
    have hne : i ≠ id := by
      rintro rfl
      exact hi (hinv.session (coreOf_eq_some hs)).known
    rw [hcore, if_neg hne] at hc
    exact absurd (hinv.session hc).known hi

theorem Move.kept (hinv : Inv σ) (hmove : Move P σ σ') : Kept P σ σ' := by
  cases hmove with
  | aside h =>
    refine .of_same hinv (h.ids ▸ List.Subset.refl _) (fun hc => (h.clients _).trans hc) ?_
    exact fun hc => (h.sessions _).symm.trans hc
  | notify _ => exact .of_same hinv (List.Subset.refl _) (fun h => h) fun h => h
  | detach hP hs hs' =>
    exact .of_replace hinv hP hs rfl rfl rfl (by rw [hs']) (by rw [hs'])
  | takeOver hP hs _ hs' =>
    exact .of_replace hinv hP hs rfl rfl rfl (by rw [hs']) (by rw [hs'])
  | forget hP hs hs' => exact .of_replace hinv hP hs rfl rfl rfl (by rw [hs']) (by rw [hs'])
  | listen _ _ => exact .of_same hinv (List.Subset.refl _) (fun h => h) fun h => h
  | attach hP hs _ _ hs' =>
    exact .of_replace hinv hP hs rfl rfl rfl (by rw [hs']) (by rw [hs'])
  | stash _ => exact .of_same hinv (List.Subset.refl _) (fun h => h) fun h => h
  | unstash _ => exact .of_same hinv (List.Subset.refl _) (fun h => h) fun h => h
  | flash _ => exact .of_same hinv (List.Subset.refl _) (fun h => h) fun h => h
  | @create id fd s page ring hfree hid hring hs =>
    have hcore : ∀ i, ((({ σ with ids := id :: σ.ids }.openFd fd (.master id)).register
        fd).putSession id s).coreOf i = if i = id then some s.core else σ.coreOf i := fun i =>
      coreOf_putSession (({ σ with ids := id :: σ.ids }.openFd fd (.master id)).register fd) id s i
    have hother : ∀ {i c}, i ∈ σ.ids → (if i = id then some s.core else σ.coreOf i) = some c →
        σ.coreOf i = some c := by
      intro i c hi hc
      have hne : i ≠ id := by
        rintro rfl
        exact hid hi
      rwa [if_neg hne] at hc
    refine ⟨fun _ => List.mem_cons_of_mem id, fun h => h, ?_, ?_, ?_⟩
    · intro i c hi _ hc
      rw [hcore] at hc
      exact hother hi hc
    · intro i c hi hc
      rw [hcore] at hc
      exact ⟨c, hother hi hc, rfl, rfl⟩
    · intro i c hi hc
      rw [hcore] at hc
      by_cases he : i = id
      · rw [if_pos he, hs] at hc
        cases hc
        exact ⟨⟨page, hring⟩, rfl⟩
      · rw [if_neg he] at hc
        exact absurd (hinv.session hc).known hi
  | @remove id s hs =>
    refine .of_same hinv (List.Subset.refl _) (fun h => h) ?_
    intro i c hc
    have hc := (coreOf_removeSession σ id i).symm.trans hc
    split at hc
    · cases hc
    · exact hc
  | unregister _ => exact .of_same hinv (List.Subset.refl _) (fun h => h) fun h => h
  | @accept fd hfree =>
    refine .of_same hinv (List.Subset.refl _) ?_ fun h => h
    intro x conn hconn
    rw [connOf_acceptClient, if_neg (ne_of_free (hinv.client hconn) (freeFd_iff.mp hfree).2)]
    exact hconn

theorem Moves.kept (hinv : Inv σ) (hmoves : Moves P σ σ') : Kept P σ σ' := by
  induction hmoves with
  | refl => exact .refl hinv
  | tail hmoves hmove ih => exact ih.trans (hmove.kept (Moves.inv hmoves hinv))

theorem Handover.kept (hinv : Inv σ) {id : Uuid} {conn : Nat} (hP : P id)
    (hpass : Handover id conn σ σ') : Kept P σ σ' := by
  cases hpass with
  | attached _ _ _ _ _ => exact .of_same hinv (List.Subset.refl _) (fun h => h) fun h => h
  | returned hs _ _ hs' =>
    exact .of_replace hinv hP hs rfl rfl rfl (by rw [hs']) (by rw [hs'])

theorem Outcome.kept (hinv : Inv σ) (hout : Outcome P σ σ') : Kept P σ σ' := by
  cases hout with
  | plain hmoves => exact hmoves.kept hinv
  | passes hP hmoves hpass haside =>
    have hpassed := (hmoves.kept hinv).trans (hpass.kept (hmoves.inv hinv) hP)
    have hinv' := hpass.inv (hmoves.inv hinv)
    exact hpassed.trans ((Move.aside haside).kept hinv')

/-- The moves alone pass no descriptor on. -/
theorem Move.quiet (hmove : Move P σ σ') :
    ∃ acts, σ'.trace = acts ++ σ.trace ∧ ∀ a ∈ acts, a.quiet = true := by
  have hone : ∀ {act : Act}, act.quiet = true → ∀ a ∈ [act], a.quiet = true :=
    fun h a ha => List.mem_singleton.mp ha ▸ h
  cases hmove with
  | aside h =>
    obtain ⟨acts, hacts, hplain⟩ := h.trace
    exact ⟨acts, hacts, fun a ha => Act.quiet_of_plain (hplain a ha)⟩
  | takeOver _ _ _ _ => exact ⟨[_], rfl, hone rfl⟩
  | attach _ _ _ _ _ => exact ⟨[_], rfl, hone rfl⟩
  | _ => exact ⟨[], rfl, fun _ h => nomatch h⟩

theorem Moves.quiet (hmoves : Moves P σ σ') :
    ∃ acts, σ'.trace = acts ++ σ.trace ∧ ∀ a ∈ acts, a.quiet = true := by
  induction hmoves with
  | refl => exact ⟨[], rfl, fun _ h => nomatch h⟩
  | tail _ hmove ih =>
    obtain ⟨acts, hacts, hquiet⟩ := ih
    obtain ⟨acts', hacts', hquiet'⟩ := hmove.quiet
    refine ⟨acts' ++ acts, ?_, ?_⟩
    · rw [hacts', hacts, List.append_assoc]
    · intro a ha
      exact (List.mem_append.mp ha).elim (hquiet' a) (hquiet a)

/-- Whoever gets a descriptor owns the session from then on. -/
theorem Outcome.acts (hout : Outcome P σ σ') :
    ∃ acts, σ'.trace = acts ++ σ.trace ∧ (∀ id bytes, .ptyRead id bytes ∉ acts) ∧
      ∀ conn id, .sent conn (.fd id) ∈ acts →
        P id ∧ ∃ c fd, σ'.coreOf id = some c ∧ c.ownerFd = some fd ∧ σ'.connOf fd = some conn := by
  have hread : ∀ {acts : List Act}, (∀ a ∈ acts, a.quiet = true) →
      ∀ id bytes, .ptyRead id bytes ∉ acts := fun h _ _ hmem => nomatch h _ hmem
  have hsent : ∀ {acts : List Act}, (∀ a ∈ acts, a.quiet = true) →
      ∀ conn id, .sent conn (.fd id) ∉ acts := fun h _ _ hmem => nomatch h _ hmem
  cases hout with
  | plain hmoves =>
    obtain ⟨acts, hacts, hquiet⟩ := hmoves.quiet
    exact ⟨acts, hacts, hread hquiet, fun conn id hmem => absurd hmem (hsent hquiet conn id)⟩
  | @passes τ ρ id conn hP hmoves hpass haside =>
    obtain ⟨acts, hacts, hquiet⟩ := hmoves.quiet
    obtain ⟨acts', hacts', hplain⟩ := haside.trace
    have hquiet' : ∀ a ∈ acts', a.quiet = true := fun a ha => Act.quiet_of_plain (hplain a ha)
    have hpassed : ∃ mid, ρ.trace = mid ++ τ.trace ∧ (∀ i bytes, .ptyRead i bytes ∉ mid) ∧
        (∀ conn' i, .sent conn' (.fd i) ∈ mid → conn' = conn ∧ i = id) ∧
        ∃ c fd, ρ.coreOf id = some c ∧ c.ownerFd = some fd ∧ ρ.connOf fd = some conn := by
      cases hpass with
      | attached hs _ howner hconn _ =>
        exact ⟨[.sent conn (.fd id)], rfl, by simp, by simp, _, _, coreOf_eq_some hs, howner,
          hconn⟩
      | @returned s s' fd hs _ hconn hs' =>
        refine ⟨[.returned id conn, .sent conn (.fd id)], rfl, by simp, by simp, s'.core, fd, ?_,
          ?_, hconn⟩
        · exact (coreOf_putSession _ id s' id).trans (if_pos rfl)
        · rw [hs']
    obtain ⟨mid, hmid, hnoread, honly, c, fd, hc, howner, hconn⟩ := hpassed
    refine ⟨acts' ++ (mid ++ acts), ?_, ?_, ?_⟩
    · rw [hacts', hmid, hacts, List.append_assoc, List.append_assoc]
    · intro i bytes hmem
      rw [List.mem_append, List.mem_append] at hmem
      rcases hmem with hmem | hmem | hmem
      · exact hread hquiet' i bytes hmem
      · exact hnoread i bytes hmem
      · exact hread hquiet i bytes hmem
    · intro conn' i hmem
      rw [List.mem_append, List.mem_append] at hmem
      rcases hmem with hmem | hmem | hmem
      · exact absurd hmem (hsent hquiet' conn' i)
      · obtain ⟨rfl, rfl⟩ := honly conn' i hmem
        exact ⟨hP, c, fd, (haside.sessions i).trans hc, howner, (haside.clients fd).trans hconn⟩
      · exact absurd hmem (hsent hquiet conn' i)

/-- The acts of a step, oldest first. -/
def newActs (σ σ' : Server) : List Act :=
  (σ'.trace.take (σ'.trace.length - σ.trace.length)).reverse

theorem newActs_eq {acts : List Act} (h : σ'.trace = acts ++ σ.trace) :
    newActs σ σ' = acts.reverse := by
  rw [newActs, h, List.length_append, Nat.add_sub_cancel, List.take_left]

theorem arrive_same (σ : Server) (e : Event) :
    (σ.arrive e).ids = σ.ids ∧ (∀ id, (σ.arrive e).coreOf id = σ.coreOf id) ∧
      (∀ fd, (σ.arrive e).connOf fd = σ.connOf fd) ∧ (σ.arrive e).trace = σ.trace := by
  cases e <;> exact ⟨rfl, fun _ => rfl, fun _ => rfl, rfl⟩

end Server

end PtyDaemon
