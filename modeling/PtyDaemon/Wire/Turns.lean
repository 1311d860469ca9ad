import PtyDaemon.Wire.World

/-!
# The turns of the loop

A turn of the loop is a run of the daemon that records what it reads, so what holds in every such
run holds at the head of the loop.
-/

namespace PtyDaemon

namespace Wire

variable {J : Codec} {w w' : Wire} {l : Label}

/-- Some labels lead from `w` to the daemon `σ'`. -/
def Leads (J : Codec) (w : Wire) (σ' : Server) : Prop :=
  ∃ ls w', (system J).exec w ls = some w' ∧ w'.server = σ'

private theorem Leads.refl (J : Codec) (w : Wire) : Leads J w w.server := ⟨[], w, rfl, rfl⟩

private theorem Leads.single (h : step J w l = some w') : Leads J w w'.server := by
  refine ⟨[l], w', ?_, rfl⟩
  simp [Transition.System.exec, system, h]

/-- One event after another. -/
theorem Leads.trans {σ' σ'' : Server} (h : Leads J w σ')
    (hnext : ∀ w', w'.server = σ' → Leads J w' σ'') : Leads J w σ'' := by
  obtain ⟨ls, w', hexec, hserver⟩ := h
  obtain ⟨ls', w'', hexec', hserver'⟩ := hnext w' hserver
  refine ⟨ls ++ ls', w'', ?_, hserver'⟩
  rw [Transition.System.exec_append]
  exact Option.bind_eq_some_iff.mpr ⟨w', hexec, hexec'⟩

private theorem Leads.event {e : Event} {σ' : Server} (hother : e.isRequest = false)
    (h : w.server.event J e = .ok σ') : Leads J w σ' := by
  have hstep : step J w (.daemon e) = some { w with
      server := σ'
      received := fun c => w.received c ++ w.server.overheard e c } := by
    simp [step, hother, h, Except.toOption]
  exact .single hstep

private theorem Leads.tick (J : Codec) (w : Wire) (running : Bool) (idleSince : Option Nat) :
    Leads J w { w.server with running := running, idleSince := idleSince } :=
  .single (l := .tick running idleSince) rfl

private theorem acceptClients_leads {accepts : List AcceptResult} {σ' : Server}
    (h : w.server.acceptClients accepts = .ok σ') : Leads J w σ' := by
  induction accepts generalizing w with
  | nil =>
    cases h
    exact .refl J w
  | cons a rest ih =>
    cases a with
    | stream fd =>
      rw [Server.acceptClients] at h
      split at h
      · rename_i hfree
        apply (Leads.event (e := .accept fd) rfl (if_pos hfree)).trans
        intro w' hw'
        exact ih (hw' ▸ h)
      · cases h
    | refused fd e => cases h
    | failed e => cases h

private theorem handleClientData_leads {envs : List Env} {fd : RawFd} {read : ClientRead}
    {σ' : Server}
    (h : w.server.handleClientData J envs fd read = .ok σ') : Leads J w σ' := by
  cases hclient : w.server.clients.lookup fd with
  | none =>
    simp only [Server.handleClientData, hclient] at h
    cases h
    exact .refl J w
  | some client =>
    cases read with
    | closed =>
      simp only [Server.handleClientData, hclient] at h
      refine .event (e := .disconnect fd) rfl ?_
      rw [Server.event, Server.connOf, hclient, Option.map_some, Option.isSome_some, if_pos rfl]
      exact h
    | wouldBlock =>
      simp only [Server.handleClientData, hclient] at h
      cases h
      exact .refl J w
    | failed e =>
      simp only [Server.handleClientData, hclient] at h
      cases h
    | data bytes =>
      rw [Server.handleClientData_eq_log] at h
      obtain ⟨p, hp, rfl⟩ := ok_of_map h
      have hstep : step J w (.data fd bytes envs) = some
          { server := p.1
            received := fun c => if c = client.stream then w.received c ++ bytes else w.received c
            served := fun c => if c = client.stream then w.served c ++ p.2 else w.served c } := by
        simp [step, readData, Server.connOf, hclient, hp, Except.toOption]
      exact .single hstep

private theorem dispatch_leads {ans : Answers} {ev : KEvent} {σ' : Server}
    (h : w.server.dispatch J ans ev = .ok σ') : Leads J w σ' := by
  unfold Server.dispatch at h
  split at h
  · cases h
    exact .tick J w false w.server.idleSince
  · split at h
    · cases h
      exact .refl J w
    · split at h
      · exact acceptClients_leads h
      · split at h
        · rename_i hopen
          split at h
          · refine .event (e := .disconnect ev.ident) rfl ?_
            rw [Server.event, Server.connOf, Option.isSome_map, hopen, if_pos rfl]
            exact h
          · exact handleClientData_leads h
        · split at h
          · exact .event (e := .childExit ev.ident ans.env) rfl h
          · exact .event (e := .output ev.ident ans.ptyRead ans.env) rfl h

private theorem dispatchAll_leads {batch : List (KEvent × Answers)} {σ' : Server}
    (h : w.server.dispatchAll J batch = .ok σ') : Leads J w σ' := by
  induction batch generalizing w with
  | nil =>
    cases h
    exact .refl J w
  | cons p batch ih =>
    rw [Server.dispatchAll] at h
    split at h
    · cases h
    · rename_i τ hτ
      have hfirst := dispatch_leads hτ
      split at h
      · cases h
        exact hfirst
      · apply hfirst.trans
        rintro w' rfl
        exact ih h

private theorem drainWsCommands_leads {commands : List (WsSharedState × WsCommand × Env)}
    {σ' : Server}
    (h : w.server.drainWsCommands J commands = .ok σ') : Leads J w σ' := by
  induction commands generalizing w with
  | nil =>
    cases h
    exact .refl J w
  | cons p commands ih =>
    obtain ⟨shared, cmd, env⟩ := p
    rw [Server.drainWsCommands] at h
    split at h
    · rename_i hadmits
      split at h
      · cases h
      · rename_i τ hτ
        have hevent : w.server.event J (.command shared cmd env) = .ok τ := by
          rw [Server.event, if_pos (show w.server.admits env = true from hadmits)]
          exact hτ
        apply (Leads.event rfl hevent).trans
        rintro w' rfl
        exact ih h
    · cases h

private theorem poll_leads {polled : Polled} {σ' : Server} (h : w.server.poll J polled = .ok σ') :
    Leads J w σ' := by
  cases polled with
  | events batch => exact dispatchAll_leads h
  | interrupted =>
    cases h
    exact .refl J w
  | failed e => cases h

/-- A turn of the loop is a run here. -/
theorem turn_leads {t : Turn} {σ' : Server} (h : w.server.turn J t = .ok σ') : Leads J w σ' := by
  unfold Server.turn at h
  obtain ⟨τ, hτ, h⟩ := ok_of_bind h
  apply (Leads.event (e := .reap t.reap) rfl rfl).trans
  rintro w₁ hw₁
  rw [← hw₁] at hτ
  apply (drainWsCommands_leads hτ).trans
  rintro w₂ rfl
  have hticked : ∀ idleSince {σ'' : Server},
      { w₂.server with idleSince := idleSince }.poll J t.polled = .ok σ'' →
        Leads J w₂ σ'' := by
    intro idleSince σ'' h
    apply (Leads.tick J w₂ w₂.server.running idleSince).trans
    intro w₃ hw₃
    exact poll_leads (hw₃ ▸ h)
  split at h
  · split at h
    · split at h
      · cases h
        exact .tick J w₂ false w₂.server.idleSince
      · exact poll_leads h
    · exact hticked _ h
  · exact hticked _ h

/-- Every state at the head of the loop is reached here. -/
theorem loop_reachable {σ : Server} (h : (Server.loop J).Reachable σ) :
    ∃ w, (system J).Reachable w ∧ w.server = σ := by
  induction h with
  | start hinit =>
    obtain ⟨listener, wakeup, now, rfl⟩ := hinit
    exact ⟨new listener wakeup now, .start (init_new J listener wakeup now), rfl⟩
  | next _ _ hstep ih =>
    obtain ⟨w, hw, rfl⟩ := ih
    simp only [Server.loop] at hstep
    split at hstep
    · obtain ⟨ls, w', hexec, hserver⟩ := turn_leads (ok_of_toOption hstep)
      exact ⟨w', hw.exec hexec, hserver⟩
    · cases hstep

end Wire

end PtyDaemon
