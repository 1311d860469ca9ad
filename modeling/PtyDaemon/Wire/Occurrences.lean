import PtyDaemon.Wire.Turns

/-!
# The daemon event by event

The run of the loop at its finest: one event at a time, with what happens between two events as
labels of its own. Guards on runs and notes of runs look at single events.
-/

namespace PtyDaemon

inductive Occurrence
  | event (e : Event)
  /-- bytes are read into the buffer of a connection -/
  | receive (fd : RawFd) (bytes : List UInt8)
  /-- the loop sets its own fields -/
  | tick (running : Bool) (idleSince : Option Nat)

namespace Server

variable {J : Codec} {σ σ' σ'' : Server} {m : Occurrence}

def occur (J : Codec) (σ : Server) : Occurrence → Option Server
  | .event e => (σ.event J e).toOption
  | .receive fd bytes =>
    (σ.clients.lookup fd).map fun client =>
      σ.putClient fd { client with readBuf := client.readBuf ++ bytes }
  | .tick running idleSince => some { σ with running := running, idleSince := idleSince }

def occurrences (J : Codec) : Transition.System Server Occurrence where
  init σ := ∃ listener wakeup now, σ = Server.new listener wakeup now
  step := occur J

/-- Between two events nothing moves. -/
theorem occur_cases (h : σ.occur J m = some σ') :
    (∃ e, m = .event e ∧ σ.event J e = .ok σ') ∨ (∀ e, m ≠ .event e) ∧ Aside σ σ' ∧
      σ'.sessions = σ.sessions ∧ σ'.trace = σ.trace := by
  cases m with
  | event e => exact .inl ⟨e, rfl, ok_of_toOption h⟩
  | receive fd bytes =>
    obtain ⟨client, hclient, rfl⟩ := Option.map_eq_some_iff.mp h
    exact .inr ⟨fun _ h => (by cases h), .putClient hclient rfl, rfl, rfl⟩
  | tick running idleSince =>
    cases h
    refine .inr ⟨fun _ h => (by cases h), ?_, rfl, rfl⟩
    exact ⟨fun _ => rfl, fun _ => rfl, rfl, rfl, rfl, rfl, rfl, rfl, rfl, [], rfl,
      fun _ h => by cases h⟩

theorem occur_inv (h : σ.occur J m = some σ') (hinv : Inv σ) : Inv σ' := by
  rcases occur_cases h with ⟨e, _, h⟩ | ⟨_, haside⟩
  · exact event_inv hinv h
  · exact hinv.aside haside.1

theorem occurrences_inv (h : (occurrences J).Reachable σ) : Inv σ := by
  apply h.invariant
  · rintro _ ⟨listener, wakeup, now, rfl⟩
    exact new_inv listener wakeup now
  · intro σ m σ' hinv _ hstep
    exact occur_inv hstep hinv

/-- Some occurrences lead from `σ` to `σ'`. -/
def Follows (J : Codec) (σ σ' : Server) : Prop := ∃ ms, (occurrences J).exec σ ms = some σ'

private theorem Follows.refl (σ : Server) : Follows J σ σ := ⟨[], rfl⟩

private theorem Follows.single (h : σ.occur J m = some σ') : Follows J σ σ' := by
  refine ⟨[m], ?_⟩
  simp [Transition.System.exec, occurrences, h]

private theorem Follows.trans (h : Follows J σ σ') (h' : Follows J σ' σ'') : Follows J σ σ'' := by
  obtain ⟨ms, hms⟩ := h
  obtain ⟨ms', hms'⟩ := h'
  refine ⟨ms ++ ms', ?_⟩
  rw [Transition.System.exec_append, hms]
  exact hms'

private theorem Follows.event {e : Event} (h : σ.event J e = .ok σ') : Follows J σ σ' := by
  apply Follows.single (m := .event e)
  rw [occur, h]
  rfl

private theorem decodeLoop_follows {fd : RawFd} {envs : List Env}
    (h : decodeLoop J fd envs σ = .ok σ') :
    Follows J σ σ' := by
  induction envs generalizing σ with
  | nil =>
    unfold decodeLoop at h
    split at h
    · cases h
    · split at h
      · cases h
        exact .refl _
      · cases h
      · rename_i heq
        cases heq
  | cons env envs ih =>
    unfold decodeLoop at h
    split at h
    · cases h
    · rename_i client hclient
      split at h
      · cases h
        exact .refl _
      · cases h
      · rename_i result consumed env' envs' _ heq
        cases heq
        split at h
        · rename_i hadmits
          obtain ⟨τ, hτ, h⟩ := ok_of_bind h
          apply (Follows.event (e := .request fd result consumed env) ?_).trans (ih h)
          simp only [Server.event, connOf, hclient, hadmits]
          exact hτ
        · cases h

end Server

namespace Wire

open Server

variable {J : Codec} {w w' : Wire} {l : Label}

private theorem step_follows (h : step J w l = some w') : Follows J w.server w'.server := by
  cases l with
  | data fd bytes envs =>
    obtain ⟨conn, hconn, h⟩ := Option.bind_eq_some_iff.mp h
    obtain ⟨client, hclient, rfl⟩ := Option.map_eq_some_iff.mp hconn
    obtain ⟨p, hp, rfl⟩ := Option.map_eq_some_iff.mp h
    have hp := ok_of_toOption hp
    rw [handleClientDataLog, hclient] at hp
    have hreceive : w.server.occur J (.receive fd bytes) =
        some (w.server.putClient fd { client with readBuf := client.readBuf ++ bytes }) := by
      rw [occur, hclient]
      rfl
    have hloop : decodeLoop J fd envs
        (w.server.putClient fd { client with readBuf := client.readBuf ++ bytes }) = .ok p.1 := by
      rw [decodeLoop_eq_log]
      exact congrArg (Except.map Prod.fst) hp
    exact (Follows.single hreceive).trans (decodeLoop_follows hloop)
  | daemon e =>
    simp only [step] at h
    split at h
    · cases h
    · obtain ⟨σ', hσ', rfl⟩ := Option.map_eq_some_iff.mp h
      exact .event (ok_of_toOption hσ')
  | tick running idleSince =>
    cases h
    exact .single (m := Occurrence.tick running idleSince) rfl

private theorem exec_follows {ls : List Label} (h : (system J).exec w ls = some w') :
    Follows J w.server w'.server := by
  induction ls generalizing w with
  | nil =>
    cases h
    exact .refl _
  | cons l ls ih =>
    obtain ⟨w₁, hstep, hrest⟩ := Option.bind_eq_some_iff.mp h
    exact (step_follows hstep).trans (ih hrest)

end Wire

namespace Server

variable {J : Codec} {σ σ' : Server}

/-- A turn of the loop is a run of occurrences. -/
theorem turn_follows {t : Turn} (h : σ.turn J t = .ok σ') : Follows J σ σ' := by
  obtain ⟨ls, w', hexec, rfl⟩ := Wire.turn_leads (w := ⟨σ, fun _ => [], fun _ => []⟩) h
  exact Wire.exec_follows hexec

/-- Every state at the head of the loop is reached occurrence by occurrence. -/
theorem loop_occurrences (h : (loop J).Reachable σ) : (occurrences J).Reachable σ := by
  induction h with
  | start hinit => exact .start hinit
  | next _ _ hstep ih =>
    simp only [loop] at hstep
    split at hstep
    · obtain ⟨ms, hms⟩ := turn_follows (ok_of_toOption hstep)
      exact ih.exec hms
    · cases hstep

end Server

end PtyDaemon
