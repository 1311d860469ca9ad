import PtyDaemon.Server.Connections
import PtyDaemon.Server.Run
import PtyDaemon.Wire.Frames

/-!
# The decode loop

What arrives on a connection is appended to its buffer, and the complete frames of the buffer are
served one after another. The loop is run with a record of what it served; which frames these are
depends on the bytes alone.
-/

namespace PtyDaemon

/-- One frame served: what it was decoded to, its length, and the response. -/
structure Exchange where
  result : Except String Request
  consumed : Nat
  response : Response

namespace Server

variable {J : Codec} {env : Env} {fd : RawFd} {σ σ' : Server} {client : ClientState}

/-- The response to one decoded message. -/
def respond (J : Codec) (env : Env) (σ : Server) (fd : RawFd) :
    Except String Request → Except Stop (Server × Response)
  | .ok request => σ.handleRequest J env fd request
  | .error e => .ok (σ, .error ("parse error: " ++ e))

/-- What is done with the response. -/
def conclude (env : Env) (fd : RawFd) (consumed : Nat) (p : Server × Response) : Server :=
  (p.1.answer env fd p.2 consumed).passOn env fd p.2

theorem serve_eq (J : Codec) (env : Env) (σ : Server) (fd : RawFd)
    (result : Except String Request) (consumed : Nat) :
    σ.serve J env fd result consumed =
      (σ.respond J env fd result).map (conclude env fd consumed) := by
  cases result <;> rfl

/-- The decode loop with a record of what it served. -/
def decodeLoopLog (J : Codec) (fd : RawFd) :
    List Env → Server → Except Stop (Server × List Exchange)
  | envs, σ =>
    match σ.clients.lookup fd with
    | none => .error (.panics "no entry found for key")
    | some client =>
      match tryDecodeMessage J.request client.readBuf, envs with
      | none, _ => .ok (σ, [])
      | some _, [] => .error .excluded
      | some (result, consumed), env :: envs =>
        if σ.admits env then
          (σ.respond J env fd result).bind fun p =>
            (decodeLoopLog J fd envs (conclude env fd consumed p)).map fun q =>
              (q.1, ⟨result, consumed, p.2⟩ :: q.2)
        else .error .excluded

/-- Without the record it is the loop. -/
theorem decodeLoop_eq_log (J : Codec) (fd : RawFd) (envs : List Env) (σ : Server) :
    decodeLoop J fd envs σ = (decodeLoopLog J fd envs σ).map Prod.fst := by
  induction envs generalizing σ with
  | nil =>
    unfold decodeLoop decodeLoopLog
    cases hclient : σ.clients.lookup fd with
    | none => rfl
    | some client =>
      dsimp only
      cases tryDecodeMessage J.request client.readBuf <;> rfl
  | cons env envs ih =>
    unfold decodeLoop decodeLoopLog
    cases hclient : σ.clients.lookup fd with
    | none => rfl
    | some client =>
      dsimp only
      cases tryDecodeMessage J.request client.readBuf with
      | none => rfl
      | some p =>
        dsimp only
        split
        · rw [serve_eq]
          cases hresponse : σ.respond J env fd p.1 with
          | error stop => rfl
          | ok q =>
            simp only [Except.map, Except.bind, ih]
            cases decodeLoopLog J fd envs (conclude env fd p.2 q) <;> rfl
        · rfl

/-- What arrives is appended to the buffer, and the loop is run. -/
def handleClientDataLog (J : Codec) (envs : List Env) (σ : Server) (fd : RawFd)
    (bytes : List UInt8) : Except Stop (Server × List Exchange) :=
  match σ.clients.lookup fd with
  | none => .ok (σ, [])
  | some client =>
    decodeLoopLog J fd envs (σ.putClient fd { client with readBuf := client.readBuf ++ bytes })

theorem handleClientData_eq_log (J : Codec) (envs : List Env) (σ : Server) (fd : RawFd)
    (bytes : List UInt8) :
    σ.handleClientData J envs fd (.data bytes) =
      (σ.handleClientDataLog J envs fd bytes).map Prod.fst := by
  unfold handleClientData handleClientDataLog
  cases σ.clients.lookup fd with
  | none => rfl
  | some client => apply decodeLoop_eq_log

theorem lookup_putClient (σ : Server) (fd x : RawFd) (c : ClientState) :
    (σ.putClient fd c).clients.lookup x = if x = fd then some c else σ.clients.lookup x :=
  Table.lookup_insert σ.clients fd x c

theorem respond_unheard {result : Except String Request} {p : Server × Response}
    (h : σ.respond J env fd result = .ok p) : Unheard σ p.1 := by
  cases result with
  | error e =>
    cases h
    exact .refl σ
  | ok request => exact handleRequest_unheard h

/-- One pass: the frame goes out of the buffer, and its response on the connection. -/
theorem conclude_clients {p : Server × Response} (h : Unheard σ p.1)
    (hclient : σ.clients.lookup fd = some client) (env : Env) (consumed : Nat) :
    (∀ x, (conclude env fd consumed p).clients.lookup x =
        if x = fd then some { client with readBuf := client.readBuf.drop consumed }
        else σ.clients.lookup x) ∧
      (conclude env fd consumed p).answers =
        if env.responseWritten then (client.stream, p.2) :: σ.answers else σ.answers := by
  have hlookup : p.1.clients.lookup fd = some client := by rw [h.clients, hclient]
  have hpassed := passOn_unheard env (p.1.answer env fd p.2 consumed) fd p.2
  unfold conclude
  rw [hpassed.clients, hpassed.answers, answer, hlookup]
  constructor
  · intro x
    dsimp only
    rw [lookup_putClient]
    cases env.responseWritten with
    | false =>
      simp only [if_neg Bool.false_ne_true]
      rw [emit, h.clients]
    | true =>
      simp only [if_true]
      rw [emit, h.clients]
  · cases env.responseWritten with
    | false => exact h.answers
    | true => exact congrArg ((client.stream, p.2) :: ·) h.answers

private theorem conclude_accepted {p : Server × Response} (h : Unheard σ p.1)
    (hclient : σ.clients.lookup fd = some client) (env : Env) (consumed : Nat) :
    (conclude env fd consumed p).accepted = σ.accepted := by
  have hlookup : p.1.clients.lookup fd = some client := by rw [h.clients, hclient]
  unfold conclude
  rw [(passOn_unheard env _ fd p.2).accepted, answer, hlookup, ← h.accepted]
  dsimp only
  split <;> rfl

theorem decodeLoopLog_stuck (hclient : σ.clients.lookup fd = some client)
    (hframe : nextFrame client.readBuf = none) (envs : List Env) :
    decodeLoopLog J fd envs σ = .ok (σ, []) := by
  cases envs <;> simp [decodeLoopLog, hclient, tryDecodeMessage_eq, hframe]

theorem decodeLoopLog_nil (hclient : σ.clients.lookup fd = some client)
    {p : List UInt8 × Nat} (hframe : nextFrame client.readBuf = some p) :
    decodeLoopLog J fd [] σ = .error .excluded := by
  simp [decodeLoopLog, hclient, tryDecodeMessage_eq, hframe]

theorem decodeLoopLog_cons (hclient : σ.clients.lookup fd = some client)
    {p : List UInt8 × Nat} (hframe : nextFrame client.readBuf = some p) (env : Env)
    (envs : List Env) :
    decodeLoopLog J fd (env :: envs) σ =
      if σ.admits env then
        (σ.respond J env fd (J.request p.1)).bind fun q =>
          (decodeLoopLog J fd envs (conclude env fd p.2 q)).map fun q' =>
            (q'.1, ⟨J.request p.1, p.2, q.2⟩ :: q'.2)
      else .error .excluded := by
  rw [decodeLoopLog]
  simp only [hclient, tryDecodeMessage_eq, hframe, Option.map_some]

/-- Induction on what a run of the loop serves. -/
theorem decodeLoopLog_induction {P : List Env → Server → Server → List Exchange → Prop}
    (stuck : ∀ {envs σ client}, σ.clients.lookup fd = some client →
      nextFrame client.readBuf = none → P envs σ σ [])
    (more : ∀ {env envs σ σ' client p q log}, σ.clients.lookup fd = some client →
      nextFrame client.readBuf = some p → σ.respond J env fd (J.request p.1) = .ok q →
      P envs (conclude env fd p.2 q) σ' log →
      P (env :: envs) σ σ' (⟨J.request p.1, p.2, q.2⟩ :: log))
    {envs : List Env} {log : List Exchange} (h : decodeLoopLog J fd envs σ = .ok (σ', log)) :
    P envs σ σ' log := by
  induction envs generalizing σ log with
  | nil =>
    cases hclient : σ.clients.lookup fd with
    | none => simp [decodeLoopLog, hclient] at h
    | some client =>
      cases hframe : nextFrame client.readBuf with
      | none =>
        cases (decodeLoopLog_stuck hclient hframe []).symm.trans h
        exact stuck hclient hframe
      | some p => cases (decodeLoopLog_nil hclient hframe).symm.trans h
  | cons env envs ih =>
    cases hclient : σ.clients.lookup fd with
    | none => simp [decodeLoopLog, hclient] at h
    | some client =>
      cases hframe : nextFrame client.readBuf with
      | none =>
        cases (decodeLoopLog_stuck hclient hframe (env :: envs)).symm.trans h
        exact stuck hclient hframe
      | some p =>
        rw [decodeLoopLog_cons hclient hframe] at h
        split at h
        · obtain ⟨q, hq, h⟩ := ok_of_bind h
          obtain ⟨⟨τ, later⟩, hlater, hpair⟩ := ok_of_map h
          cases hpair
          exact more hclient hframe hq (ih hlater)
        · cases h

/-- The frames of the buffer are served, and the rest stays in it. -/
theorem decodeLoopLog_spec {envs : List Env} {log : List Exchange}
    (hclient : σ.clients.lookup fd = some client)
    (h : decodeLoopLog J fd envs σ = .ok (σ', log)) :
    log.map (fun e => (e.result, e.consumed)) =
        (frames.messages client.readBuf).map (fun p => (J.request p.1, p.2)) ∧
      (∀ x, σ'.clients.lookup x =
        if x = fd then some { client with readBuf := frames.rest client.readBuf }
        else σ.clients.lookup x) ∧
      ∃ written : List Response,
        σ'.answers = (written.map fun r => (client.stream, r)).reverse ++ σ.answers ∧
        ((∀ env ∈ envs, env.responseWritten = true) → written = log.map Exchange.response) := by
  revert client
  apply decodeLoopLog_induction (h := h)
  case stuck =>
    intro envs σ client' hclient' hframe client hclient
    cases hclient'.symm.trans hclient
    rw [(frames_stuck hframe).1, (frames_stuck hframe).2]
    refine ⟨rfl, fun x => ?_, [], rfl, fun _ => rfl⟩
    split
    · rename_i hx
      rw [hx, hclient]
    · rfl
  case more =>
    intro env envs σ σ' client' p q log hclient' hframe hq ih client hclient
    cases hclient'.symm.trans hclient
    obtain ⟨hclients, hanswers⟩ := conclude_clients (respond_unheard hq) hclient env p.2
    obtain ⟨hframes, hrest, written, hanswers', hall⟩ := ih ((hclients fd).trans (if_pos rfl))
    rw [(frames_more hframe).1, (frames_more hframe).2]
    refine ⟨?_, fun x => ?_, ?_⟩
    · rw [List.map_cons, List.map_cons, hframes]
    · rw [hrest, hclients]
      split <;> rfl
    · rw [hanswers', hanswers]
      cases hwritten : env.responseWritten with
      | true =>
        refine ⟨q.2 :: written, by simp, fun hwrites => ?_⟩
        rw [List.map_cons, hall fun e he => hwrites e (List.mem_cons_of_mem env he)]
      | false =>
        refine ⟨written, by simp, fun hwrites => ?_⟩
        cases hwritten.symm.trans (hwrites env List.mem_cons_self)

/-- What is recorded as the response to a frame was the response to it. -/
theorem decodeLoopLog_answers {envs : List Env} {log : List Exchange}
    (h : decodeLoopLog J fd envs σ = .ok (σ', log)) :
    ∀ e ∈ log, ∃ env τ τ', respond J env τ fd e.result = .ok (τ', e.response) := by
  apply decodeLoopLog_induction (h := h)
  case stuck =>
    intro envs σ client hclient hframe
    simp
  case more =>
    intro env envs σ σ' client p q log hclient hframe hq ih e he
    rcases List.mem_cons.mp he with rfl | he
    · exact ⟨_, _, _, hq⟩
    · exact ih e he

theorem decodeLoopLog_accepted {envs : List Env} {log : List Exchange}
    (h : decodeLoopLog J fd envs σ = .ok (σ', log)) : σ'.accepted = σ.accepted := by
  apply decodeLoopLog_induction (h := h)
  case stuck =>
    intro envs σ client hclient hframe
    rfl
  case more =>
    intro env envs σ σ' client p q log hclient hframe hq ih
    exact ih.trans (conclude_accepted (respond_unheard hq) hclient env p.2)

end Server

end PtyDaemon
