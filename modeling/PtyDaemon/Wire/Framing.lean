import PtyDaemon.Wire.DecodeLoop

/-!
# Framing does not depend on how the bytes arrive

However a stream is cut into the pieces that are read, the decode loop serves the same frames and
leaves the same bytes. It ends after each piece: it makes one pass for each frame that is complete.
-/

namespace PtyDaemon

namespace Server

variable {J : Codec} {fd : RawFd} {σ σ' : Server} {client : ClientState}

/-- Serve the frames one after another. -/
def serveAll (J : Codec) (fd : RawFd) (served : List ((List UInt8 × Nat) × Env)) (σ : Server) :
    Except Stop Server :=
  served.foldlM (fun σ p =>
    if σ.admits p.2 then σ.serve J p.2 fd (J.request p.1.1) p.1.2 else .error .excluded) σ

private theorem decodeLoop_stuck (hclient : σ.clients.lookup fd = some client)
    (hframe : nextFrame client.readBuf = none) (envs : List Env) :
    decodeLoop J fd envs σ = .ok σ := by
  rw [decodeLoop_eq_log, decodeLoopLog_stuck hclient hframe]
  rfl

private theorem decodeLoop_cons (hclient : σ.clients.lookup fd = some client) {p : List UInt8 × Nat}
    (hframe : nextFrame client.readBuf = some p) (env : Env) (envs : List Env) :
    decodeLoop J fd (env :: envs) σ =
      if σ.admits env then (σ.serve J env fd (J.request p.1) p.2).bind (decodeLoop J fd envs)
      else .error .excluded := by
  rw [decodeLoop]
  simp only [hclient, tryDecodeMessage_eq, hframe, Option.map_some]

/-- With an answer for each of its frames, the loop serves them all and ends. -/
theorem decodeLoop_serves {envs : List Env} (hclient : σ.clients.lookup fd = some client)
    (hlen : (frames.messages client.readBuf).length ≤ envs.length) :
    decodeLoop J fd envs σ = σ.serveAll J fd ((frames.messages client.readBuf).zip envs) := by
  induction envs generalizing σ client with
  | nil =>
    cases hframe : nextFrame client.readBuf with
    | none =>
      rw [decodeLoop_stuck hclient hframe, (frames_stuck hframe).1]
      rfl
    | some p =>
      rw [(frames_more hframe).1] at hlen
      simp at hlen
  | cons env envs ih =>
    cases hframe : nextFrame client.readBuf with
    | none =>
      rw [decodeLoop_stuck hclient hframe, (frames_stuck hframe).1]
      rfl
    | some p =>
      rw [(frames_more hframe).1] at hlen ⊢
      rw [decodeLoop_cons hclient hframe, List.zip_cons_cons, serveAll, List.foldlM_cons]
      dsimp only
      split
      · rw [serve_eq]
        cases hresponse : σ.respond J env fd (J.request p.1) with
        | error stop => rfl
        | ok q =>
          obtain ⟨hclients, _⟩ := conclude_clients (respond_unheard hresponse) hclient env p.2
          exact ih ((hclients fd).trans (if_pos rfl)) (by simpa using hlen)
      · rfl

/-- The pieces are read one after another, each with the answers its requests get. -/
def receive (J : Codec) (fd : RawFd) :
    List (List UInt8 × List Env) → Server → Except Stop (Server × List Exchange)
  | [], σ => .ok (σ, [])
  | (bytes, envs) :: pieces, σ =>
    (σ.handleClientDataLog J envs fd bytes).bind fun p =>
      (receive J fd pieces p.1).map fun q => (q.1, p.2 ++ q.2)

/-- Without the record, `handle_client_data` is called for one piece after another. -/
theorem receive_eq (J : Codec) (fd : RawFd) (pieces : List (List UInt8 × List Env)) (σ : Server) :
    (receive J fd pieces σ).map Prod.fst =
      pieces.foldlM (fun σ piece => σ.handleClientData J piece.2 fd (.data piece.1)) σ := by
  induction pieces generalizing σ with
  | nil => rfl
  | cons piece pieces ih =>
    rw [List.foldlM_cons, handleClientData_eq_log, receive]
    cases σ.handleClientDataLog J piece.2 fd piece.1 with
    | error stop => rfl
    | ok p =>
      apply Eq.trans _ (ih p.1)
      simp only [Except.bind]
      cases receive J fd pieces p.1 <;> rfl

/-- What is served and what is left is that of the decoder fed with the pieces. -/
theorem receive_feed {pieces : List (List UInt8 × List Env)} {log : List Exchange}
    (hclient : σ.clients.lookup fd = some client) (h : receive J fd pieces σ = .ok (σ', log)) :
    log.map (fun e => (e.result, e.consumed)) =
        (frames.feed client.readBuf (pieces.map Prod.fst)).1.map (fun p => (J.request p.1, p.2)) ∧
      σ'.clients.lookup fd = some { client with
        readBuf := (frames.feed client.readBuf (pieces.map Prod.fst)).2 } := by
  induction pieces generalizing σ client log with
  | nil =>
    cases h
    exact ⟨rfl, hclient⟩
  | cons piece pieces ih =>
    obtain ⟨⟨τ, log₁⟩, hpiece, h⟩ := ok_of_bind h
    obtain ⟨⟨ρ, log₂⟩, hpieces, hpair⟩ := ok_of_map h
    cases hpair
    rw [handleClientDataLog, hclient] at hpiece
    have hput := lookup_putClient σ fd fd { client with readBuf := client.readBuf ++ piece.1 }
    rw [if_pos rfl] at hput
    obtain ⟨hframes, hrest, _⟩ := decodeLoopLog_spec hput hpiece
    obtain ⟨hframes', hleft⟩ := ih ((hrest fd).trans (if_pos rfl)) hpieces
    refine ⟨?_, hleft⟩
    rw [List.map_append, hframes, hframes']
    simp [Incremental.Decoder.feed]

/-- From an empty buffer, only the bytes matter. -/
theorem receive_spec {pieces : List (List UInt8 × List Env)} {log : List Exchange}
    (hclient : σ.clients.lookup fd = some client) (hempty : client.readBuf = [])
    (h : receive J fd pieces σ = .ok (σ', log)) :
    log.map (fun e => (e.result, e.consumed)) =
        (frames.messages (pieces.map Prod.fst).flatten).map (fun p => (J.request p.1, p.2)) ∧
      (σ'.clients.lookup fd).map ClientState.readBuf =
        some (frames.rest (pieces.map Prod.fst).flatten) := by
  obtain ⟨hframes, hleft⟩ := receive_feed hclient h
  have hstuck : frames.decode [] = none := rfl
  have hfeed := frames.feed_eq hstuck (pieces.map Prod.fst)
  rw [hempty, hfeed] at hframes hleft
  exact ⟨hframes, by rw [hleft]; rfl⟩

/-- The messages of a stream are served in order however it is cut; any stream at all gives the same
frames and leaves the same bytes for every cut; and the loop ends after each piece. `receive` is
`handle_client_data` for one piece after another, with a record. -/
theorem framing_independent (J : Codec) (fd : RawFd) :
    (∀ (pieces : List (List UInt8 × List Env)) (σ : Server),
      (receive J fd pieces σ).map Prod.fst =
        pieces.foldlM (fun σ piece => σ.handleClientData J piece.2 fd (.data piece.1)) σ) ∧
    (∀ (encode : Request → List UInt8) (requests : List Request)
      (pieces : List (List UInt8 × List Env)) (σ σ' : Server) (client : ClientState)
      (log : List Exchange),
      (∀ r ∈ requests, J.request (encode r) = .ok r ∧ (encode r).length < 2 ^ 32) →
      (∀ piece ∈ pieces, piece.1 ≠ []) →
      (pieces.map Prod.fst).flatten = requests.flatMap (fun r => encodeMessage (encode r)) →
      σ.clients.lookup fd = some client → client.readBuf = [] →
      receive J fd pieces σ = .ok (σ', log) →
      log.map Exchange.result = requests.map .ok ∧
        (σ'.clients.lookup fd).map ClientState.readBuf = some []) ∧
    (∀ (pieces₁ pieces₂ : List (List UInt8 × List Env)) (σ₁ σ₂ σ₁' σ₂' : Server)
      (client₁ client₂ : ClientState) (log₁ log₂ : List Exchange),
      (pieces₁.map Prod.fst).flatten = (pieces₂.map Prod.fst).flatten →
      σ₁.clients.lookup fd = some client₁ → client₁.readBuf = [] →
      σ₂.clients.lookup fd = some client₂ → client₂.readBuf = [] →
      receive J fd pieces₁ σ₁ = .ok (σ₁', log₁) → receive J fd pieces₂ σ₂ = .ok (σ₂', log₂) →
      log₁.map (fun e => (e.result, e.consumed)) = log₂.map (fun e => (e.result, e.consumed)) ∧
        ∃ left, (σ₁'.clients.lookup fd).map ClientState.readBuf = some left ∧
          (σ₂'.clients.lookup fd).map ClientState.readBuf = some left ∧
          tryDecodeMessage J.request left = none) ∧
    ∀ (σ : Server) (client : ClientState) (bytes : List UInt8) (envs : List Env),
      σ.clients.lookup fd = some client →
      (frames.messages (client.readBuf ++ bytes)).length ≤ envs.length →
      σ.handleClientData J envs fd (.data bytes) =
        serveAll J fd ((frames.messages (client.readBuf ++ bytes)).zip envs)
          (σ.putClient fd { client with readBuf := client.readBuf ++ bytes }) := by
  refine ⟨receive_eq J fd, ?_, ?_, ?_⟩
  · intro encode requests pieces σ σ' client log hcodec _ hbytes hclient hempty h
    obtain ⟨hframes, hleft⟩ := receive_spec hclient hempty h
    have hmap : requests.flatMap (fun r => encodeMessage (encode r)) =
        (requests.map encode).flatMap encodeMessage ++ [] := by
      simp [List.flatMap_map]
    have hshort : ∀ p ∈ requests.map encode, p.length < 2 ^ 32 := by
      intro p hp
      obtain ⟨r, hr, rfl⟩ := List.mem_map.mp hp
      exact (hcodec r hr).2
    obtain ⟨hmessages, hrest⟩ := frames_encode hshort []
    rw [hbytes, hmap, hmessages] at hframes
    rw [hbytes, hmap, hrest] at hleft
    refine ⟨?_, hleft⟩
    have hnil : frames.messages [] = [] := rfl
    have hresults := congrArg (List.map Prod.fst) hframes
    rw [hnil] at hresults
    simp only [List.map_map, List.append_nil, Function.comp_def] at hresults
    apply hresults.trans
    exact List.map_congr_left fun r hr => (hcodec r hr).1
  · intro pieces₁ pieces₂ σ₁ σ₂ σ₁' σ₂' client₁ client₂ log₁ log₂ hbytes h₁ hempty₁ h₂ hempty₂ hr₁
      hr₂
    obtain ⟨hframes₁, hleft₁⟩ := receive_spec h₁ hempty₁ hr₁
    obtain ⟨hframes₂, hleft₂⟩ := receive_spec h₂ hempty₂ hr₂
    rw [← hbytes] at hframes₂ hleft₂
    exact ⟨hframes₁.trans hframes₂.symm, _, hleft₁, hleft₂,
      tryDecodeMessage_none.mpr (nextFrame_rest _)⟩
  · intro σ client bytes envs hclient hlen
    rw [handleClientData, hclient]
    exact decodeLoop_serves ((lookup_putClient σ fd fd _).trans (if_pos rfl)) hlen

/-- A codec that knows one request. -/
private def listing : Codec where
  request := fun json => if json = [1] then .ok .list else .error "unknown"
  pushAck := fun _ => .error "unknown"
  base64 := fun _ => .error "unknown"

/-- Two requests, cut inside both headers. -/
theorem framing_independent_cut :
    ∃ σ' log, receive listing 5 [([0, 0], []), ([0, 1, 1, 0], [calm]), ([0, 0, 1, 1], [calm])]
        ((new 3 none 0).acceptClient 5) = .ok (σ', log) ∧
      log.map Exchange.result = [.ok .list, .ok .list] ∧
        (σ'.clients.lookup 5).map ClientState.readBuf = some [] := by
  have hrun : (receive listing 5 [([0, 0], []), ([0, 1, 1, 0], [calm]), ([0, 0, 1, 1], [calm])]
      ((new 3 none 0).acceptClient 5)).toOption.isSome = true := by decide +kernel
  obtain ⟨⟨σ', log⟩, hrun⟩ := Option.isSome_iff_exists.mp hrun
  have hrun := ok_of_toOption hrun
  refine ⟨σ', log, hrun, ?_⟩
  exact (framing_independent listing 5).2.1 (fun _ => [1]) [.list, .list] _ _ σ' ⟨0, []⟩ log
    (by decide) (by decide) (by decide) (by decide) rfl hrun

end Server

end PtyDaemon
