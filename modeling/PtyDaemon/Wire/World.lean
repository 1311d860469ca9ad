import PtyDaemon.Framework.Transition
import PtyDaemon.Wire.Overheard

/-!
# The daemon and what it reads

The daemon with a record, for every connection, of the bytes read from it and the frames served. The
bytes are read by the decode loop or by a wait; between two events nothing else reads.
-/

namespace PtyDaemon

/-- The daemon, and by connection what has been read and what has been served. -/
structure Wire where
  server : Server
  received : Nat → List UInt8
  served : Nat → List Exchange

namespace Server

/-- What an event reads from a connection outside the decode loop. -/
def overheard (σ : Server) (e : Event) (conn : Nat) : List UInt8 :=
  match σ.waits e with
  | none => []
  | some fd =>
    match σ.clients.lookup fd with
    | none => []
    | some client =>
      if client.stream = conn then (waited e.ackReads client.readBuf).bytes else []

end Server

namespace Wire

inductive Label
  /-- bytes arrive on a connection, with the answers for the requests in them -/
  | data (fd : RawFd) (bytes : List UInt8) (envs : List Env)
  | daemon (e : Event)
  /-- the loop sets its own fields -/
  | tick (running : Bool) (idleSince : Option Nat)

def readData (J : Codec) (w : Wire) (fd : RawFd) (bytes : List UInt8) (envs : List Env) :
    Option Wire :=
  (w.server.connOf fd).bind fun conn =>
    (w.server.handleClientDataLog J envs fd bytes).toOption.map fun p =>
      { server := p.1
        received := fun c => if c = conn then w.received c ++ bytes else w.received c
        served := fun c => if c = conn then w.served c ++ p.2 else w.served c }

def step (J : Codec) (w : Wire) : Label → Option Wire
  | .data fd bytes envs => w.readData J fd bytes envs
  | .daemon e =>
    -- requests come from the data
    if e.isRequest then none
    else
      (w.server.event J e).toOption.map fun σ' =>
        { w with
          server := σ'
          received := fun c => w.received c ++ w.server.overheard e c }
  | .tick running idleSince =>
    some { w with server := { w.server with running := running, idleSince := idleSince } }

/-- Responses written to a connection, oldest first. -/
def answersOn (w : Wire) (conn : Nat) : List Response :=
  (w.server.answers.filterMap fun p => if p.1 = conn then some p.2 else none).reverse

def new (listener : RawFd) (wakeup : Option (RawFd × RawFd)) (now : Nat) : Wire :=
  ⟨.new listener wakeup now, fun _ => [], fun _ => []⟩

def system (J : Codec) : Transition.System Wire Label where
  init w := ∃ listener wakeup now, w = new listener wakeup now
  step := step J

theorem init_new (J : Codec) (listener : RawFd) (wakeup : Option (RawFd × RawFd)) (now : Nat) :
    (system J).init (new listener wakeup now) := ⟨listener, wakeup, now, rfl⟩

variable {J : Codec} {w w' : Wire} {l : Label}

/-- Connections are told apart by their numbers, and nothing has been read from those to come. -/
structure Numbered (w : Wire) : Prop where
  below : ∀ {fd client}, w.server.clients.lookup fd = some client →
    client.stream < w.server.accepted
  unique : ∀ {fd fd' client client'}, w.server.clients.lookup fd = some client →
    w.server.clients.lookup fd' = some client' → client.stream = client'.stream → fd = fd'
  fresh : ∀ {c}, w.server.accepted ≤ c →
    w.received c = [] ∧ w.served c = [] ∧ w.answersOn c = []

private theorem answersOn_append {written : List Response} {conn : Nat}
    (h : w'.server.answers =
      (written.map fun r => (conn, r)).reverse ++ w.server.answers) (c : Nat) :
    w'.answersOn c = w.answersOn c ++ if conn = c then written else [] := by
  simp only [answersOn, h, List.filterMap_append, List.reverse_append, List.filterMap_reverse,
    List.reverse_reverse, List.filterMap_map]
  congr 1
  by_cases hc : conn = c
  · simp [hc]
  · simp [hc]

private theorem answersOn_same (h : w'.server.answers = w.server.answers) (c : Nat) :
    w'.answersOn c = w.answersOn c := by
  rw [answersOn, answersOn, h]

/-- The arrival of bytes on the connection that was `before`: its frames are served as `log`, and
the responses `sent` go out. -/
structure DataRead (J : Codec) (w : Wire) (fd : RawFd) (bytes : List UInt8) (envs : List Env)
    (w' : Wire) (before : ClientState) (log : List Exchange) (sent : List Response) : Prop where
  opened : w.server.clients.lookup fd = some before
  clients : ∀ x, w'.server.clients.lookup x =
    if x = fd then some { before with readBuf := frames.rest (before.readBuf ++ bytes) }
    else w.server.clients.lookup x
  accepted : w'.server.accepted = w.server.accepted
  decoded : log.map (fun e => (e.result, e.consumed)) =
    (frames.messages (before.readBuf ++ bytes)).map fun p => (J.request p.1, p.2)
  responses : ∀ e ∈ log, ∃ env τ τ', Server.respond J env τ fd e.result = .ok (τ', e.response)
  written : (∀ env ∈ envs, env.responseWritten = true) → sent = log.map Exchange.response
  received : ∀ c, w'.received c = w.received c ++ if before.stream = c then bytes else []
  served : ∀ c, w'.served c = w.served c ++ if before.stream = c then log else []
  answers : ∀ c, w'.answersOn c = w.answersOn c ++ if before.stream = c then sent else []

theorem readData_spec {fd : RawFd} {bytes : List UInt8} {envs : List Env}
    (h : w.readData J fd bytes envs = some w') :
    ∃ before log sent, DataRead J w fd bytes envs w' before log sent := by
  obtain ⟨conn, hconn, h⟩ := Option.bind_eq_some_iff.mp h
  obtain ⟨before, hbefore, rfl⟩ := Option.map_eq_some_iff.mp hconn
  obtain ⟨⟨σ', log⟩, hlog, rfl⟩ := Option.map_eq_some_iff.mp h
  have hlog := ok_of_toOption hlog
  rw [Server.handleClientDataLog, hbefore] at hlog
  have hput := Server.lookup_putClient w.server fd
  obtain ⟨hframes, hclients, written, hanswers, hwritten⟩ :=
    Server.decodeLoopLog_spec ((hput fd _).trans (if_pos rfl)) hlog
  have hgrow : ∀ {α : Type} (f : Nat → List α) (new : List α) (c : Nat),
      (if c = before.stream then f c ++ new else f c) =
        f c ++ if before.stream = c then new else [] := by
    intro α f new c
    by_cases hc : c = before.stream
    · rw [if_pos hc, if_pos hc.symm]
    · rw [if_neg hc, if_neg (Ne.symm hc), List.append_nil]
  refine ⟨before, log, written, ?_⟩
  constructor
  case opened => exact hbefore
  case clients =>
    intro x
    rw [hclients, hput]
    split <;> rfl
  case accepted =>
    have haccepted := Server.decodeLoopLog_accepted hlog
    exact haccepted
  case decoded => exact hframes
  case responses => exact Server.decodeLoopLog_answers hlog
  case written => exact hwritten
  case received => exact hgrow w.received bytes
  case served => exact hgrow w.served log
  case answers => exact answersOn_append hanswers

/-- What a step does to the open connection on `fd`, which is `client` after it. -/
inductive ConnStep (J : Codec) (w : Wire) (l : Label) (w' : Wire) (fd : RawFd)
    (client : ClientState) : Prop
  | accepted (hbuf : client.readBuf = []) (hreceived : w'.received client.stream = [])
      (hserved : w'.served client.stream = []) (hanswers : w'.answersOn client.stream = [])
  | data {before : ClientState} {bytes : List UInt8} {envs : List Env} {log : List Exchange}
      {sent : List Response} (hl : l = .data fd bytes envs)
      (hread : DataRead J w fd bytes envs w' before log sent)
      (hclient : client = { before with readBuf := frames.rest (before.readBuf ++ bytes) })
  | wait {before : ClientState} {e : Event} (hl : l = .daemon e)
      (hwait : w.server.waits e = some fd)
      (hbefore : w.server.clients.lookup fd = some before)
      (hclient : client = { before with
        readBuf := (waited e.ackReads before.readBuf).left before.readBuf })
      (hreceived : w'.received client.stream =
        w.received client.stream ++ (waited e.ackReads before.readBuf).bytes)
      (hserved : w'.served client.stream = w.served client.stream)
      (hanswers : w'.answersOn client.stream = w.answersOn client.stream)
  | same (hbefore : w.server.clients.lookup fd = some client)
      (hreceived : w'.received client.stream = w.received client.stream)
      (hserved : w'.served client.stream = w.served client.stream)
      (hanswers : w'.answersOn client.stream = w.answersOn client.stream)

/-- An event reads nothing from a connection on which it does not wait. -/
theorem overheard_eq_nil {e : Event} {conn : Nat}
    (h : ∀ {fd client}, w.server.waits e = some fd → w.server.clients.lookup fd = some client →
      client.stream ≠ conn) : w.server.overheard e conn = [] := by
  unfold Server.overheard
  split
  · rfl
  · rename_i hwait
    split
    · rfl
    · rename_i hclient
      exact if_neg (h hwait hclient)

theorem overheard_eq {e : Event} {fd : RawFd} {client : ClientState}
    (hwait : w.server.waits e = some fd) (hclient : w.server.clients.lookup fd = some client) :
    w.server.overheard e client.stream = (waited e.ackReads client.readBuf).bytes := by
  simp only [Server.overheard, hwait, hclient, if_true]

theorem step_daemon {e : Event} (h : step J w (.daemon e) = some w') :
    Server.EventReads w.server e w'.server ∧
      (∀ c, w'.received c = w.received c ++ w.server.overheard e c) ∧ w'.served = w.served := by
  rw [step] at h
  split at h
  · cases h
  · rename_i hother
    obtain ⟨σ', hevent, rfl⟩ := Option.map_eq_some_iff.mp h
    exact ⟨Server.event_reads (ok_of_toOption hevent) (Bool.eq_false_of_not_eq_true hother),
      fun _ => rfl, rfl⟩

private theorem Numbered.ofOld (h : Numbered w)
    (hold : ∀ {x client}, w'.server.clients.lookup x = some client →
      ∃ before, w.server.clients.lookup x = some before ∧ before.stream = client.stream)
    (haccepted : w'.server.accepted = w.server.accepted)
    (hfresh : ∀ {c}, w.server.accepted ≤ c → w'.received c = w.received c ∧
      w'.served c = w.served c ∧ w'.answersOn c = w.answersOn c) : Numbered w' := by
  constructor
  case below =>
    intro x client hx
    obtain ⟨before, hx, hstream⟩ := hold hx
    rw [haccepted, ← hstream]
    exact h.below hx
  case unique =>
    intro x x' client client' hx hx' heq
    obtain ⟨before, hx, hstream⟩ := hold hx
    obtain ⟨before', hx', hstream'⟩ := hold hx'
    exact h.unique hx hx' (hstream.trans (heq.trans hstream'.symm))
  case fresh =>
    intro c hc
    rw [haccepted] at hc
    obtain ⟨hreceived, hserved, hanswers⟩ := hfresh hc
    rw [hreceived, hserved, hanswers]
    exact h.fresh hc

private theorem Numbered.data (h : Numbered w) {fd : RawFd} {bytes : List UInt8}
    {envs : List Env} {before : ClientState} {log : List Exchange} {sent : List Response}
    (hread : DataRead J w fd bytes envs w' before log sent) : Numbered w' := by
  apply h.ofOld _ hread.accepted
  · intro c hc
    have hne : before.stream ≠ c := by
      have hlt := h.below hread.opened
      omega
    rw [hread.received, hread.served, hread.answers]
    simp [hne]
  · intro x client hx
    rw [hread.clients] at hx
    split at hx
    · rename_i hfd
      cases hx
      exact ⟨before, hfd ▸ hread.opened, rfl⟩
    · exact ⟨client, hx, rfl⟩

private theorem Numbered.accept (h : Numbered w) {fd : RawFd}
    (hserver : w'.server = w.server.acceptClient fd) (hreceived : w'.received = w.received)
    (hserved : w'.served = w.served) : Numbered w' := by
  have haccepted : w'.server.accepted = w.server.accepted + 1 := by rw [hserver]; rfl
  have hlookup : ∀ {x client}, w'.server.clients.lookup x = some client →
      x = fd ∧ client.stream = w.server.accepted ∨ w.server.clients.lookup x = some client := by
    intro x client hx
    rw [hserver] at hx
    have hx := (Table.lookup_insert w.server.clients fd x ⟨w.server.accepted, []⟩).symm.trans hx
    split at hx
    · rename_i hfd
      cases hx
      exact .inl ⟨hfd, rfl⟩
    · exact .inr hx
  constructor
  case below =>
    intro x client hx
    rw [haccepted]
    rcases hlookup hx with ⟨_, hstream⟩ | hx
    · omega
    · exact Nat.lt_succ_of_lt (h.below hx)
  case unique =>
    intro x x' client client' hx hx' heq
    rcases hlookup hx with ⟨hfd, hstream⟩ | hx
    · rcases hlookup hx' with ⟨hfd', _⟩ | hx'
      · rw [hfd, hfd']
      · have hlt := h.below hx'
        omega
    · rcases hlookup hx' with ⟨_, hstream'⟩ | hx'
      · have hlt := h.below hx
        omega
      · exact h.unique hx hx' heq
  case fresh =>
    intro c hc
    rw [haccepted] at hc
    have hanswers : w'.answersOn c = w.answersOn c := answersOn_same (by rw [hserver]; rfl) c
    rw [hreceived, hserved, hanswers]
    exact h.fresh (by omega)

private theorem Numbered.step (h : Numbered w) (hstep : step J w l = some w') : Numbered w' := by
  cases l with
  | tick running idleSince =>
    cases hstep
    exact ⟨h.below, h.unique, h.fresh⟩
  | data fd bytes envs =>
    obtain ⟨before, log, sent, hread⟩ := readData_spec hstep
    exact h.data hread
  | daemon e =>
    obtain ⟨hreads, hreceived, hserved⟩ := step_daemon hstep
    have hfresh : ∀ {c}, w.server.accepted ≤ c → w'.received c = w.received c := by
      intro c hc
      rw [hreceived, overheard_eq_nil, List.append_nil]
      intro fd client _ hclient hstream
      have hlt := h.below hclient
      omega
    cases hreads with
    | accept he hserver =>
      have hnone : w'.received = w.received := by
        funext c
        rw [hreceived, he]
        exact List.append_nil _
      exact h.accept hserver hnone hserved
    | disconnect he hclients hanswers haccepted =>
      apply h.ofOld _ haccepted
      · intro c hc
        exact ⟨hfresh hc, by rw [hserved], answersOn_same hanswers c⟩
      · intro x client hx
        rw [hclients] at hx
        split at hx
        · cases hx
        · exact ⟨client, hx, rfl⟩
    | heard hheard =>
      apply h.ofOld _ hheard.accepted
      · intro c hc
        exact ⟨hfresh hc, by rw [hserved], answersOn_same hheard.answers c⟩
      · intro x client hx
        rw [hheard.clients] at hx
        obtain ⟨before, hbefore, rfl⟩ := Option.map_eq_some_iff.mp hx
        refine ⟨before, hbefore, ?_⟩
        split <;> rfl

theorem reachable_numbered (h : (system J).Reachable w) : Numbered w := by
  apply h.invariant
  · rintro _ ⟨listener, wakeup, now, rfl⟩
    exact ⟨fun h => (nomatch h), fun h => (nomatch h), fun _ => ⟨rfl, rfl, rfl⟩⟩
  · intro w l w' hw _ hstep
    exact hw.step hstep

/-- Every open connection is new, read by the decode loop, waited on, or left alone. -/
theorem step_conn (h : Numbered w) (hstep : step J w l = some w') {fd : RawFd}
    {client : ClientState} (hclient : w'.server.clients.lookup fd = some client) :
    ConnStep J w l w' fd client := by
  cases l with
  | tick running idleSince =>
    cases hstep
    exact .same hclient rfl rfl rfl
  | data x bytes envs =>
    obtain ⟨before, log, sent, hread⟩ := readData_spec hstep
    rw [hread.clients] at hclient
    split at hclient
    · rename_i hx
      subst hx
      exact .data rfl hread (Option.some.inj hclient).symm
    · rename_i hx
      have hne : before.stream ≠ client.stream := fun heq =>
        hx (h.unique hclient hread.opened heq.symm)
      apply ConnStep.same hclient
      · rw [hread.received, if_neg hne, List.append_nil]
      · rw [hread.served, if_neg hne, List.append_nil]
      · rw [hread.answers, if_neg hne, List.append_nil]
  | daemon e =>
    obtain ⟨hreads, hreceived, hserved⟩ := step_daemon hstep
    -- a connection the event does not wait on
    have hquiet : w.server.waits e ≠ some fd → w.server.clients.lookup fd = some client →
        w'.received client.stream = w.received client.stream := by
      intro hwait hold
      rw [hreceived, overheard_eq_nil, List.append_nil]
      intro x other hx hother heq
      exact hwait (h.unique hother hold heq ▸ hx)
    cases hreads with
    | @accept x he hserver =>
      rw [hserver] at hclient
      have hlookup := Table.lookup_insert w.server.clients x fd ⟨w.server.accepted, []⟩
      have hanswers : ∀ c, w'.answersOn c = w.answersOn c :=
        answersOn_same (by rw [hserver]; rfl)
      have hfound := hlookup.symm.trans hclient
      split at hfound
      · cases hfound
        obtain ⟨hnone, hnone', hnone''⟩ := h.fresh (Nat.le_refl w.server.accepted)
        refine .accepted rfl ?_ ?_ ?_
        · rw [hreceived, hnone, he]
          rfl
        · rw [hserved, hnone']
        · rw [hanswers, hnone'']
      · refine .same hfound (hquiet ?_ hfound) (by rw [hserved]) (hanswers _)
        rw [he]
        simp [Server.waits]
    | @disconnect x he hclients hanswers _ =>
      rw [hclients] at hclient
      split at hclient
      · cases hclient
      · refine .same hclient (hquiet ?_ hclient) (by rw [hserved]) (answersOn_same hanswers _)
        rw [he]
        simp [Server.waits]
    | heard hheard =>
      rw [hheard.clients] at hclient
      obtain ⟨before, hbefore, hafter⟩ := Option.map_eq_some_iff.mp hclient
      have hanswers := answersOn_same hheard.answers client.stream
      split at hafter
      · rename_i hwait
        subst hafter
        refine .wait rfl hwait hbefore rfl ?_ (by rw [hserved]) hanswers
        rw [hreceived]
        exact congrArg _ (overheard_eq hwait hbefore)
      · rename_i hwait
        subst hafter
        exact .same hbefore (hquiet hwait hbefore) (by rw [hserved]) hanswers

end Wire

end PtyDaemon
