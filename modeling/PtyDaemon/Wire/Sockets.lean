import PtyDaemon.Wire.Requests

/-!
# The sockets of the clients

A client writes to its end of a connection and closes it; the daemon reads from the other end. The
kernel keeps what is written and not yet read, and reports the close with `EV_EOF`, whether or not
something is unread.
-/

namespace PtyDaemon

/-- The buffer of one `read` in `handle_client_data`. -/
def clientReadSize : Nat := 4096

/-- The frame that ends a wait of the event on a connection. -/
def Server.endsWait (σ : Server) (e : Event) (conn : Nat) : List (List UInt8 × Nat) :=
  match σ.waits e with
  | none => []
  | some fd =>
    match σ.clients.lookup fd with
    | none => []
    | some client =>
      if client.stream = conn then (waited e.ackReads client.readBuf).frame.toList else []

/-- The daemon and the clients' ends of the connections, by number. -/
structure Sockets where
  wire : Wire
  written : Nat → List UInt8
  closed : Nat → Bool
  /-- the frames that ended waits -/
  taken : Nat → List (List UInt8 × Nat)

namespace Sockets

/-- What the kernel holds for the daemon. -/
def unread (x : Sockets) (c : Nat) : List UInt8 :=
  (x.written c).drop (x.wire.received c).length

inductive Label
  | write (c : Nat) (bytes : List UInt8)
  | close (c : Nat)
  /-- a read event for a client, with the answer to `read` where the daemon calls it -/
  | readable (fd : RawFd) (eof : Bool) (read : ClientRead) (envs : List Env)
  | daemon (e : Event)
  | tick (running : Bool) (idleSince : Option Nat)

/-- What `read` can return. -/
def Returns (x : Sockets) (c : Nat) : ClientRead → Prop
  | .data bytes => bytes ≠ [] ∧ bytes.length ≤ clientReadSize ∧ bytes <+: x.unread c
  | .closed => x.closed c = true ∧ x.unread c = []
  | .wouldBlock => x.unread c = []
  | .failed _ => True

instance (x : Sockets) (c : Nat) : ∀ read, Decidable (x.Returns c read)
  | .data bytes => inferInstanceAs (Decidable (bytes ≠ [] ∧ _ ∧ bytes <+: x.unread c))
  | .closed => inferInstanceAs (Decidable (x.closed c = true ∧ x.unread c = []))
  | .wouldBlock => inferInstanceAs (Decidable (x.unread c = []))
  | .failed _ => inferInstanceAs (Decidable True)

end Sockets

def Event.isDisconnect : Event → Bool
  | .disconnect _ => true
  | _ => false

namespace Sockets

/-- What the kernel lets happen. The daemon gives a connection up only in an event of its own. -/
def Permits (x : Sockets) : Label → Prop
  | .write c _ => x.closed c = false
  | .close _ => True
  | .readable fd eof read _ => ∀ c ∈ x.wire.server.connOf fd,
    if eof then x.closed c = true else x.Returns c read
  | .daemon e => e.isDisconnect = false ∧
    ∀ fd ∈ x.wire.server.waits e, ∀ client ∈ x.wire.server.clients.lookup fd,
      (waited e.ackReads client.readBuf).bytes <+: x.unread client.stream
  | .tick _ _ => True

instance (x : Sockets) : ∀ l, Decidable (x.Permits l)
  | .write c _ => inferInstanceAs (Decidable (x.closed c = false))
  | .close _ => inferInstanceAs (Decidable True)
  | .readable fd _ _ _ => inferInstanceAs (Decidable (∀ c ∈ x.wire.server.connOf fd, _))
  | .daemon e => inferInstanceAs (Decidable (e.isDisconnect = false ∧
      ∀ fd ∈ x.wire.server.waits e, ∀ client ∈ x.wire.server.clients.lookup fd, _))
  | .tick _ _ => inferInstanceAs (Decidable True)

end Sockets

/-- An event of a client: with `EV_EOF` the connection is given up, without it it is read. -/
def Wire.clientEvent (J : Codec) (w : Wire) (fd : RawFd) (eof : Bool) (read : ClientRead)
    (envs : List Env) : Option Wire :=
  if eof then step J w (.daemon (.disconnect fd))
  else
    match read with
    | .data bytes => step J w (.data fd bytes envs)
    | .closed => step J w (.daemon (.disconnect fd))
    | .wouldBlock => some w
    | .failed _ => none

namespace Sockets

def apply (J : Codec) (x : Sockets) : Label → Option Sockets
  | .write c bytes =>
    some { x with written := fun i => if i = c then x.written i ++ bytes else x.written i }
  | .close c => some { x with closed := fun i => if i = c then true else x.closed i }
  | .readable fd eof read envs =>
    (x.wire.clientEvent J fd eof read envs).map fun w => { x with wire := w }
  | .daemon e =>
    (x.wire.step J (.daemon e)).map fun w =>
      { x with wire := w, taken := fun c => x.taken c ++ x.wire.server.endsWait e c }
  | .tick running idleSince =>
    (x.wire.step J (.tick running idleSince)).map fun w => { x with wire := w }

def step (J : Codec) (x : Sockets) (l : Label) : Option Sockets :=
  if x.Permits l then x.apply J l else none

def new (listener : RawFd) (wakeup : Option (RawFd × RawFd)) (now : Nat) : Sockets :=
  ⟨.new listener wakeup now, fun _ => [], fun _ => false, fun _ => []⟩

def system (J : Codec) : Transition.System Sockets Label where
  init x := ∃ listener wakeup now, x = new listener wakeup now
  step := step J

end Sockets

namespace Wire

variable {J : Codec} {w w' : Wire} {fd : RawFd} {client : ClientState} {read : ClientRead}
  {envs : List Env}

private theorem step_disconnect (hclient : w.server.clients.lookup fd = some client) :
    (step J w (.daemon (.disconnect fd))).map server =
      (w.server.handleClientDisconnect fd).toOption := by
  have hconn : (w.server.connOf fd).isSome = true := by rw [Server.connOf, hclient]; rfl
  simp only [step, Event.isRequest, if_neg Bool.false_ne_true, Server.event, hconn, if_true]
  cases w.server.handleClientDisconnect fd <;> rfl

private theorem step_data (hclient : w.server.clients.lookup fd = some client)
    (bytes : List UInt8) :
    (step J w (.data fd bytes envs)).map server =
      (w.server.handleClientData J envs fd (.data bytes)).toOption := by
  have hconn : w.server.connOf fd = some client.stream := by rw [Server.connOf, hclient]; rfl
  rw [Server.handleClientData_eq_log]
  simp only [step, readData, hconn, Option.bind_some]
  cases w.server.handleClientDataLog J envs fd bytes <;> rfl

/-- It is what the loop does with the event. -/
theorem clientEvent_eq_dispatch {ans : Answers} (hclient : w.server.clients.lookup fd = some client)
    (hlistener : fd ≠ w.server.listener)
    (hpipe : (w.server.wsWakeupPipe.any fun p => fd = p.1) = false) (eof : Bool) :
    (w.clientEvent J fd eof ans.clientRead ans.envs).map server =
      (w.server.dispatch J ans ⟨fd, .read, eof⟩).toOption := by
  have hopen : (w.server.clients.lookup fd).isSome = true := by rw [hclient]; rfl
  unfold Server.dispatch clientEvent
  simp only [hpipe, hopen, if_neg hlistener, if_true, reduceCtorEq, if_false]
  cases eof with
  | true => exact step_disconnect hclient
  | false =>
    simp only [if_neg Bool.false_ne_true]
    cases hread : ans.clientRead with
    | data bytes => exact step_data hclient bytes
    | closed =>
      simp only [Server.handleClientData, hclient]
      exact step_disconnect hclient
    | wouldBlock =>
      simp only [Server.handleClientData, hclient]
      rfl
    | failed e =>
      simp only [Server.handleClientData, hclient]
      rfl

end Wire

/-! ## Steps -/

namespace Sockets

variable {J : Codec} {x x' : Sockets} {l : Label} {c : Nat} {e : Event}

/-- What a step does: nothing to the connections, or it reads from one, or it is an event. -/
inductive Progress (J : Codec) (x x' : Sockets) : Prop
  | still (hreach : (Wire.system J).Reachable x.wire → (Wire.system J).Reachable x'.wire)
      (hclients : x'.wire.server.clients = x.wire.server.clients)
      (haccepted : x'.wire.server.accepted = x.wire.server.accepted)
      (hreceived : x'.wire.received = x.wire.received) (hserved : x'.wire.served = x.wire.served)
      (hwritten : ∀ c, x.written c <+: x'.written c) (htaken : x'.taken = x.taken)
  | data {fd : RawFd} {conn : Nat} {bytes : List UInt8} {envs : List Env}
      (hwire : x.wire.step J (.data fd bytes envs) = some x'.wire)
      (hconn : x.wire.server.connOf fd = some conn) (hbytes : bytes <+: x.unread conn)
      (hwritten : x'.written = x.written) (htaken : x'.taken = x.taken)
  | daemon {e : Event} (hwire : x.wire.step J (.daemon e) = some x'.wire)
      (hheard : ∀ c, x.wire.server.overheard e c <+: x.unread c)
      (hwritten : x'.written = x.written)
      (htaken : ∀ c, x'.taken c = x.taken c ++ x.wire.server.endsWait e c)

private theorem endsWait_eq_nil {conn : Nat}
    (h : ∀ {fd client}, x.wire.server.waits e = some fd →
      x.wire.server.clients.lookup fd = some client → client.stream ≠ conn) :
    x.wire.server.endsWait e conn = [] := by
  unfold Server.endsWait
  split
  · rfl
  · rename_i hwait
    split
    · rfl
    · rename_i hclient
      exact if_neg (h hwait hclient)

private theorem endsWait_eq {fd : RawFd} {client : ClientState}
    (hwait : x.wire.server.waits e = some fd)
    (hclient : x.wire.server.clients.lookup fd = some client) :
    x.wire.server.endsWait e client.stream = (waited e.ackReads client.readBuf).frame.toList := by
  simp only [Server.endsWait, hwait, hclient, if_true]

private theorem disconnect_progress {fd : RawFd} {w : Wire}
    (h : x.wire.step J (.daemon (.disconnect fd)) = some w) :
    Progress J x { x with wire := w } := by
  refine .daemon h (fun c => ?_) rfl fun c => ?_
  · rw [Wire.overheard_eq_nil fun h => (by cases h)]
    exact List.nil_prefix
  · rw [endsWait_eq_nil fun h => (by cases h), List.append_nil]

private theorem overheard_within
    (h : ∀ fd ∈ x.wire.server.waits e, ∀ client ∈ x.wire.server.clients.lookup fd,
      (waited e.ackReads client.readBuf).bytes <+: x.unread client.stream) (c : Nat) :
    x.wire.server.overheard e c <+: x.unread c := by
  unfold Server.overheard
  split
  · exact List.nil_prefix
  · rename_i fd hwait
    split
    · exact List.nil_prefix
    · rename_i client hclient
      split
      · rename_i hc
        rw [← hc]
        exact h fd hwait client hclient
      · exact List.nil_prefix

private theorem step_progress (h : step J x l = some x') : Progress J x x' := by
  rw [step] at h
  split at h
  · rename_i hpermits
    cases l with
    | write c bytes =>
      cases h
      refine .still id rfl rfl rfl rfl (fun i => ?_) rfl
      dsimp only
      split
      · exact List.prefix_append _ _
      · exact List.prefix_refl _
    | close c =>
      cases h
      exact .still id rfl rfl rfl rfl (fun _ => List.prefix_refl _) rfl
    | tick running idleSince =>
      cases h
      refine .still (fun hreach => ?_) rfl rfl rfl rfl (fun _ => List.prefix_refl _) rfl
      exact .next (e := .tick running idleSince) hreach trivial rfl
    | daemon e =>
      obtain ⟨w, hw, rfl⟩ := Option.map_eq_some_iff.mp h
      exact .daemon hw (overheard_within hpermits.2) rfl fun _ => rfl
    | readable fd eof read envs =>
      obtain ⟨w, hw, rfl⟩ := Option.map_eq_some_iff.mp h
      cases eof with
      | true => exact disconnect_progress hw
      | false =>
        cases read with
        | data bytes =>
          have hw : x.wire.step J (.data fd bytes envs) = some w := hw
          obtain ⟨conn, hconn, _⟩ := Option.bind_eq_some_iff.mp hw
          have hreturns : x.Returns conn (.data bytes) := hpermits conn hconn
          exact .data hw hconn hreturns.2.2 rfl rfl
        | closed => exact disconnect_progress hw
        | wouldBlock =>
          cases hw
          exact .still id rfl rfl rfl rfl (fun _ => List.prefix_refl _) rfl
        | failed message => cases hw
  · cases h

/-- Without the clients' ends, a run is a run of the daemon. -/
theorem reachable_wire (h : (system J).Reachable x) : (Wire.system J).Reachable x.wire := by
  apply h.invariant
  · rintro _ ⟨listener, wakeup, now, rfl⟩
    exact .start (Wire.init_new J listener wakeup now)
  · intro x l x' hreach _ hstep
    cases step_progress hstep with
    | still hkeeps => exact hkeeps hreach
    | data hwire => exact hreach.next (e := .data _ _ _) trivial hwire
    | daemon hwire => exact hreach.next (e := .daemon _) trivial hwire

/-! ## What has become of the bytes -/

/-- What has been read from connection `c` is in frames and in the buffer; the requests among the
frames have been handled, all but those that ended waits. -/
def Accounted (J : Codec) (x : Sockets) (c : Nat) (buf : List UInt8) : Prop :=
  ∃ ms, frames.Splits (x.wire.received c) ms buf ∧
    (handled (x.wire.served c)).Sublist (requestsIn J ms) ∧
    (requestsIn J ms).length =
      (handled (x.wire.served c)).length + (requestsIn J (x.taken c)).length

/-- The daemon reads what has been written, and accounts for it. -/
structure Kept (J : Codec) (x : Sockets) : Prop where
  fresh : ∀ c, x.wire.server.accepted ≤ c → x.taken c = []
  within : ∀ c, x.wire.received c <+: x.written c
  accounted : ∀ fd client, x.wire.server.clients.lookup fd = some client →
    Accounted J x client.stream client.readBuf

private theorem written_eq (h : x.wire.received c <+: x.written c) :
    x.written c = x.wire.received c ++ x.unread c := by
  obtain ⟨later, hlater⟩ := h
  rw [unread, ← hlater, List.drop_left]

private theorem within_grows {bytes : List UInt8} (h : x.wire.received c <+: x.written c)
    (hbytes : bytes <+: x.unread c) (hreceived : x'.wire.received c = x.wire.received c ++ bytes)
    (hwritten : x'.written = x.written) : x'.wire.received c <+: x'.written c := by
  rw [hreceived, hwritten, written_eq h]
  exact (List.prefix_append_right_inj _).mpr hbytes

namespace Accounted

variable {buf : List UInt8}

private theorem same (h : Accounted J x c buf) (hreceived : x'.wire.received c = x.wire.received c)
    (hserved : x'.wire.served c = x.wire.served c) (htaken : x'.taken c = x.taken c) :
    Accounted J x' c buf := by
  rw [Accounted, hreceived, hserved, htaken]
  exact h

private theorem new (hreceived : x.wire.received c = []) (hserved : x.wire.served c = [])
    (htaken : x.taken c = []) : Accounted J x c [] := by
  refine ⟨[], ?_, ?_, ?_⟩
  · rw [hreceived]
    exact .refl []
  · simp [hserved, handled]
  · simp [hserved, htaken, requestsIn, handled]

private theorem data {bytes : List UInt8} {log : List Exchange} (h : Accounted J x c buf)
    (hframes : log.map (fun e => (e.result, e.consumed)) =
      (frames.messages (buf ++ bytes)).map fun p => (J.request p.1, p.2))
    (hreceived : x'.wire.received c = x.wire.received c ++ bytes)
    (hserved : x'.wire.served c = x.wire.served c ++ log) (htaken : x'.taken c = x.taken c) :
    Accounted J x' c (frames.rest (buf ++ bytes)) := by
  obtain ⟨ms, hsplits, hsublist, hlength⟩ := h
  have hnew := handled_eq hframes
  refine ⟨ms ++ frames.messages (buf ++ bytes), ?_, ?_, ?_⟩
  · rw [hreceived]
    exact (hsplits.append bytes).rest
  · rw [hserved, handled_append, requestsIn_append, hnew]
    exact hsublist.append (List.Sublist.refl _)
  · rw [hserved, htaken, handled_append, requestsIn_append, hnew, List.length_append,
      List.length_append, hlength]
    omega

private theorem wait {reads : List AckRead} (h : Accounted J x c buf)
    (hreceived : x'.wire.received c = x.wire.received c ++ (waited reads buf).bytes)
    (hserved : x'.wire.served c = x.wire.served c)
    (htaken : x'.taken c = x.taken c ++ (waited reads buf).frame.toList) :
    Accounted J x' c ((waited reads buf).left buf) := by
  obtain ⟨ms, hsplits, hsublist, hlength⟩ := h
  have hsplits := hsplits.append (waited reads buf).bytes
  rw [← hreceived] at hsplits
  cases hframe : (waited reads buf).frame with
  | none =>
    rw [hframe, Option.toList_none, List.append_nil] at htaken
    refine ⟨ms, ?_, ?_, ?_⟩
    · rw [Waited.left, hframe]
      exact hsplits
    · rwa [hserved]
    · rwa [hserved, htaken]
  | some p =>
    rw [hframe, Option.toList_some] at htaken
    refine ⟨ms ++ [p], ?_, ?_, ?_⟩
    · rw [Waited.left, hframe]
      exact hsplits.drop (waited_frame hframe)
    · rw [hserved, requestsIn_append]
      exact hsublist.trans (List.sublist_append_left _ _)
    · rw [hserved, htaken, requestsIn_append, requestsIn_append, List.length_append,
        List.length_append, hlength, Nat.add_assoc]

end Accounted

private theorem Kept.still (h : Kept J x)
    (hclients : x'.wire.server.clients = x.wire.server.clients)
    (haccepted : x'.wire.server.accepted = x.wire.server.accepted)
    (hreceived : x'.wire.received = x.wire.received) (hserved : x'.wire.served = x.wire.served)
    (hwritten : ∀ c, x.written c <+: x'.written c) (htaken : x'.taken = x.taken) :
    Kept J x' where
  fresh c hc := by
    rw [htaken]
    exact h.fresh c (haccepted ▸ hc)
  within c := by
    rw [hreceived]
    exact (h.within c).trans (hwritten c)
  accounted fd client hclient := by
    rw [hclients] at hclient
    have hbefore := h.accounted fd client hclient
    exact hbefore.same (by rw [hreceived]) (by rw [hserved]) (by rw [htaken])

private theorem Kept.data (hnumbered : Wire.Numbered x.wire) (h : Kept J x) {fd : RawFd}
    {conn : Nat}
    {bytes : List UInt8} {envs : List Env}
    (hwire : x.wire.step J (.data fd bytes envs) = some x'.wire)
    (hconn : x.wire.server.connOf fd = some conn) (hbytes : bytes <+: x.unread conn)
    (hwritten : x'.written = x.written) (htaken : x'.taken = x.taken) : Kept J x' := by
  obtain ⟨before, log, sent, hread⟩ := Wire.readData_spec hwire
  have hstream : before.stream = conn := by
    rw [Server.connOf, hread.opened] at hconn
    exact Option.some.inj hconn
  subst hstream
  -- another connection is left alone
  have hother : ∀ {c}, before.stream ≠ c →
      x'.wire.received c = x.wire.received c ∧ x'.wire.served c = x.wire.served c := by
    intro c hc
    rw [hread.received, hread.served, if_neg hc, if_neg hc]
    simp
  have hsame : x'.wire.received before.stream = x.wire.received before.stream ++ bytes ∧
      x'.wire.served before.stream = x.wire.served before.stream ++ log := by
    rw [hread.received, hread.served, if_pos rfl, if_pos rfl]
    exact ⟨rfl, rfl⟩
  constructor
  case fresh =>
    intro c hc
    rw [htaken]
    exact h.fresh c (hread.accepted ▸ hc)
  case within =>
    intro c
    by_cases hc : before.stream = c
    · subst hc
      exact within_grows (h.within _) hbytes hsame.1 hwritten
    · rw [(hother hc).1, hwritten]
      exact h.within c
  case accounted =>
    intro y client hclient
    rw [hread.clients] at hclient
    split at hclient
    · cases hclient
      have hopened := h.accounted fd before hread.opened
      exact hopened.data hread.decoded hsame.1 hsame.2 (by rw [htaken])
    · rename_i hy
      have hne : before.stream ≠ client.stream := fun heq =>
        hy (hnumbered.unique hclient hread.opened heq.symm)
      obtain ⟨hreceived, hserved⟩ := hother hne
      exact (h.accounted y client hclient).same hreceived hserved (by rw [htaken])

private theorem Kept.daemon (hnumbered : Wire.Numbered x.wire) (h : Kept J x)
    (hwire : x.wire.step J (.daemon e) = some x'.wire)
    (hheard : ∀ c, x.wire.server.overheard e c <+: x.unread c)
    (hwritten : x'.written = x.written)
    (htaken : ∀ c, x'.taken c = x.taken c ++ x.wire.server.endsWait e c) : Kept J x' := by
  obtain ⟨hreads, hreceived, hserved⟩ := Wire.step_daemon hwire
  -- a connection on which the event does not wait
  have hquiet : ∀ {c}, (∀ {fd client}, x.wire.server.waits e = some fd →
      x.wire.server.clients.lookup fd = some client → client.stream ≠ c) →
      x'.wire.received c = x.wire.received c ∧ x'.taken c = x.taken c := by
    intro c hc
    rw [hreceived, htaken, Wire.overheard_eq_nil hc, endsWait_eq_nil hc]
    simp
  have hlate : ∀ {c}, x.wire.server.accepted ≤ c →
      x'.wire.received c = x.wire.received c ∧ x'.taken c = x.taken c := by
    intro c hc
    apply hquiet
    intro fd client _ hclient hstream
    have hlt := hnumbered.below hclient
    omega
  have hgrows : x.wire.server.accepted ≤ x'.wire.server.accepted := by
    cases hreads with
    | accept _ hserver =>
      rw [hserver]
      exact Nat.le_succ _
    | disconnect _ _ _ haccepted => exact Nat.le_of_eq haccepted.symm
    | heard hheard => exact Nat.le_of_eq hheard.accepted.symm
  -- a client that was there before, and on which the event does not wait
  have hold : ∀ {fd client}, x.wire.server.waits e ≠ some fd →
      x.wire.server.clients.lookup fd = some client →
        Accounted J x' client.stream client.readBuf := by
    intro fd client hwait hclient
    obtain ⟨hreceived, htaken⟩ := hquiet (c := client.stream) fun hx hother heq =>
      hwait (hnumbered.unique hother hclient heq ▸ hx)
    exact (h.accounted fd client hclient).same hreceived (by rw [hserved]) htaken
  constructor
  case fresh =>
    intro c hc
    rw [(hlate (hgrows.trans hc)).2]
    exact h.fresh c (hgrows.trans hc)
  case within => exact fun c => within_grows (h.within c) (hheard c) (hreceived c) hwritten
  case accounted =>
    intro fd client hclient
    cases hreads with
    | @accept y he hserver =>
      rw [hserver] at hclient
      have hlookup := Table.lookup_insert x.wire.server.clients y fd ⟨x.wire.server.accepted, []⟩
      have hclient := hlookup.symm.trans hclient
      split at hclient
      · cases hclient
        obtain ⟨hnone, hnone', _⟩ := hnumbered.fresh (Nat.le_refl x.wire.server.accepted)
        obtain ⟨hreceived, htaken⟩ := hlate (Nat.le_refl x.wire.server.accepted)
        exact .new (hreceived.trans hnone) (by rw [hserved, hnone'])
          (htaken.trans (h.fresh _ (Nat.le_refl _)))
      · apply hold _ hclient
        rw [he]
        simp [Server.waits]
    | disconnect he hclients _ _ =>
      rw [hclients] at hclient
      split at hclient
      · cases hclient
      · apply hold _ hclient
        rw [he]
        simp [Server.waits]
    | heard hheard =>
      rw [hheard.clients] at hclient
      obtain ⟨before, hbefore, rfl⟩ := Option.map_eq_some_iff.mp hclient
      split
      · rename_i hwait
        have hread := hreceived before.stream
        have hframe := htaken before.stream
        rw [Wire.overheard_eq hwait hbefore] at hread
        rw [endsWait_eq hwait hbefore] at hframe
        exact (h.accounted fd before hbefore).wait hread (by rw [hserved]) hframe
      · rename_i hwait
        exact hold hwait hbefore

private theorem reachable_kept (h : (system J).Reachable x) : Kept J x := by
  apply h.invariant_with fun _ h => Wire.reachable_numbered (reachable_wire h)
  · rintro _ ⟨listener, wakeup, now, rfl⟩
    exact ⟨fun _ _ => rfl, fun _ => List.prefix_refl _, fun _ _ h => by cases h⟩
  · intro x l x' hnumbered hkept _ hstep
    cases step_progress hstep with
    | still _ hclients haccepted hreceived hserved hwritten htaken =>
      exact hkept.still hclients haccepted hreceived hserved hwritten htaken
    | data hwire hconn hbytes hwritten htaken =>
      exact hkept.data hnumbered hwire hconn hbytes hwritten htaken
    | daemon hwire hheard hwritten htaken =>
      exact hkept.daemon hnumbered hwire hheard hwritten htaken

/-- The requests a client has written have all been handled, in order, exactly when none is left in
the buffer and the socket and none ended a wait. -/
theorem handled_iff (h : (system J).Reachable x) {fd : RawFd} {client : ClientState}
    (hclient : x.wire.server.clients.lookup fd = some client) :
    handled (x.wire.served client.stream) = requestsOf J (x.written client.stream) ↔
      requestsIn J (x.taken client.stream) = [] ∧
        requestsOf J (client.readBuf ++ x.unread client.stream) = [] := by
  have hkept := reachable_kept h
  obtain ⟨ms, hsplits, hsublist, hlength⟩ := hkept.accounted fd client hclient
  have hrequests : requestsOf J (x.written client.stream) =
      requestsIn J ms ++ requestsOf J (client.readBuf ++ x.unread client.stream) := by
    rw [written_eq (hkept.within _), requestsOf, hsplits, requestsIn_append, ← requestsOf]
  rw [hrequests]
  constructor
  · intro hall
    have hlengths := congrArg List.length hall
    rw [List.length_append, hlength] at hlengths
    constructor <;> apply List.eq_nil_of_length_eq_zero <;> omega
  · rintro ⟨htaken, hleft⟩
    rw [htaken, List.length_nil, Nat.add_zero] at hlength
    rw [hleft, List.append_nil]
    exact hsublist.eq_of_length hlength.symm

/-- An event of a client after which the client is gone has read nothing. -/
theorem gone_kept {fd : RawFd} {eof : Bool} {read : ClientRead} {envs : List Env}
    (hstep : step J x (.readable fd eof read envs) = some x')
    (hgone : x'.wire.server.connOf fd = none) :
    x'.wire.served = x.wire.served ∧ x'.written = x.written := by
  rw [step] at hstep
  split at hstep
  · obtain ⟨w, hw, rfl⟩ := Option.map_eq_some_iff.mp hstep
    have hlost : x.wire.step J (.daemon (.disconnect fd)) = some w → w.served = x.wire.served :=
      fun h => (Wire.step_daemon h).2.2
    cases eof with
    | true => exact ⟨hlost hw, rfl⟩
    | false =>
      cases read with
      | data bytes =>
        obtain ⟨before, log, sent, hread⟩ := Wire.readData_spec hw
        simp [Server.connOf, hread.clients] at hgone
      | closed => exact ⟨hlost hw, rfl⟩
      | wouldBlock =>
        cases hw
        exact ⟨rfl, rfl⟩
      | failed message => cases hw
  · cases hstep

/-- The step is the loop's own treatment of the event, by the order of its tests. -/
theorem step_dispatch {fd : RawFd} {client : ClientState} {eof : Bool} {ans : Answers}
    (hclient : x.wire.server.clients.lookup fd = some client)
    (hstep : step J x (.readable fd eof ans.clientRead ans.envs) = some x')
    (hlistener : fd ≠ x.wire.server.listener)
    (hpipe : (x.wire.server.wsWakeupPipe.any fun p => fd = p.1) = false) :
    x.wire.server.dispatch J ans ⟨fd, .read, eof⟩ = .ok x'.wire.server := by
  rw [step] at hstep
  split at hstep
  · obtain ⟨w, hw, rfl⟩ := Option.map_eq_some_iff.mp hstep
    apply ok_of_toOption
    rw [← Wire.clientEvent_eq_dispatch hclient hlistener hpipe eof, hw]
    rfl
  · cases hstep

/-- When a connection is given up, every request its client has written has been handled, in order,
if and only if none is left in the buffer and the socket, and no wait took one for the
acknowledgement it waited for. The step is what the loop makes of the event. -/
theorem requests_honoured_iff (h : (system J).Reachable x) {fd : RawFd} {client : ClientState}
    {eof : Bool} {read : ClientRead} {envs : List Env}
    (hclient : x.wire.server.clients.lookup fd = some client)
    (hstep : (system J).step x (.readable fd eof read envs) = some x')
    (hgone : x'.wire.server.connOf fd = none) :
    (handled (x'.wire.served client.stream) = requestsOf J (x'.written client.stream) ↔
      requestsIn J (x.taken client.stream) = [] ∧
        requestsOf J (client.readBuf ++ x.unread client.stream) = []) ∧
    ∀ ans : Answers, ans.clientRead = read → ans.envs = envs → fd ≠ x.wire.server.listener →
      (x.wire.server.wsWakeupPipe.any fun p => fd = p.1) = false →
      x.wire.server.dispatch J ans ⟨fd, .read, eof⟩ = .ok x'.wire.server := by
  constructor
  · obtain ⟨hserved, hwritten⟩ := gone_kept hstep hgone
    rw [hserved, hwritten]
    exact handled_iff h hclient
  · rintro ans rfl rfl hlistener hpipe
    exact step_dispatch hclient hstep hlistener hpipe

/-! ## Two farewells -/

/-- Messages that create session 7, attach it and detach it again. -/
private def farewell : Codec where
  request := fun json =>
    if json = [0] then .ok (.create none 80 24 none none none)
    else if json = [1] then .ok (.attach 7)
    else if json = [2] then .ok (.detach 7 80 24 (some "screen"))
    else .error "unknown"
  pushAck := fun _ => .error "unknown"
  base64 := fun _ => .error "unknown"

private def arrival : List UInt8 := encodeMessage [0] ++ encodeMessage [1]

/-- A client creates session 7 and attaches it, hands it back with a snapshot and closes. -/
private def leaves : List Label :=
  [.daemon (.accept 5), .write 0 arrival,
    .readable 5 false (.data arrival) [Server.calm, Server.calmLater],
    .write 0 (encodeMessage [2]), .close 0]

private theorem start_reachable (J : Codec) : (system J).Reachable (new 3 none 0) :=
  .start ⟨3, none, 0, rfl⟩

/-- The Detach is read before the event with `EV_EOF` is seen. -/
theorem requests_honoured_read :
    ∃ x x', (system farewell).Reachable x ∧
      (system farewell).step x (.readable 5 true .wouldBlock []) = some x' ∧
      x'.wire.server.connOf 5 = none ∧
      handled (x'.wire.served 0) = [.create none 80 24 none none none, .attach 7,
        .detach 7 80 24 (some "screen")] := by
  have hrun : (((system farewell).exec (new 3 none 0)
      (leaves ++ [.readable 5 false (.data (encodeMessage [2])) [Server.calmLater]])).bind fun x =>
        ((system farewell).step x (.readable 5 true .wouldBlock [])).map fun x' =>
          (x.wire.server.clients.lookup 5, x'.wire.server.connOf 5,
            decide (x.taken 0 = [] ∧ x.unread 0 = []), requestsOf farewell (x'.written 0))) =
      some (some ⟨0, []⟩, none, true, [.create none 80 24 none none none, .attach 7,
        .detach 7 80 24 (some "screen")]) := by decide +kernel
  obtain ⟨x, hexec, hfacts⟩ := Option.bind_eq_some_iff.mp hrun
  obtain ⟨x', hstep, hfacts⟩ := Option.map_eq_some_iff.mp hfacts
  simp only [Prod.mk.injEq, decide_eq_true_eq] at hfacts
  obtain ⟨hclient, hgone, ⟨htaken, hunread⟩, hwritten⟩ := hfacts
  have hreach := (start_reachable farewell).exec hexec
  refine ⟨x, x', hreach, hstep, hgone, ?_⟩
  rw [← hwritten]
  apply (requests_honoured_iff hreach hclient hstep hgone).1.mpr
  simp only [htaken, hunread]
  exact ⟨rfl, rfl⟩

/-- The event with `EV_EOF` comes while the Detach is unread: the connection is given up, and the
session is left without the snapshot. -/
theorem farewell_unread :
    ∃ x x', (system farewell).Reachable x ∧
      x.written 0 = arrival ++ encodeMessage [2] ∧
      (system farewell).step x (.readable 5 true .wouldBlock []) = some x' ∧
      x'.wire.server.connOf 5 = none ∧
      (x'.wire.server.sessions.lookup 7).map Session.gridSnapshot = some none ∧
      handled (x'.wire.served 0) ≠ requestsOf farewell (x'.written 0) := by
  have hrun : (((system farewell).exec (new 3 none 0) leaves).bind fun x =>
        ((system farewell).step x (.readable 5 true .wouldBlock [])).map fun x' =>
          (decide (x.written 0 = arrival ++ encodeMessage [2] ∧ x'.wire.server.connOf 5 = none ∧
            (x'.wire.server.sessions.lookup 7).map Session.gridSnapshot = some none),
            handled (x'.wire.served 0), requestsOf farewell (x'.written 0))) =
      some (true, [.create none 80 24 none none none, .attach 7],
        [.create none 80 24 none none none, .attach 7, .detach 7 80 24 (some "screen")]) := by
    decide +kernel
  obtain ⟨x, hexec, hfacts⟩ := Option.bind_eq_some_iff.mp hrun
  obtain ⟨x', hstep, hfacts⟩ := Option.map_eq_some_iff.mp hfacts
  simp only [Prod.mk.injEq, decide_eq_true_eq] at hfacts
  obtain ⟨⟨hwritten, hgone, hsession⟩, hhandled, hrequests⟩ := hfacts
  refine ⟨x, x', (start_reachable farewell).exec hexec, hwritten, hstep, hgone, hsession, ?_⟩
  rw [hhandled, hrequests]
  exact fun h => by cases h

end Sockets

end PtyDaemon
