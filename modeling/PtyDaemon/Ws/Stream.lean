import PtyDaemon.Ws.Follows
import PtyDaemon.Ws.Tasks

/-!
# The stream of a WebSocket client

The daemon dumps the ring when it handles the Attach; the task subscribes when it finds the reply.
Output read in between goes to the ring and to the subscribers there are, and so to nobody the
client gets it from.
-/

namespace PtyDaemon

open Server

namespace Server

variable {J : Codec} {env : Env} {σ σ' : Server}

private theorem handleDetach_ready (σ : Server) (id : Uuid) (cols rows : UInt16)
    (snapshot : Option GridSnapshot) : (σ.handleDetach id cols rows snapshot).2.ready = none := by
  unfold handleDetach
  split
  · rfl
  · dsimp only
    split <;> rfl

theorem handleWsDetach_ready (J : Codec) (env : Env) (σ : Server) (id : Uuid) :
    (σ.handleWsDetach J env id).2.ready = none := by
  have hforce : ∀ (τ : Server) (snapshot : Option GridSnapshot),
      (τ.forceCompleteTakeover id snapshot).2.ready = none := by
    intro τ snapshot
    unfold forceCompleteTakeover
    split <;> rfl
  have htakeover : ∀ τ : Server, (τ.handleBatonTakeover J env id).2.ready = none := by
    intro τ
    cases handleBatonTakeover_cases J env τ id with
    | unowned hnone h =>
      rw [h]
      apply handleDetach_ready
    | unreached hs hatt howner hnot h =>
      rw [h]
      apply hforce
    | unwritten hs hatt howner hclient hpush h =>
      rw [h]
      apply hforce
    | pushed hs hatt howner hclient hpush h =>
      rw [h]
      apply hforce
  have hrelease : ∀ τ : Server, (τ.handleBatonRelease env id).2.ready = none := by
    intro τ
    cases handleBatonRelease_cases env τ id with
    | kept hnone h =>
      rw [h]
      apply handleDetach_ready
    | gone hs hprevious hclient h =>
      rw [h]
      apply handleDetach_ready
    | unsent hs hprevious hclient hdup hpush h =>
      rw [h]
      apply handleDetach_ready
    | refused hs hprevious hclient hdup hpush hsent h =>
      rw [h]
      apply handleDetach_ready
    | returned hs hprevious hclient hdup hpush hsent h =>
      rw [h]
      rfl
  cases handleWsDetach_cases J env σ id with
  | missing hs h =>
    rw [h]
    apply handleDetach_ready
  | taken hs hatt hcool h =>
    rw [h]
    apply htakeover
  | cooling hs hatt hcool h =>
    rw [h]
    rfl
  | released hs hfree hprevious h =>
    rw [h]
    apply hrelease
  | detached hs hfree hprevious h =>
    rw [h]
    apply handleDetach_ready

/-- The bytes in an `AttachReady` are those of a dump of the ring, which is as it was. -/
theorem handleWsAttach_ready {id sid : Uuid} {history : List UInt8} {p : Server × Response}
    (h : σ.handleWsAttach J env id = .ok p) (hready : p.2.ready = some (sid, history)) :
    ∃ c bytes, p.1.coreOf sid = some c ∧ c.sharedRing.dump = some bytes ∧ history <:+ bytes := by
  cases handleWsAttach_cases h with
  | missing hs h =>
    rw [h] at hready
    cases hready
  | dead hs hdead h =>
    rw [h] at hready
    cases hready
  | @joined s ringData hs halive hdump h =>
    have hkept : ∀ (τ : Server), history <:+ ringData →
        ∃ c bytes, (τ.putSession id (s.wsJoined ringData)).coreOf id = some c ∧
          c.sharedRing.dump = some bytes ∧ history <:+ bytes := by
      intro τ hsuffix
      refine ⟨_, ringData, coreOf_eq_some (lookup_putSession_self τ id _), ?_, hsuffix⟩
      rw [s.wsJoined_core]
      exact hdump
    rw [h] at hready ⊢
    dsimp only at hready ⊢
    cases hempty : ringData.isEmpty with
    | true =>
      rw [hempty, if_pos rfl] at hready
      have hpair : id = sid ∧ [] = history := by
        unfold Response.ready at hready
        split at hready
        · rename_i hgrid
          simp only [Response.attachReady.injEq] at hgrid
          obtain ⟨_, _, _, _, _, hgrid⟩ := hgrid
          obtain ⟨g, _, hg⟩ := Option.map_eq_some_iff.mp hgrid
          cases hg
        · rename_i hsame
          cases hsame
          simpa using hready
        · cases hready
      obtain ⟨rfl, rfl⟩ := hpair
      exact hkept _ List.nil_suffix
    | false =>
      rw [hempty, if_neg Bool.false_ne_true] at hready
      cases hready
      exact hkept _ (List.suffix_refl _)

/-- Only an Attach is answered with `AttachReady`. -/
theorem handleWsCommand_ready {client reply : Nat} {request : Request} {response : Response}
    {sid : Uuid} {history : List UInt8}
    (h : σ.handleWsCommand J env (.request client request reply) = .ok σ')
    (hreply : WsWorld.lastReply σ' = some response)
    (hready : response.ready = some (sid, history)) :
    ∃ c bytes, σ'.coreOf sid = some c ∧ c.sharedRing.dump = some bytes ∧ history <:+ bytes := by
  obtain ⟨p, hp, rfl⟩ := ok_of_map h
  cases hreply
  cases request with
  | attach id => exact handleWsAttach_ready hp hready
  | detach id cols rows snapshot =>
    cases hp
    cases (handleWsDetach_ready J env σ id).symm.trans hready
  | _ =>
    have hattach : ∀ response : Response, response.ready = some (sid, history) →
        ∃ i cols rows pid shm snap, response = .attachReady i cols rows pid shm snap := by
      intro response hready
      cases response with
      | attachReady => exact ⟨_, _, _, _, _, _, rfl⟩
      | _ => cases hready
    obtain ⟨_, _, _, _, _, _, hp2⟩ := hattach _ hready
    obtain ⟨_, hrequest⟩ := handleRequest_attachReady hp hp2
    cases hrequest

end Server

namespace WsWorld

variable {J : Codec} {w w' : WsWorld} {c : Nat} {conn conn' : WsConnection}

/-- What holds of a connection and its stream. -/
structure ConnInv (w : WsWorld) (c : Nat) (conn : WsConnection) : Prop where
  answered : ∀ {request response n sid history}, conn.task = .answered request response n →
    response.ready = some (sid, history) →
      sid ∈ w.server.ids ∧ n ≤ (w.streams.out sid).length ∧ history <:+ (w.streams.out sid).take n
  attached : ∀ {rx}, conn.eventRx = some rx →
    ∃ st, conn.stream = some st ∧ conn.attachedSession = some st.sessionId
  follows : ∀ {st}, conn.stream = some st → st.sessionId ∈ w.server.ids ∧
    Follows w.shared (w.server.gone st.sessionId) (w.streams.out st.sessionId)
      (w.clientEnd st.sessionId) c st conn.eventRx

structure FeedInv (w : WsWorld) : Prop where
  table : w.shared.Wf
  conn : ∀ {c conn}, w.connections.lookup c = some conn → ConnInv w c conn

private theorem ConnInv.grow (h : ConnInv w c conn) (hids : w.server.ids ⊆ w'.server.ids)
    (hout : ∀ id, w.streams.out id <+: w'.streams.out id)
    (hfollows : ∀ {st eventRx}, st.sessionId ∈ w.server.ids →
      Follows w.shared (w.server.gone st.sessionId) (w.streams.out st.sessionId)
        (w.clientEnd st.sessionId) c st eventRx →
      Follows w'.shared (w'.server.gone st.sessionId) (w'.streams.out st.sessionId)
        (w'.clientEnd st.sessionId) c st eventRx) : ConnInv w' c conn where
  answered htask hready := by
    obtain ⟨hid, hn, hhistory⟩ := h.answered htask hready
    obtain ⟨more, hmore⟩ := hout _
    refine ⟨hids hid, ?_, ?_⟩
    · rw [← hmore, List.length_append]
      exact hn.trans (Nat.le_add_right _ _)
    · rw [← hmore, List.take_append_of_le_length hn]
      exact hhistory
  attached := h.attached
  follows hstream := by
    obtain ⟨hid, hst⟩ := h.follows hstream
    exact ⟨hids hid, hfollows hid hst⟩

private theorem ConnInv.reply (h : ConnInv w c conn)
    (hattached : conn'.attachedSession = conn.attachedSession)
    (hrx : conn'.eventRx = conn.eventRx) (hstream : conn'.stream = conn.stream)
    (hanswered : ∀ {request response n sid history}, conn'.task = .answered request response n →
      response.ready = some (sid, history) → sid ∈ w.server.ids ∧
        n ≤ (w.streams.out sid).length ∧ history <:+ (w.streams.out sid).take n) :
    ConnInv w c conn' where
  answered := hanswered
  attached := by
    rw [hattached, hrx, hstream]
    exact h.attached
  follows := by
    rw [hrx, hstream]
    exact h.follows

private theorem FeedInv.accept (h : FeedInv w) : FeedInv w.accept := by
  refine ⟨⟨h.table.made, h.table.session, h.table.nodup, h.table.sent⟩, fun {c conn} hconn => ?_⟩
  have hlookup : w.accept.connections.lookup c =
      if c = w.shared.nextClientId then some .new else w.connections.lookup c :=
    Table.lookup_insert w.connections w.shared.nextClientId c .new
  rw [hlookup] at hconn
  split at hconn
  · cases hconn
    exact ⟨fun h => (nomatch h), fun h => (nomatch h), fun h => (nomatch h)⟩
  · refine (h.conn hconn).grow (List.Subset.refl _) (fun _ => List.prefix_refl _) ?_
    intro st eventRx _ hst
    exact hst.retable (le_refl _) rfl hst.subscribed fun hsub _ => hsub

private theorem did_other {t t' : WsSharedState} {out : Uuid → Nat} {cmd : Option WsCommand}
    (hdid : conn.Did t c out t' conn' cmd) (ht : t.Wf) :
    t'.Wf ∧ ∀ {gone : Prop} {bytes : List UInt8} {clientEnd i st eventRx}, i ≠ c →
      Follows t gone bytes clientEnd i st eventRx →
        Follows t' gone bytes clientEnd i st eventRx := by
  cases hdid with
  | aside _ _ _ _ _ _ _ => exact ⟨ht, fun _ h => h⟩
  | leave _ _ _ _ _ =>
    cases conn.attachedSession with
    | none => exact ⟨ht, fun _ h => h⟩
    | some sid => exact ⟨ht.unsubscribe sid c, fun hi h => h.unsubscribe sid (.inr hi.symm)⟩
  | @subscribe _ _ _ _ sid _ _ _ _ _ _ _ =>
    exact ⟨ht.subscribe sid c, fun _ h => h.subscribe sid c⟩
  | deliver _ _ _ => exact ⟨ht, fun _ h => h⟩
  | @ended _ _ sid _ _ _ _ _ _ _ _ =>
    exact ⟨ht.unsubscribe sid c, fun hi h => h.unsubscribe sid (.inr hi.symm)⟩
  | report _ => exact ⟨ht, fun _ h => h⟩

private theorem ConnInv.did (h : ConnInv w c conn) (ht : w.shared.Wf) {t : WsSharedState}
    {cmd : Option WsCommand} {connections : Table Nat WsConnection} {queue : List WsCommand}
    (hdid : conn.Did w.shared c (fun id => (w.streams.out id).length) t conn' cmd) :
    ConnInv { w.withShared t with connections := connections, queue := queue } c conn' := by
  have hsame : ∀ {conn₁ : WsConnection}, conn₁.attachedSession = conn.attachedSession →
      conn₁.eventRx = conn.eventRx → conn₁.stream = conn.stream →
      (∀ request response n, conn₁.task ≠ .answered request response n) →
      ConnInv { w.withShared w.shared with connections := connections, queue := queue } c
        conn₁ := by
    intro conn₁ hattached hrx hstream hunanswered
    have hreply : ConnInv w c conn₁ :=
      h.reply hattached hrx hstream fun htask => absurd htask (hunanswered _ _ _)
    exact ⟨hreply.answered, hreply.attached, hreply.follows⟩
  cases hdid with
  | aside _ _ hunanswered hattached hrx hstream _ => exact hsame hattached hrx hstream hunanswered
  | leave _ hunanswered hattached hrx hstream =>
    refine ⟨fun htask => absurd htask (hunanswered _ _ _), fun hsome => ?_, fun hsome => ?_⟩
    · cases hrx.symm.trans hsome
    · cases hstream.symm.trans hsome
  | @subscribe _ request response n sid history htask hready htask' hattached hrx hstream =>
    obtain ⟨hid, hn, hhistory⟩ := h.answered htask hready
    refine ⟨fun hanswered => (nomatch htask'.symm.trans hanswered),
      fun _ => ⟨_, hstream, hattached⟩, ?_⟩
    intro st hst
    cases hstream.symm.trans hst
    rw [hrx]
    exact ⟨hid, .start ht c hn hhistory⟩
  | @deliver rx data htask hrx hevent =>
    obtain ⟨st, hstream, hattached⟩ := h.attached hrx
    obtain ⟨hid, hst⟩ := h.follows hstream
    have hnew : (conn.deliver rx data).stream =
        some { st with delivered := st.delivered ++ data } := by
      rw [WsConnection.deliver, hstream]
      rfl
    have hunanswered : ∀ request response n,
        (conn.deliver rx data).task ≠ .answered request response n := fun _ _ _ h =>
      nomatch htask.symm.trans h
    refine ⟨fun hanswered => absurd hanswered (hunanswered _ _ _),
      fun _ => ⟨_, hnew, hattached⟩, ?_⟩
    intro st' hst'
    cases hnew.symm.trans hst'
    rw [hrx] at hst
    exact ⟨hid, hst.deliver hevent⟩
  | @ended _ rx sid htask hrx hevent hsession htask' hattached' hrx' hstream' =>
    obtain ⟨st, hstream, hattached⟩ := h.attached hrx
    obtain ⟨hid, hst⟩ := h.follows hstream
    refine ⟨fun hanswered => (nomatch htask'.symm.trans hanswered),
      fun hsome => (nomatch hrx'.symm.trans hsome), ?_⟩
    intro st' hst'
    cases (hstream'.trans hstream).symm.trans hst'
    rw [hrx] at hst
    rw [hrx']
    have hfinish := hst.finish hevent
    exact ⟨hid, hfinish.unsubscribe sid (.inl (hfinish.done rfl).1)⟩
  | report htask =>
    exact hsame rfl rfl rfl fun _ _ _ h => nomatch h

private theorem FeedInv.task (h : FeedInv w) {t : WsSharedState} {cmd : Option WsCommand}
    (hconn : w.connections.lookup c = some conn)
    (hdid : conn.Did w.shared c (fun id => (w.streams.out id).length) t conn' cmd) :
    FeedInv { w.withShared t with
      connections := w.connections.insert c conn'
      queue := w.queue ++ cmd.toList } := by
  obtain ⟨ht, hother⟩ := did_other hdid h.table
  refine ⟨ht, ?_⟩
  intro i conn₁ hi
  rw [Table.lookup_insert] at hi
  split at hi
  · rename_i hc
    subst hc
    cases hi
    exact (h.conn hconn).did h.table hdid
  · rename_i hc
    refine (h.conn hi).grow (List.Subset.refl _) (fun _ => List.prefix_refl _) ?_
    exact fun _ hst => hother hc hst

private theorem FeedInv.told (h : FeedInv w) {σ' : Server} {ended : List Uuid}
    (htold : Told w.server σ' ended) (hids : w.server.ids ⊆ σ'.ids)
    (hgone : ∀ id ∈ w.server.ids, w.server.gone id → σ'.gone id)
    (hout : ∀ id, (w.streams.advance σ').out id = w.streams.out id) :
    FeedInv { w with streams := w.streams.advance σ' } := by
  have hshared : σ'.wsShared = ended.foldl WsSharedState.notifySessionEnded w.shared :=
    htold.shared
  refine ⟨?_, fun {c conn} hconn => (h.conn hconn).grow hids (fun _ => List.prefix_append _ _) ?_⟩
  · change σ'.wsShared.Wf
    rw [hshared]
    exact h.table.told ended
  · intro st eventRx hid hst
    change Follows σ'.wsShared (σ'.gone st.sessionId) ((w.streams.advance σ').out st.sessionId)
      (w.clientEnd st.sessionId) c st eventRx
    rw [hshared, hout]
    exact (hst.goes (hgone _ hid)).told ended h.table fun hmem => htold.gone _ hmem hid

private theorem FeedInv.read (h : FeedInv w) {σ' : Server} {id : Uuid} {bytes : List UInt8}
    (hread : Server.Read id bytes w.server σ') (hids : w.server.ids ⊆ σ'.ids)
    (hgone : ∀ id ∈ w.server.ids, w.server.gone id → σ'.gone id) :
    FeedInv { w with streams := w.streams.advance σ' } := by
  obtain ⟨_, _, hs, _⟩ := hread.spec
  have hlive : ¬ w.server.gone id := by
    rw [Server.gone, coreOf_eq_some hs]
    exact fun h => by cases h
  have hshared : σ'.wsShared = w.shared.broadcast id bytes := by
    cases hread
    rfl
  refine ⟨?_, fun {c conn} hconn => (h.conn hconn).grow hids (fun _ => List.prefix_append _ _) ?_⟩
  · change σ'.wsShared.Wf
    rw [hshared]
    exact h.table.broadcast id bytes
  · intro st eventRx hid hst
    change Follows σ'.wsShared (σ'.gone st.sessionId) ((w.streams.advance σ').out st.sessionId)
      (w.clientEnd st.sessionId) c st eventRx
    have hgrown : (w.streams.advance σ').out st.sessionId =
        if st.sessionId = id then w.streams.out st.sessionId ++ bytes
        else w.streams.out st.sessionId := by
      rw [Streams.read_out hread]
      split
      · rename_i hi
        rw [hi]
      · rfl
    rw [hshared, hgrown]
    refine (hst.broadcast h.table bytes ?_).goes (hgone _ hid)
    rintro rfl
    exact hlive

private theorem FeedInv.event (h : FeedInv w) (hring : Streams.RingInv w.streams) {e : Event}
    {σ' : Server} (harrive : w.server.arrive e = w.server)
    (hevent : w.server.event J e = .ok σ') :
    FeedInv { w with streams := w.streams.advance σ' } := by
  obtain ⟨hids, hgone⟩ := event_gone hring.server hevent
  rcases event_shared hring.server hevent with
    ⟨⟨ended, htold⟩, acts, hacts, hquiet⟩ | ⟨id, bytes, _, hread⟩
  · rw [harrive] at htold
    exact h.told htold hids hgone (Streams.advance_quiet hacts hquiet)
  · exact h.read hread hids hgone

private theorem FeedInv.replied (h : FeedInv w) {cmd : WsCommand} {queue : List WsCommand}
    (hring : Streams.RingInv w.streams)
    (hready : ∀ client request reply response sid history, cmd = .request client request reply →
      lastReply w.server = some response → response.ready = some (sid, history) →
        ∃ c bytes, w.server.coreOf sid = some c ∧ c.sharedRing.dump = some bytes ∧
          history <:+ bytes) :
    FeedInv { w with connections := replyTo w.connections w.streams cmd, queue := queue } := by
  refine ⟨h.table, fun {c conn'} hconn' => ?_⟩
  obtain ⟨conn, hconn, hattached, hrx, hstream, htask⟩ := lookup_replyTo hconn'
  have hinv := h.conn hconn
  have hreply : ConnInv w c conn' := by
    refine hinv.reply hattached hrx hstream ?_
    intro request response n sid history hanswered hsid
    rcases htask with htask | ⟨client, request', waiting, response', hcmd, hlast, _, htask⟩
    · exact hinv.answered (htask.symm.trans hanswered) hsid
    · cases htask.symm.trans hanswered
      obtain ⟨c', bytes, hc', hdump, hsuffix⟩ :=
        hready client request' c response sid history hcmd hlast hsid
      have hknown := (hring.server.session hc').known
      rw [hsid]
      refine ⟨hknown, le_refl _, ?_⟩
      change history <:+ (w.streams.out sid).take (w.streams.out sid).length
      rw [List.take_length]
      exact hsuffix.trans ((hring.ring hc').1.dump_suffix hdump)
  exact ⟨hreply.answered, hreply.attached, hreply.follows⟩

private theorem FeedInv.clientRead (h : FeedInv w) {id : Uuid} {s : Session} {data : List UInt8}
    (hs : w.server.sessions.lookup id = some s) :
    FeedInv { w with
      streams := w.streams.clientRead id s data
      clientEnd := fun i =>
        if i = id ∧ data ≠ [] then ((w.streams.clientRead id s data).out i).length
        else w.clientEnd i } := by
  have hout : ∀ i, (w.streams.clientRead id s data).out i =
      if i = id then w.streams.out i ++ data else w.streams.out i := fun _ => rfl
  have hgone : ∀ i, w.server.gone i → (w.streams.clientRead id s data).server.gone i := by
    intro i hi
    have hcore := coreOf_putSession w.server id { s with sharedRing := s.sharedRing.write data } i
    apply hcore.trans
    split
    · rename_i he
      rw [he, Server.gone, coreOf_eq_some hs] at hi
      cases hi
    · exact hi
  refine ⟨h.table, fun {c conn} hconn => (h.conn hconn).grow (List.Subset.refl _) (fun i => ?_) ?_⟩
  · change w.streams.out i <+: (w.streams.clientRead id s data).out i
    rw [hout]
    split
    · exact List.prefix_append _ _
    · exact List.prefix_refl _
  · intro st eventRx _ hst
    have hst := hst.goes (hgone _)
    change Follows w.shared _ ((w.streams.clientRead id s data).out st.sessionId)
      (if st.sessionId = id ∧ data ≠ [] then
        ((w.streams.clientRead id s data).out st.sessionId).length
      else w.clientEnd st.sessionId) c st eventRx
    rw [hout]
    by_cases hid : st.sessionId = id
    · simp only [hid, true_and]
      rw [hid] at hst
      exact hst.clientRead data
    · rw [if_neg hid, if_neg fun hboth => hid hboth.1]
      exact hst

theorem reachable_feed (h : (system J).Reachable w) : FeedInv w := by
  refine h.invariant_with (fun _ => reachable_ring) ?_ ?_
  · rintro _ ⟨listener, wakeup, now, rfl⟩
    exact ⟨WsSharedState.new_wf, fun h => (nomatch h)⟩
  · intro w l w' hring hinv _ hstep
    cases step_stepped hstep with
    | accept => exact hinv.accept
    | task hconn hdid => exact hinv.task hconn hdid
    | @drain cmd queue env σ' hqueue hevent =>
      have hafter := hinv.event hring rfl hevent
      refine hafter.replied (hring.event hevent) ?_
      intro client request reply response sid history hcmd hlast hsid
      subst hcmd
      have hevent := Server.event_command hevent
      exact handleWsCommand_ready hevent hlast hsid
    | daemon harrive hevent => exact hinv.event hring harrive hevent
    | clientRead hs => exact hinv.clientRead hs

end WsWorld

/-- Nothing waits in the client's channel. -/
def WsConnection.drained (conn : WsConnection) (t : WsSharedState) : Prop :=
  ∀ rx ∈ conn.eventRx, (t.eventsOf rx.tx).length ≤ rx.read

instance (conn : WsConnection) (t : WsSharedState) : Decidable (conn.drained t) :=
  inferInstanceAs (Decidable (∀ rx ∈ conn.eventRx, _))

namespace WsWorld

variable {J : Codec} {w w' : WsWorld} {c : Nat} {conn conn' : WsConnection}

/-- When its channel is drained, and no local client has read from the session since, what a client
has got is the ring and all the output after it, without a gap, just when nothing was read between
the dump of the ring and the subscription. -/
theorem gap_free_iff (h : (system J).Reachable w) {st : WsStream}
    (hconn : w.connections.lookup c = some conn) (hstream : conn.stream = some st)
    (hdrained : conn.drained w.shared) (hlocal : w.clientEnd st.sessionId ≤ st.dumpedAt) :
    (st.history ++ st.delivered <:+ w.streams.out st.sessionId ∧
        st.delivered = (w.streams.out st.sessionId).drop st.dumpedAt) ↔
      st.subscribedAt = st.dumpedAt := by
  obtain ⟨_, hst⟩ := ((reachable_feed h).conn hconn).follows hstream
  have hall : st.delivered = outputs (w.shared.eventsOf st.tx) := by
    cases hrx : conn.eventRx with
    | none => exact (hst.done hrx).2
    | some rx =>
      obtain ⟨htx, _, hdelivered⟩ := hst.receiving hrx
      have hread := hdrained rx hrx
      rw [htx] at hread
      rw [hdelivered, List.take_of_length_le hread]
  rw [hst.sent (hlocal.trans hst.dumped)] at hall
  have hdumped := hst.dumped
  have hbound := hst.bound
  constructor
  · rintro ⟨_, hfrom⟩
    have hlength := congrArg List.length (hall.symm.trans hfrom)
    rw [List.length_drop, List.length_drop] at hlength
    omega
  · intro hsame
    rw [hsame] at hall
    refine ⟨?_, hall⟩
    obtain ⟨before, hbefore⟩ := hst.history
    refine ⟨before, ?_⟩
    rw [hall, ← List.append_assoc, hbefore, List.take_append_drop]

/-- Session 7 is created, and the daemon handles an Attach of WebSocket client 1. -/
private def attachRun (before : List UInt8) : List Label :=
  [.daemon (.accept 5),
    .daemon (.request 5 (.ok (.create none 80 24 none none none)) 0 calm),
    .daemon (.output 10 (.data before) calm),
    .accept,
    .task 1 (.text (.ok (.attach 7))),
    .task 1 .forward,
    .drain calmLater]

/-- The stream of connection 1, and whether its channel is drained. -/
private def client (w : WsWorld) : Option (Option WsStream × Bool) :=
  (w.connections.lookup 1).map fun conn => (conn.stream, decide (conn.drained w.shared))

private theorem client_spec {st : WsStream} (h : client w = some (some st, true)) :
    ∃ conn, w.connections.lookup 1 = some conn ∧ conn.stream = some st ∧
      conn.drained w.shared := by
  obtain ⟨conn, hconn, hpair⟩ := Option.map_eq_some_iff.mp h
  obtain ⟨hstream, hdrained⟩ := Prod.mk.inj hpair
  exact ⟨conn, hconn, hstream, of_decide_eq_true hdrained⟩

/-- Output before the Attach and after the subscription. -/
theorem gap_free_quiet :
    ∃ w conn, (system silent).Reachable w ∧ w.connections.lookup 1 = some conn ∧
      conn.stream = some ⟨7, 0, [64], [65], 1, 1⟩ ∧ [64, 65] <:+ w.streams.out 7 := by
  have hrun : ((system silent).exec (new 3 none 0) (attachRun [64] ++
      [.task 1 .finish, .daemon (.output 10 (.data [65]) calm), .task 1 (.recv true)])).map
      (fun w => (client w, w.clientEnd 7)) =
      some (some (some ⟨7, 0, [64], [65], 1, 1⟩, true), 0) := by decide +kernel
  obtain ⟨w, hexec, hpair⟩ := Option.map_eq_some_iff.mp hrun
  obtain ⟨hclient, hlocal⟩ := Prod.mk.inj hpair
  obtain ⟨conn, hconn, hstream, hdrained⟩ := client_spec hclient
  have hstart : (system silent).Reachable (new 3 none 0) := .start ⟨3, none, 0, rfl⟩
  have hreach := hstart.exec hexec
  have hgap := (gap_free_iff hreach hconn hstream hdrained
    (by rw [hlocal]; exact Nat.zero_le _)).mpr rfl
  exact ⟨w, conn, hreach, hconn, hstream, hgap.1⟩

/-- Output read after the dump and before the subscription reaches the client in no way. -/
theorem gap_after_dump :
    ¬ ∀ (J : Codec) (w : WsWorld) (c : Nat) (conn : WsConnection) (st : WsStream),
      (system J).Reachable w → w.connections.lookup c = some conn → conn.stream = some st →
      conn.drained w.shared → w.clientEnd st.sessionId ≤ st.dumpedAt →
      st.history ++ st.delivered <:+ w.streams.out st.sessionId ∧
        st.delivered = (w.streams.out st.sessionId).drop st.dumpedAt := by
  intro h
  have hrun : ((system silent).exec (new 3 none 0) (attachRun [64] ++
      [.daemon (.output 10 (.data [65]) calm), .task 1 .finish])).map
      (fun w => (client w, w.clientEnd 7, w.streams.out 7)) =
      some (some (some ⟨7, 0, [64], [], 1, 2⟩, true), 0, [64, 65]) := by decide +kernel
  obtain ⟨w, hexec, hall⟩ := Option.map_eq_some_iff.mp hrun
  simp only [Prod.mk.injEq] at hall
  obtain ⟨hclient, hlocal, hout⟩ := hall
  obtain ⟨conn, hconn, hstream, hdrained⟩ := client_spec hclient
  have hstart : (system silent).Reachable (new 3 none 0) := .start ⟨3, none, 0, rfl⟩
  obtain ⟨_, hfrom⟩ := h silent w 1 conn _ (hstart.exec hexec) hconn hstream hdrained
    (by rw [hlocal]; exact Nat.zero_le _)
  rw [hout] at hfrom
  cases hfrom

end WsWorld

end PtyDaemon
