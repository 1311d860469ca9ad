import PtyDaemon.Server.Lives

/-!
# The names of the rings

A ring is a shared-memory object, found by name by whoever attaches. The name is made of eight of
the thirty-two digits of the session's id. Creating a ring unlinks its name first, whatever it
names, and ending a session unlinks its name again.
-/

namespace PtyDaemon

/-- The names of the shared-memory objects, the objects made so far, and the object the daemon has
mapped for each session it has created. -/
structure ShmSpace where
  names : Table String Nat
  objects : Nat
  mapped : Table Uuid Nat

namespace ShmSpace

def unlink (m : ShmSpace) (shmName : String) : ShmSpace :=
  { m with names := m.names.erase shmName }

/-- `shm_open` with `O_CREAT` and `O_EXCL`, and `mmap`. -/
def openNew (m : ShmSpace) (shmName : String) (id : Uuid) : Option ShmSpace :=
  match m.names.lookup shmName with
  | some _ => none
  | none =>
    some { m with
      names := m.names.insert shmName m.objects
      objects := m.objects + 1
      mapped := m.mapped.insert id m.objects }

/-- `SharedRingBuffer::create` for a new session. -/
def create (m : ShmSpace) (id : Uuid) : ShmSpace :=
  let m := m.unlink (shmNameForSession id)
  (m.openNew (shmNameForSession id) id).getD m

def call (m : ShmSpace) : ShmCall → ShmSpace
  | .create id => m.create id
  | .unlink shmName => m.unlink shmName

/-- After unlinking, the exclusive creation finds the name free. -/
theorem create_eq (m : ShmSpace) (id : Uuid) : m.create id =
    { names := (m.names.erase (shmNameForSession id)).insert (shmNameForSession id) m.objects
      objects := m.objects + 1
      mapped := m.mapped.insert id m.objects } := by
  have hfree : (m.unlink (shmNameForSession id)).names.lookup (shmNameForSession id) = none := by
    rw [unlink, Table.lookup_erase, if_pos rfl]
  simp only [create, openNew, hfree, Option.getD_some]
  rfl

private theorem lookup_create_names (m : ShmSpace) (id : Uuid) (shmName : String) :
    (m.create id).names.lookup shmName =
      if shmName = shmNameForSession id then some m.objects else m.names.lookup shmName := by
  rw [create_eq, Table.lookup_insert, Table.lookup_erase]
  split <;> rfl

private theorem lookup_create_mapped (m : ShmSpace) (id i : Uuid) :
    (m.create id).mapped.lookup i = if i = id then some m.objects else m.mapped.lookup i := by
  rw [create_eq, Table.lookup_insert]

private theorem lookup_unlink_names (m : ShmSpace) (shmName name : String) :
    (m.unlink shmName).names.lookup name =
      if name = shmName then none else m.names.lookup name :=
  Table.lookup_erase m.names shmName name

end ShmSpace

namespace Server

variable {J : Codec} {σ σ' : Server} {id : Uuid} {s : Session} {m : Occurrence}

/-- The shared-memory objects after all calls so far. -/
def shmSpace (σ : Server) : ShmSpace :=
  σ.shmCalls.foldr (fun call space => space.call call) ⟨∅, 0, ∅⟩

/-- Opening the name of a session gives the object the daemon has mapped for it. -/
def NamesDenote (σ : Server) : Prop :=
  ∀ id s, σ.sessions.lookup id = some s →
    ∃ object, σ.shmSpace.mapped.lookup id = some object ∧
      σ.shmSpace.names.lookup s.shmName = some object

/-- The sessions that stay find the same objects under their names. -/
def NamesStay (σ σ' : Server) : Prop :=
  ∀ id s s', σ.sessions.lookup id = some s → σ'.sessions.lookup id = some s' →
    s'.shmName = s.shmName ∧
      σ'.shmSpace.names.lookup s'.shmName = σ.shmSpace.names.lookup s.shmName

/-- A new session has a name no live session has. -/
def keepsNames (σ : Server) (m : Occurrence) : Bool :=
  m.created.all fun id => σ.sessions.values.all fun s => s.shmName ≠ shmNameForSession id

/-- The live sessions have their own names, and under them their objects. -/
structure Named (σ : Server) : Prop where
  name : ∀ {id f}, σ.viewOf Session.fixture id = some f → f.shmName = shmNameForSession id
  apart : ∀ {i j f g}, σ.viewOf Session.fixture i = some f → σ.viewOf Session.fixture j = some g →
    f.shmName = g.shmName → i = j
  denote : ∀ {id f}, σ.viewOf Session.fixture id = some f →
    ∃ object, σ.shmSpace.mapped.lookup id = some object ∧
      σ.shmSpace.names.lookup f.shmName = some object

/-- What a creation has to avoid. -/
def Unnamed (view : Uuid → Option Fixture) (id : Uuid) : Prop :=
  ∀ i f, view i = some f → f.shmName ≠ shmNameForSession id

private theorem Named.namesDenote (h : Named σ) : NamesDenote σ := fun _ _ hs =>
  h.denote (viewOf_eq_some Session.fixture hs)

section

variable {A : Allowed}

private theorem shmSpace_of_calls (h : σ'.shmCalls = σ.shmCalls) : σ'.shmSpace = σ.shmSpace := by
  rw [shmSpace, h, shmSpace]

private theorem shmSpace_of_call {call : ShmCall} (h : σ'.shmCalls = call :: σ.shmCalls) :
    σ'.shmSpace = σ.shmSpace.call call := by
  rw [shmSpace, h, List.foldr_cons, shmSpace]

private theorem Named.same (h : Named σ)
    (hview : σ'.viewOf Session.fixture = σ.viewOf Session.fixture)
    (hshm : σ'.shmCalls = σ.shmCalls) : Named σ' := by
  constructor
  · intro id f hf
    rw [hview] at hf
    exact h.name hf
  · intro i j f g hf hg
    rw [hview] at hf hg
    exact h.apart hf hg
  · intro id f hf
    rw [hview] at hf
    rw [shmSpace_of_calls hshm]
    exact h.denote hf

/-- A session is given another fixture with the same name. -/
theorem Named.update (h : Named σ) {f g : Fixture} (hf : σ.viewOf Session.fixture id = some f)
    (hview : ∀ i, σ'.viewOf Session.fixture i =
      if i = id then some g else σ.viewOf Session.fixture i)
    (hname : g.shmName = f.shmName) (hshm : σ'.shmCalls = σ.shmCalls) : Named σ' := by
  -- whatever is there now has the name of what was there before
  have hold : ∀ {i k}, σ'.viewOf Session.fixture i = some k →
      ∃ k', σ.viewOf Session.fixture i = some k' ∧ k.shmName = k'.shmName := by
    intro i k hk
    rcases changed_cases hview hk with ⟨rfl, hk⟩ | ⟨_, hk⟩
    · cases hk
      exact ⟨f, hf, hname⟩
    · exact ⟨k, hk, rfl⟩
  constructor
  · intro i k hk
    obtain ⟨k', hk', hsame⟩ := hold hk
    exact hsame.trans (h.name hk')
  · intro i j k l hk hl heq
    obtain ⟨k', hk', hsame⟩ := hold hk
    obtain ⟨l', hl', hsame'⟩ := hold hl
    apply h.apart hk' hl'
    rw [← hsame, heq, hsame']
  · intro i k hk
    obtain ⟨k', hk', hsame⟩ := hold hk
    rw [shmSpace_of_calls hshm, hsame]
    exact h.denote hk'

private theorem Named.created (h : Named σ) {f : Fixture}
    (hfree : Unnamed (σ.viewOf Session.fixture) id)
    (hname : f.shmName = shmNameForSession id)
    (hview : ∀ i, σ'.viewOf Session.fixture i =
      if i = id then some f else σ.viewOf Session.fixture i)
    (hshm : σ'.shmCalls = .create id :: σ.shmCalls) : Named σ' := by
  have hspace : σ'.shmSpace = σ.shmSpace.create id := shmSpace_of_call hshm
  have hcases : ∀ {i k}, σ'.viewOf Session.fixture i = some k →
      (i = id ∧ k = f) ∨ i ≠ id ∧ σ.viewOf Session.fixture i = some k := by
    intro i k hk
    rcases changed_cases hview hk with ⟨hi, hk⟩ | ⟨hi, hk⟩
    · exact .inl ⟨hi, (Option.some.inj hk).symm⟩
    · exact .inr ⟨hi, hk⟩
  constructor
  · intro i k hk
    rcases hcases hk with ⟨rfl, rfl⟩ | ⟨_, hk⟩
    · exact hname
    · exact h.name hk
  · intro i j k l hk hl heq
    rcases hcases hk with ⟨rfl, rfl⟩ | ⟨_, hk⟩
    · rcases hcases hl with ⟨rfl, _⟩ | ⟨_, hl⟩
      · rfl
      · exact absurd (heq.symm.trans hname) (hfree _ _ hl)
    · rcases hcases hl with ⟨rfl, rfl⟩ | ⟨_, hl⟩
      · exact absurd (heq.trans hname) (hfree _ _ hk)
      · exact h.apart hk hl heq
  · intro i k hk
    rw [hspace, ShmSpace.lookup_create_mapped, ShmSpace.lookup_create_names]
    rcases hcases hk with ⟨rfl, rfl⟩ | ⟨hi, hk⟩
    · exact ⟨_, if_pos rfl, if_pos hname⟩
    · obtain ⟨object, hmapped, hnamed⟩ := h.denote hk
      exact ⟨object, (if_neg hi).trans hmapped, (if_neg (hfree _ _ hk)).trans hnamed⟩

private theorem Named.ended (h : Named σ) {f : Fixture} (hf : σ.viewOf Session.fixture id = some f)
    (hview : ∀ i, σ'.viewOf Session.fixture i =
      if i = id then none else σ.viewOf Session.fixture i)
    (hshm : σ'.shmCalls = .unlink f.shmName :: σ.shmCalls) : Named σ' := by
  have hspace : σ'.shmSpace = σ.shmSpace.unlink f.shmName := shmSpace_of_call hshm
  have hcases : ∀ {i k}, σ'.viewOf Session.fixture i = some k →
      i ≠ id ∧ σ.viewOf Session.fixture i = some k := by
    intro i k hk
    rcases changed_cases hview hk with ⟨_, hk⟩ | ⟨hi, hk⟩
    · cases hk
    · exact ⟨hi, hk⟩
  constructor
  · intro i k hk
    exact h.name (hcases hk).2
  · intro i j k l hk hl heq
    exact h.apart (hcases hk).2 (hcases hl).2 heq
  · intro i k hk
    obtain ⟨hi, hk⟩ := hcases hk
    obtain ⟨object, hmapped, hnamed⟩ := h.denote hk
    have hother : k.shmName ≠ f.shmName := fun heq => hi (h.apart hk hf heq)
    rw [hspace, ShmSpace.lookup_unlink_names, if_neg hother]
    exact ⟨object, hmapped, hnamed⟩

private theorem Change.named (hC : ∀ view id, A.creates view id → Unnamed view id)
    (h : Change A σ σ')
    (hnamed : Named σ) : Named σ' := by
  cases h with
  | stays h => exact hnamed.same h.fixtures h.shm
  | created hcreated hnone hid hpos hname hsize hview hshm hbaton =>
    exact hnamed.created (hC _ _ hcreated) hname hview hshm
  | ended hf hview hshm hbaton => exact hnamed.ended hf hview hshm
  | sized w hf hS hview hshm hbaton => exact hnamed.update hf hview rfl hshm
  | resized w hf hview hshm hbaton => exact hnamed.update hf hview rfl hshm
  | taken note hnote hf hT hview hshm hbaton => exact hnamed.same hview hshm
  | ticked hview hshm hbaton => exact hnamed.same hview hshm
  | returned t hf hR hview hshm hbaton => exact hnamed.update hf hview rfl hshm

/-- Only a creation gives the daemon another object for a session. -/
theorem Change.mapped (hC : ∀ view, ¬ A.creates view id) (h : Change A σ σ') :
    σ'.shmSpace.mapped.lookup id = σ.shmSpace.mapped.lookup id := by
  cases h with
  | stays h => rw [shmSpace_of_calls h.shm]
  | @created i f hcreated hnone hid hpos hname hsize hview hshm hbaton =>
    have hne : id ≠ i := fun heq => hC _ (heq ▸ hcreated)
    rw [shmSpace_of_call hshm, ShmSpace.call, ShmSpace.lookup_create_mapped, if_neg hne]
  | ended hf hview hshm hbaton =>
    rw [shmSpace_of_call hshm]
    rfl
  | sized w hf hS hview hshm hbaton => rw [shmSpace_of_calls hshm]
  | resized w hf hview hshm hbaton => rw [shmSpace_of_calls hshm]
  | taken note hnote hf hT hview hshm hbaton => rw [shmSpace_of_calls hshm]
  | ticked hview hshm hbaton => rw [shmSpace_of_calls hshm]
  | returned t hf hR hview hshm hbaton => rw [shmSpace_of_calls hshm]

end

private theorem occurLive_created_fresh (h : σ.occurLive J m = some σ')
    (hcreated : m.created = some id) :
    σ.sessions.lookup id = none := by
  obtain ⟨e, env, _, _, _, _, _, _, fd, pid, ptsname, rfl, hrequest, hpty, rfl⟩ :=
    created_cases hcreated
  have hevent : σ.eventLive J e = .ok σ' := ok_of_toOption h
  have hadmits : σ.admitsLive env = true := by
    rcases Event.request?_cases hrequest with ⟨shared, c, reply, rfl⟩ | ⟨fd, consumed, rfl⟩
    · simp only [eventLive] at hevent
      split at hevent
      · assumption
      · cases hevent
    · simp only [eventLive, Bool.and_eq_true] at hevent
      split at hevent
      · rename_i hadmits
        exact hadmits.2
      · cases hevent
  exact (admitsLive_fresh hadmits fd pid ptsname hpty).2

private theorem occurLive_named (hkeyed : Keyed σ) (hkeeps : σ.keepsNames m = true)
    (h : σ.occurLive J m = some σ') (hnamed : Named σ) : Named σ' := by
  have hchanges : Changes { creates := Unnamed } σ σ' := by
    apply occurLive_changes hkeyed _ h
    refine ⟨?_, fun _ _ _ _ _ => trivial, fun _ _ _ _ _ => trivial, fun _ _ => trivial,
      fun _ _ _ => trivial⟩
    intro id hid i f hf
    obtain ⟨s, hs, rfl⟩ := Option.map_eq_some_iff.mp hf
    have hall : ∀ s ∈ σ.sessions.values, s.shmName ≠ shmNameForSession id := by
      simpa [keepsNames, hid] using hkeeps
    exact hall s (Table.mem_values.mpr ⟨i, hs⟩)
  clear h hkeeps
  induction hchanges with
  | refl => exact hnamed
  | tail _ hchange ih => exact hchange.1.named (fun _ _ hC => hC) ih

/-- What is mapped for the sessions there are stays mapped for them. -/
theorem occurLive_mapped (hkeyed : Keyed σ) (h : σ.occurLive J m = some σ')
    (hs : σ.sessions.lookup id = some s) :
    σ'.shmSpace.mapped.lookup id = σ.shmSpace.mapped.lookup id := by
  have hchanges : Changes { creates := fun _ i => m.created = some i } σ σ' := by
    apply occurLive_changes hkeyed _ h
    exact ⟨fun _ hi => hi, fun _ _ _ _ _ => trivial, fun _ _ _ _ _ => trivial,
      fun _ _ => trivial, fun _ _ _ => trivial⟩
  have hother : ¬ m.created = some id := by
    intro hcreated
    have hnone := occurLive_created_fresh h hcreated
    rw [hs] at hnone
    cases hnone
  clear h
  induction hchanges with
  | refl => rfl
  | tail _ hchange ih => exact (hchange.1.mapped fun _ => hother).trans ih

/-- Whatever is created, killed or ends: as long as no session is created under a name that a live
one has, the name of every live session denotes the ring the daemon uses for it, and no step that
keeps to this takes or replaces what the name of a session denotes that stays. Whatever the loop
reaches is reached in these runs. -/
theorem names_denote (J : Codec) :
    (∀ σ, (loop J).Reachable σ → (lives J).Reachable σ) ∧
    ∀ σ, (lives J).Reach (fun σ m => σ.keepsNames m = true) σ →
      NamesDenote σ ∧
      ∀ m σ', σ.keepsNames m = true → σ.occurLive J m = some σ' → NamesStay σ σ' := by
  refine ⟨fun σ h => loop_lives h, fun σ h => ?_⟩
  have hnamed : Named σ := by
    apply h.invariant_with fun σ hreach => lives_keyed hreach
    · rintro _ ⟨listener, wakeup, now, rfl⟩
      constructor
      · intro id f hf
        cases hf
      · intro i j f g hf hg
        cases hf
      · intro id f hf
        cases hf
    · intro σ m σ' hkeyed hnamed hkeeps hstep
      exact occurLive_named hkeyed hkeeps hstep hnamed
  apply And.intro hnamed.namesDenote
  intro m σ' hkeeps hstep id s s' hs hs'
  have hkeyed := lives_keyed h
  have hnamed' := occurLive_named hkeyed hkeeps hstep hnamed
  have hname : s'.shmName = s.shmName :=
    (hnamed'.name (viewOf_eq_some Session.fixture hs')).trans
      (hnamed.name (viewOf_eq_some Session.fixture hs)).symm
  obtain ⟨object, hmapped, hold⟩ := hnamed.namesDenote id s hs
  obtain ⟨object', hmapped', hnew⟩ := hnamed'.namesDenote id s' hs'
  rw [occurLive_mapped hkeyed hstep hs, hmapped] at hmapped'
  cases hmapped'
  exact ⟨hname, hnew.trans hold.symm⟩

/-- Answers for the creation of another session. -/
private def another (fd : RawFd) (uuid : Uuid) : Env :=
  { calm with
    dup := none
    createPty := .ok (fd, 101, "pts")
    uuid := uuid }

/-- Two sessions whose ids differ in the first eight digits; one is killed. -/
theorem names_denote_apart :
    ∃ σ s, (lives silent).Reach (fun σ m => σ.keepsNames m = true) σ ∧ NamesDenote σ ∧
      σ.sessions.lookup (2 ^ 100) = some s ∧ s.shmName = "/ptyd-00000010" := by
  have hrun : (((lives silent).execWhere (fun σ m => σ.keepsNames m = true) (Server.new 3 none 0)
      [.event (.accept 5),
        .event (.request 5 (.ok (.create none 80 24 none none none)) 0 (another 10 7)),
        .event (.request 5 (.ok (.create none 80 24 none none none)) 0 (another 12 (2 ^ 100))),
        .event (.request 5 (.ok (.kill 7)) 0 calmLater)]).bind fun σ =>
      (σ.sessions.lookup (2 ^ 100)).map Session.shmName) = some "/ptyd-00000010" := by
    decide +kernel
  obtain ⟨σ, hexec, hlookup⟩ := Option.bind_eq_some_iff.mp hrun
  obtain ⟨s, hs, hname⟩ := Option.map_eq_some_iff.mp hlookup
  have hstart : (lives silent).Reach (fun σ m => σ.keepsNames m = true) (Server.new 3 none 0) :=
    .start ⟨3, none, 0, rfl⟩
  have hreach := hstart.execWhere hexec
  exact ⟨σ, s, hreach, ((names_denote silent).2 σ hreach).1, hs, hname⟩

/-- Messages that create a session. -/
private def createCodec : Codec where
  request := fun json =>
    if json = [0] then .ok (.create none 80 24 none none none) else .error "unknown"
  pushAck := fun _ => .error "unknown"
  base64 := fun _ => .error "unknown"

/-- Sessions 7 and 8 live together; the name of session 7 denotes the ring of session 8. -/
theorem names_collide :
    ∃ σ s t, (loop createCodec).Reachable σ ∧ ¬ NamesDenote σ ∧ σ.sessions.lookup 7 = some s ∧
      σ.sessions.lookup 8 = some t ∧ σ.shmSpace.mapped.lookup 7 = some 0 ∧
      σ.shmSpace.mapped.lookup 8 = some 1 ∧ σ.shmSpace.names.lookup s.shmName = some 1 := by
  have hrun : (((loop createCodec).exec (Server.new 3 none 0)
      [readable 3 [.stream 5] [] [],
        readable 5 [] (encodeMessage [0] ++ encodeMessage [0])
          [another 10 7, another 11 8]]).bind fun σ =>
      (σ.sessions.lookup 7).bind fun s => (σ.sessions.lookup 8).map fun _ =>
        (σ.shmSpace.mapped.lookup 7, σ.shmSpace.mapped.lookup 8,
          σ.shmSpace.names.lookup s.shmName)) = some (some 0, some 1, some 1) := by decide +kernel
  obtain ⟨σ, hexec, hlookup⟩ := Option.bind_eq_some_iff.mp hrun
  obtain ⟨s, hs, hlookup⟩ := Option.bind_eq_some_iff.mp hlookup
  obtain ⟨t, ht, hobjects⟩ := Option.map_eq_some_iff.mp hlookup
  simp only [Prod.mk.injEq] at hobjects
  obtain ⟨hmapped, hmapped', hnamed⟩ := hobjects
  have hstart : (loop createCodec).Reachable (Server.new 3 none 0) := .start ⟨3, none, 0, rfl⟩
  refine ⟨σ, s, t, hstart.exec hexec, ?_, hs, ht, hmapped, hmapped', hnamed⟩
  intro hdenote
  obtain ⟨object, hold, hnew⟩ := hdenote 7 s hs
  rw [hmapped] at hold
  cases hold
  rw [hnamed] at hnew
  cases hnew

end Server

end PtyDaemon
