import PtyDaemon.Server.Fixtures
import PtyDaemon.Wire.Occurrences

/-!
# The life of a session

Sessions are created, given sizes and ended. Every event is a sequence of these changes, in runs
where the random generator keeps apart only the ids of the sessions there are at one time: the id
of a session that has ended may come again.
-/

namespace PtyDaemon

/-- The request an event handles, with the answers it gets. -/
def Event.request? : Event → Option (Env × Request)
  | .request _ (.ok r) _ env => some (env, r)
  | .command _ (.request _ r _) env => some (env, r)
  | _ => none

theorem Event.request?_cases {e : Event} {env : Env} {request : Request}
    (h : e.request? = some (env, request)) :
    (∃ shared c reply, e = .command shared (.request c request reply) env) ∨
      ∃ fd consumed, e = .request fd (.ok request) consumed env := by
  cases e with
  | command shared cmd env' =>
    cases cmd with
    | request c r reply =>
      cases h
      exact .inl ⟨shared, c, reply, rfl⟩
    | _ => cases h
  | request fd result consumed env' =>
    cases result with
    | ok r =>
      cases h
      exact .inr ⟨fd, consumed, rfl⟩
    | error message => cases h
  | _ => cases h

/-- The session a request creates where the PTY can be made. -/
def Request.created (env : Env) : Request → Option Uuid
  | .create .. => env.createPty.toOption.map fun _ => env.uuid
  | _ => none

/-- Whether an event takes the session `id`, where it is attached, from its local owner. -/
def Event.takesOver (id : Uuid) (s : Session) : Event → Bool
  | .command _ (.request _ (.attach i) _) _ => i = id
  | .command _ (.request _ (.detach i _ _ _) _) env => i = id && !s.inCooldown env.now
  | _ => false

/-- When an event gives a session back, if it does. -/
def Event.returns : Event → Option Nat
  | .command _ (.request _ (.detach ..) _) env | .command _ (.disconnected _) env => some env.now
  | _ => none

/-- The size a Detach of a local client names. -/
def Event.detachSize : Event → Option (Uuid × WinSize)
  | .request _ (.ok (.detach id cols rows _)) _ _ =>
    if 0 < cols ∧ 0 < rows then some (id, ⟨cols, rows⟩) else none
  | _ => none

namespace Occurrence

def created : Occurrence → Option Uuid
  | .event e => e.request?.bind fun p => p.2.created p.1
  | _ => none

def detachSize : Occurrence → Option (Uuid × WinSize)
  | .event e => e.detachSize
  | _ => none

def takesOver (id : Uuid) (s : Session) : Occurrence → Bool
  | .event e => e.takesOver id s
  | _ => false

def returns : Occurrence → Option Nat
  | .event e => e.returns
  | _ => none

end Occurrence

namespace Server

variable {J : Codec} {env : Env} {σ σ' σ'' τ : Server} {id : Uuid} {s : Session} {e : Event}
  {m : Occurrence}

/-- The sessions stand under their ids, and their masters are descriptors. -/
structure Keyed (σ : Server) : Prop where
  key : ∀ {id f}, σ.viewOf Session.fixture id = some f → f.id = id
  nonneg : ∀ {id f}, σ.viewOf Session.fixture id = some f → 0 ≤ f.masterFd

private theorem Keyed.session (h : Keyed σ) (hs : σ.sessions.lookup id = some s) :
    s.id = id ∧ 0 ≤ s.masterFd :=
  ⟨h.key (viewOf_eq_some Session.fixture hs), h.nonneg (viewOf_eq_some Session.fixture hs)⟩

private theorem Keyed.of_view (h : Keyed σ)
    (hview : σ'.viewOf Session.fixture = σ.viewOf Session.fixture) : Keyed σ' := by
  constructor
  · intro id f hf
    rw [hview] at hf
    exact h.key hf
  · intro id f hf
    rw [hview] at hf
    exact h.nonneg hf

/-- What the changes of the runs at hand may be: which sessions are created beside those there are,
which size a session is given that its parser is not told, which sessions are taken from their
owners, at which times sessions go back to them, and whether the loop counts its idle time. -/
structure Allowed where
  creates : (Uuid → Option Fixture) → Uuid → Prop := fun _ _ => True
  sizes : Fixture → WinSize → Prop := fun _ _ => True
  takes : Fixture → Prop := fun _ => True
  releases : Nat → Prop := fun _ => True
  ticks : Prop := True

/-- The changes an occurrence makes are among these. -/
structure Allowed.Allows (A : Allowed) (σ : Server) (m : Occurrence) : Prop where
  creates : ∀ id, m.created = some id → A.creates (σ.viewOf Session.fixture) id
  sizes : ∀ id w, m.detachSize = some (id, w) → ∀ s, σ.sessions.lookup id = some s →
    A.sizes s.fixture w
  takes : ∀ id s, σ.sessions.lookup id = some s → s.isAttached = true →
    m.takesOver id s = true → A.takes s.fixture
  releases : ∀ t, m.returns = some t → A.releases t
  ticks : ∀ running idleSince, m = .tick running idleSince → A.ticks

/-- One change in the life of a session. -/
inductive Change (A : Allowed) (σ σ' : Server) : Prop
  | stays (h : Stays σ σ')
  | created {id : Uuid} {f : Fixture} (hC : A.creates (σ.viewOf Session.fixture) id)
      (hnone : σ.viewOf Session.fixture id = none) (hid : f.id = id) (hpos : 0 ≤ f.masterFd)
      (hname : f.shmName = shmNameForSession id) (hsize : f.parserSize = some f.winsize)
      (hview : ∀ i, σ'.viewOf Session.fixture i =
        if i = id then some f else σ.viewOf Session.fixture i)
      (hshm : σ'.shmCalls = .create id :: σ.shmCalls) (hbaton : σ'.batonNotes = σ.batonNotes)
  | ended {id : Uuid} {f : Fixture} (hf : σ.viewOf Session.fixture id = some f)
      (hview : ∀ i, σ'.viewOf Session.fixture i =
        if i = id then none else σ.viewOf Session.fixture i)
      (hshm : σ'.shmCalls = .unlink f.shmName :: σ.shmCalls)
      (hbaton : σ'.batonNotes = σ.batonNotes)
  | sized {id : Uuid} {f : Fixture} (w : WinSize) (hf : σ.viewOf Session.fixture id = some f)
      (hS : A.sizes f w)
      (hview : ∀ i, σ'.viewOf Session.fixture i =
        if i = id then some { f with winsize := w } else σ.viewOf Session.fixture i)
      (hshm : σ'.shmCalls = σ.shmCalls) (hbaton : σ'.batonNotes = σ.batonNotes)
  | resized {id : Uuid} {f : Fixture} (w : WinSize) (hf : σ.viewOf Session.fixture id = some f)
      (hview : ∀ i, σ'.viewOf Session.fixture i =
        if i = id then some { f with winsize := w, parserSize := f.parserSize.map fun _ => w }
        else σ.viewOf Session.fixture i)
      (hshm : σ'.shmCalls = σ.shmCalls) (hbaton : σ'.batonNotes = σ.batonNotes)
  | taken {id : Uuid} {f : Fixture} (note : BatonNote)
      (hnote : note = .forced id ∨ note = .taken id)
      (hf : σ.viewOf Session.fixture id = some f) (hT : A.takes f)
      (hview : σ'.viewOf Session.fixture = σ.viewOf Session.fixture)
      (hshm : σ'.shmCalls = σ.shmCalls) (hbaton : σ'.batonNotes = note :: σ.batonNotes)
  | returned {id : Uuid} {f : Fixture} (t : Nat) (hf : σ.viewOf Session.fixture id = some f)
      (hR : A.releases t)
      (hview : ∀ i, σ'.viewOf Session.fixture i =
        if i = id then some { f with batonReleaseAt := some t } else σ.viewOf Session.fixture i)
      (hshm : σ'.shmCalls = σ.shmCalls) (hbaton : σ'.batonNotes = .returned id :: σ.batonNotes)
  | ticked (hview : σ'.viewOf Session.fixture = σ.viewOf Session.fixture)
      (hshm : σ'.shmCalls = σ.shmCalls) (hbaton : σ'.batonNotes = σ.batonNotes)

/-- A sequence of changes. Only the loop itself sets its idle time. -/
def Changes (A : Allowed) : Server → Server → Prop :=
  Relation.ReflTransGen fun σ σ' => Change A σ σ' ∧ (σ'.idleSince = σ.idleSince ∨ A.ticks)

section

variable {A : Allowed}

private theorem Change.changes (h : Change A σ σ') (hidle : σ'.idleSince = σ.idleSince) :
    Changes A σ σ' := Relation.ReflTransGen.single ⟨h, .inl hidle⟩

private theorem Stays.changes (h : Stays σ σ') : Changes A σ σ' := (Change.stays h).changes h.idle

private theorem Changes.refl (σ : Server) : Changes A σ σ := Relation.ReflTransGen.refl

private theorem Changes.trans (h : Changes A σ σ') (h' : Changes A σ' σ'') : Changes A σ σ'' :=
  Relation.ReflTransGen.trans h h'

private theorem Change.keyed (h : Change A σ σ') (hkeyed : Keyed σ) : Keyed σ' := by
  have hupdate : ∀ {id : Uuid} {b : Option Fixture},
      (∀ i, σ'.viewOf Session.fixture i = if i = id then b else σ.viewOf Session.fixture i) →
      (∀ f, b = some f → f.id = id ∧ 0 ≤ f.masterFd) → Keyed σ' := by
    intro id b hview hb
    have hboth : ∀ {i f}, σ'.viewOf Session.fixture i = some f → f.id = i ∧ 0 ≤ f.masterFd := by
      intro i f hf
      rcases changed_cases hview hf with ⟨rfl, hf⟩ | ⟨_, hf⟩
      · exact hb f hf
      · exact ⟨hkeyed.key hf, hkeyed.nonneg hf⟩
    exact ⟨fun hf => (hboth hf).1, fun hf => (hboth hf).2⟩
  cases h with
  | stays h => exact hkeyed.of_view h.fixtures
  | created hC hnone hid hpos hname hsize hview hshm hbaton =>
    apply hupdate hview
    intro f hf
    cases hf
    exact ⟨hid, hpos⟩
  | ended hf hview hshm hbaton =>
    apply hupdate hview
    intro f hf
    cases hf
  | sized w hf hS hview hshm hbaton =>
    have hold := And.intro (hkeyed.key hf) (hkeyed.nonneg hf)
    apply hupdate hview
    intro f hf
    cases hf
    exact hold
  | resized w hf hview hshm hbaton =>
    have hold := And.intro (hkeyed.key hf) (hkeyed.nonneg hf)
    apply hupdate hview
    intro f hf
    cases hf
    exact hold
  | taken note hnote hf hT hview hshm hbaton => exact hkeyed.of_view hview
  | ticked hview hshm hbaton => exact hkeyed.of_view hview
  | returned t hf hR hview hshm hbaton =>
    have hold := And.intro (hkeyed.key hf) (hkeyed.nonneg hf)
    apply hupdate hview
    intro f hf
    cases hf
    exact hold

private theorem Changes.keyed (h : Changes A σ σ') (hkeyed : Keyed σ) : Keyed σ' := by
  induction h with
  | refl => exact hkeyed
  | tail _ hchange ih => exact hchange.1.keyed ih

private theorem Changes.idle (hA : ¬ A.ticks) (h : Changes A σ σ') :
    σ'.idleSince = σ.idleSince := by
  induction h with
  | refl => rfl
  | tail _ hchange ih => exact (hchange.2.resolve_right hA).trans ih

private theorem handleDetach_changes (σ : Server) {id : Uuid} {cols rows : UInt16}
    (hS : 0 < cols ∧ 0 < rows → ∀ s, σ.sessions.lookup id = some s →
      A.sizes s.fixture ⟨cols, rows⟩)
    (snapshot : Option GridSnapshot) :
    Changes A σ (σ.handleDetach id cols rows snapshot).1 := by
  unfold handleDetach
  split
  · exact (Stays.refl σ).changes
  · rename_i s hs
    have hdetached : Stays σ ((σ.putSession id (s.detach snapshot)).register s.masterFd) :=
      (Stays.refl σ).put hs (s.detach snapshot) rfl rfl rfl rfl rfl
    dsimp only
    split
    · rename_i hsize
      apply hdetached.changes.trans
      refine Change.changes ?_ rfl
      have hview : ((σ.putSession id (s.detach snapshot)).register s.masterFd).viewOf
          Session.fixture id = some s.fixture := by
        rw [hdetached.fixtures]
        exact viewOf_eq_some _ hs
      exact .sized ⟨cols, rows⟩ hview (hS hsize s hs) (fun i => viewOf_putSession ..) rfl rfl
    · exact hdetached.changes

private theorem handleWinsizeUpdate_changes (σ : Server) (id : Uuid) (cols rows : UInt16) :
    Changes A σ (σ.handleWinsizeUpdate id cols rows).1 := by
  unfold handleWinsizeUpdate
  split
  · exact (Stays.refl σ).changes
  · rename_i s hs
    have hput : Change A σ
        (σ.putSession id ((s.resized cols rows).resizeParser cols rows)) := by
      have hview : ∀ i, (σ.putSession id ((s.resized cols rows).resizeParser cols rows)).viewOf
          Session.fixture i = if i = id then
            some { s.fixture with
              winsize := ⟨cols, rows⟩
              parserSize := s.fixture.parserSize.map fun _ => ⟨cols, rows⟩ }
            else σ.viewOf Session.fixture i := by
        intro i
        rw [viewOf_putSession]
        simp [Session.fixture, Session.resized, Session.resizeParser, Function.comp_def]
      exact .resized ⟨cols, rows⟩ (viewOf_eq_some _ hs) hview rfl rfl
    apply (hput.changes rfl).trans
    dsimp only
    split
    · exact (Stays.refl _).changes
    · split
      · exact Stays.changes ⟨rfl, rfl, rfl, rfl⟩
      · exact Stays.changes ⟨rfl, rfl, rfl, rfl⟩

/-- A session that has been taken out is cleaned up. -/
theorem cleanup_change (env : Env) (hs : σ.sessions.lookup id = some s)
    (hsessions : τ.sessions = σ.sessions.erase id) (hshm : τ.shmCalls = σ.shmCalls)
    (hbaton : τ.batonNotes = σ.batonNotes) : Change A σ (τ.cleanupSession env s) := by
  have hview : ∀ i, τ.viewOf Session.fixture i =
      if i = id then none else σ.viewOf Session.fixture i := by
    intro i
    rw [← viewOf_removeSession]
    exact congrFun (viewOf_of_sessions Session.fixture hsessions) i
  apply Change.ended (viewOf_eq_some Session.fixture hs)
  · intro i
    rw [← hview, viewOf_of_sessions _ (cleanup_sessions env τ s)]
  · rw [show s.fixture.shmName = s.shmName from rfl, ← hshm]
    unfold cleanupSession
    dsimp only
    split <;> rfl
  · rw [← hbaton]
    unfold cleanupSession
    dsimp only
    split <;> rfl

private theorem cleanup_idle (env : Env) (σ : Server) (s : Session) :
    (σ.cleanupSession env s).idleSince = σ.idleSince := by
  unfold cleanupSession
  dsimp only
  split <;> rfl

private theorem drop_idle (env : Env) (σ : Server) (s : Session) :
    (σ.dropSession env s).idleSince = σ.idleSince := by
  unfold dropSession
  split
  · exact cleanup_idle env σ s
  · rfl

private theorem drop_change (env : Env) (hs : σ.sessions.lookup id = some s) (hpos : 0 ≤ s.masterFd)
    (hsessions : τ.sessions = σ.sessions.erase id) (hshm : τ.shmCalls = σ.shmCalls)
    (hbaton : τ.batonNotes = σ.batonNotes) : Change A σ (τ.dropSession env s) := by
  rw [dropSession, if_pos hpos]
  exact cleanup_change env hs hsessions hshm hbaton

private theorem handleKill_changes (env : Env) (σ : Server) (id : Uuid) :
    Changes A σ (σ.handleKill env id).1 := by
  unfold handleKill
  split
  · exact (Stays.refl σ).changes
  · rename_i s hs
    apply Change.changes
    · exact cleanup_change env hs rfl rfl rfl
    · exact cleanup_idle ..

private theorem handleCreate_changes {p : Server × Response} {shell : Option String}
    {cols rows : UInt16}
    {workingDir : Option String} {terminalId : Option UInt32}
    {envs : Option (List (String × String))}
    (hfresh : ∀ fd pid ptsname, env.createPty = .ok (fd, pid, ptsname) →
      0 ≤ fd ∧ σ.sessions.lookup env.uuid = none)
    (hC : ∀ q, env.createPty = .ok q → A.creates (σ.viewOf Session.fixture) env.uuid)
    (h : σ.handleCreate env shell cols rows workingDir terminalId envs = .ok p) :
    Changes A σ p.1 := by
  unfold handleCreate at h
  split at h
  · cases h
    exact (Stays.refl σ).changes
  · rename_i fd pid ptsname hpty
    obtain ⟨hpos, hnone⟩ := hfresh fd pid ptsname hpty
    dsimp only at h
    split at h
    · cases h
    · cases h
    · cases h
      have hview : σ.viewOf Session.fixture env.uuid = none := by
        rw [viewOf, hnone, Option.map_none]
      refine Change.changes ?_ rfl
      exact .created (hC _ hpty) hview rfl hpos rfl rfl (fun i => viewOf_putSession ..) rfl rfl

private theorem handleChildExit_changes (hkeyed : Keyed σ) (env : Env) (pid : Pid) :
    Changes A σ (σ.handleChildExit env pid) := by
  cases handleChildExit_ends (fun hs => (hkeyed.session hs).1) env pid with
  | unknown _ h =>
    rw [h]
    exact (Stays.refl σ).changes
  | ended _ _ hs h =>
    rw [h]
    apply Change.changes
    · exact drop_change env hs (hkeyed.session hs).2 rfl rfl rfl
    · exact drop_idle ..

private theorem handleSessionOutput_changes (hkeyed : Keyed σ) (env : Env) (fd : RawFd)
    (read : PtyRead) :
    Changes A σ (σ.handleSessionOutput env fd read) := by
  cases handleSessionOutput_ends (fun hs => (hkeyed.session hs).1) env fd read with
  | ignored _ h =>
    rw [h]
    exact (Stays.refl σ).changes
  | @absorbed id s bytes _ _ hs _ _ h =>
    have hput := (Stays.refl σ).putSession hs _ (s.afterOutput_fixture env.now bytes)
    rw [h]
    apply Stays.changes
    exact hput.same rfl rfl rfl rfl
  | ended _ _ hs _ _ h =>
    rw [h]
    apply Change.changes
    · exact drop_change env hs (hkeyed.session hs).2 rfl rfl rfl
    · exact drop_idle ..

private theorem drop_all_changes (env : Env) (dead : List Session)
    (hnodup : (dead.map Session.id).Nodup)
    (hlive : ∀ s ∈ dead, σ.sessions.lookup s.id = some s ∧ 0 ≤ s.masterFd) :
    Changes A σ (dead.foldl (fun σ s => (σ.removeSession s.id).dropSession env s) σ) := by
  induction dead generalizing σ with
  | nil => exact (Stays.refl σ).changes
  | cons s dead ih =>
    obtain ⟨hs, hpos⟩ := hlive s List.mem_cons_self
    rw [List.map_cons, List.nodup_cons] at hnodup
    have hfirst : Change A σ ((σ.removeSession s.id).dropSession env s) :=
      drop_change env hs hpos rfl rfl rfl
    apply (hfirst.changes (drop_idle ..)).trans
    apply ih hnodup.2
    intro t ht
    obtain ⟨htl, htpos⟩ := hlive t (List.mem_cons_of_mem s ht)
    have hne : t.id ≠ s.id := fun he => hnodup.1 (List.mem_map.mpr ⟨t, ht, he⟩)
    rw [drop_sessions]
    exact ⟨(AList.lookup_erase_ne hne).trans htl, htpos⟩

private theorem reapDead_changes (hkeyed : Keyed σ) (env : Env) : Changes A σ (σ.reapDead env) := by
  unfold reapDead
  dsimp only
  have hnodup : ((σ.sessions.values.filter fun s => !env.childAlive s.childPid).map
      Session.id).Nodup :=
    (Table.nodup_map_values fun id s hs => (hkeyed.session hs).1).sublist
      (List.filter_sublist.map _)
  have hdropped := drop_all_changes (A := A) env _ hnodup fun s hs => by
    obtain ⟨id, hid⟩ := Table.mem_values.mp (List.mem_filter.mp hs).1
    obtain ⟨hkey, hpos⟩ := hkeyed.session hid
    exact ⟨hkey.symm ▸ hid, hpos⟩
  apply hdropped.trans
  generalize σ.sessions.values.filter (fun s => !env.childAlive s.childPid) = dead
  generalize dead.foldl (fun σ s => (σ.removeSession s.id).dropSession env s) σ = τ
  induction dead generalizing τ with
  | nil => exact (Stays.refl τ).changes
  | cons s dead ih =>
    have hfirst : Stays τ ((τ.unregister s.masterFd).notifySessionEnded s.id) :=
      ⟨rfl, rfl, rfl, rfl⟩
    exact hfirst.changes.trans (ih _)

/-! ## Takeovers and releases -/

private theorem taken_change (note : BatonNote) (hnote : note = .forced id ∨ note = .taken id)
    (hs : σ.sessions.lookup id = some s) (hT : A.takes s.fixture)
    (hview : σ'.viewOf Session.fixture = σ.viewOf Session.fixture)
    (hshm : σ'.shmCalls = σ.shmCalls) (hbaton : σ'.batonNotes = note :: σ.batonNotes) :
    Change A σ σ' :=
  .taken note hnote (viewOf_eq_some Session.fixture hs) hT hview hshm hbaton

private theorem forceCompleteTakeover_changes (σ : Server) {id : Uuid}
    (hT : ∀ f, σ.viewOf Session.fixture id = some f → A.takes f)
    (snapshot : Option GridSnapshot) :
    Changes A σ (σ.forceCompleteTakeover id snapshot).1 := by
  unfold forceCompleteTakeover
  split
  · exact .refl σ
  · rename_i s hs
    have hput := (Stays.refl σ).putSession hs (s.batonDetach snapshot) rfl
    refine Change.changes ?_ rfl
    exact taken_change (.taken id) (.inr rfl) hs (hT _ (viewOf_eq_some _ hs)) hput.fixtures rfl rfl

/-- Only a session that somebody has is taken. -/
theorem handleBatonTakeover_changes (J : Codec) (env : Env) (σ : Server) {id : Uuid}
    (hT : ∀ s, σ.sessions.lookup id = some s → s.isAttached = true → A.takes s.fixture) :
    Changes A σ (σ.handleBatonTakeover J env id).1 := by
  cases handleBatonTakeover_cases J env σ id with
  | unowned hnone h =>
    rw [h]
    exact (handleDetach_stays ..).changes
  | @unreached s fd hs hatt howner hnot h =>
    rw [h]
    apply forceCompleteTakeover_changes
    intro f hf
    rw [viewOf_eq_some _ hs] at hf
    cases hf
    exact hT s hs (decide_eq_true hatt)
  | @unwritten s fd client hs hatt howner hclient hpush h =>
    rw [h]
    have hcut : Stays σ (σ.emit (.cut client.stream (.push (.forceDetach id)) env.cut)) :=
      ⟨rfl, rfl, rfl, rfl⟩
    apply hcut.changes.trans
    apply forceCompleteTakeover_changes
    intro f hf
    rw [viewOf_eq_some _ (show (σ.emit _).sessions.lookup id = some s from hs)] at hf
    cases hf
    exact hT s hs (decide_eq_true hatt)
  | @pushed s fd client hs hatt howner hclient hpush h =>
    rw [h]
    have htakes := hT s hs (decide_eq_true hatt)
    have hforced : Change A σ (σ.emit (.sent client.stream (.push (.forceDetach id)))) :=
      taken_change (.forced id) (.inl rfl) hs htakes rfl rfl rfl
    have hwaited := waitForDetachAck_stays J fd id env.ackReads
      (σ.emit (.sent client.stream (.push (.forceDetach id))))
    apply ((hforced.changes rfl).trans hwaited.changes).trans
    apply forceCompleteTakeover_changes
    intro f hf
    rw [hwaited.fixtures] at hf
    have hview : (σ.emit (.sent client.stream (.push (.forceDetach id)))).viewOf
        Session.fixture id = some s.fixture := viewOf_eq_some _ hs
    rw [hview] at hf
    cases hf
    exact htakes

theorem takeOverAttached_changes (J : Codec) (env : Env) (σ : Server) {id : Uuid}
    (hT : ∀ s, σ.sessions.lookup id = some s → s.isAttached = true → A.takes s.fixture) :
    Changes A σ (σ.takeOverAttached J env id) := by
  rcases takeOverAttached_cases J env σ id with ⟨_, _, _, htaken⟩ | ⟨_, hsame⟩
  · rw [htaken]
    exact handleBatonTakeover_changes J env σ hT
  · rw [hsame]
    exact .refl σ

private theorem returned_changes {t : Nat} (h : Stays σ τ) (hs : σ.sessions.lookup id = some s)
    (hR : A.releases t) (s' : Session)
    (hfixture : s'.fixture = { s.fixture with batonReleaseAt := some t }) (conn : Nat) :
    Changes A σ ((τ.putSession id s').emit (.returned id conn)) := by
  apply h.changes.trans
  have hview : τ.viewOf Session.fixture id = some s.fixture := by
    rw [h.fixtures]
    exact viewOf_eq_some _ hs
  refine Change.changes (.returned t hview hR ?_ rfl rfl) rfl
  intro i
  rw [← hfixture]
  exact viewOf_putSession Session.fixture τ id s' i

private theorem handleBatonRelease_changes (env : Env) (σ : Server) (id : Uuid)
    (hR : A.releases env.now) : Changes A σ (σ.handleBatonRelease env id).1 := by
  cases handleBatonRelease_cases env σ id with
  | kept hnone h =>
    rw [h]
    exact (handleDetach_stays ..).changes
  | @gone s fd hs hprevious hclient h =>
    rw [h]
    have hput := (Stays.refl σ).putSession hs s.clearPrevious rfl
    exact (hput.trans (handleDetach_stays ..)).changes
  | @unsent s fd d client hs hprevious hclient hdup hpush h =>
    rw [h]
    have hclosed : Stays σ (((σ.openFd d (.dup id)).emit
        (.cut client.stream (.push (resumePush id s)) env.cut)).closeFd d) := ⟨rfl, rfl, rfl, rfl⟩
    have hput := hclosed.putSession hs s.clearPrevious rfl
    exact (hput.trans (handleDetach_stays ..)).changes
  | @refused s fd d client hs hprevious hclient hdup hpush hsent h =>
    rw [h]
    have hclosed : Stays σ (((σ.openFd d (.dup id)).emit
        (.sent client.stream (.push (resumePush id s)))).closeFd d) := ⟨rfl, rfl, rfl, rfl⟩
    have hput := hclosed.putSession hs s.clearPrevious rfl
    exact (hput.trans (handleDetach_stays ..)).changes
  | @returned s fd d client hs hprevious hclient hdup hpush hsent h =>
    rw [h]
    have hopened : Stays σ (σ.openFd d (.dup id)) := ⟨rfl, rfl, rfl, rfl⟩
    have hpushed := hopened.emit (.sent client.stream (.push (resumePush id s))) rfl rfl
    have hsent := hpushed.emit (.sent client.stream (.fd id)) rfl rfl
    have hclosed : Stays σ (((((σ.openFd d (.dup id)).emit
        (.sent client.stream (.push (resumePush id s)))).emit
          (.sent client.stream (.fd id))).closeFd d).unregister s.masterFd) :=
      hsent.same rfl rfl rfl rfl
    exact returned_changes hclosed hs hR
      ((s.attach env.now fd).clearPrevious.markReleased env.now) rfl client.stream

private theorem handleWsAttach_changes {p : Server × Response}
    (hT : ∀ s, σ.sessions.lookup id = some s → s.isAttached = true → A.takes s.fixture)
    (h : σ.handleWsAttach J env id = .ok p) : Changes A σ p.1 := by
  have htaken := takeOverAttached_changes J env σ hT
  cases handleWsAttach_cases h with
  | missing hs h =>
    rw [h]
    exact htaken
  | dead hs hdead h =>
    rw [h]
    exact htaken
  | @joined s ringData hs halive hdump h =>
    rw [h]
    apply htaken.trans
    have hput : ∀ τ : Server, τ.sessions.lookup id = some s →
        Stays τ (τ.putSession id (s.wsJoined ringData)) := fun τ hs =>
      (Stays.refl τ).putSession hs _ (s.wsJoined_fixture ringData)
    dsimp only
    split
    · exact (hput _ hs).changes
    · have hregistered : Stays (σ.takeOverAttached J env id)
          ((σ.takeOverAttached J env id).register s.masterFd) := ⟨rfl, rfl, rfl, rfl⟩
      exact (hregistered.trans (hput _ hs)).changes

/-- A Detach of a WebSocket client takes a session only where it is not just back. -/
theorem handleWsDetach_changes (J : Codec) (env : Env) (σ : Server) (id : Uuid)
    (hT : ∀ s, σ.sessions.lookup id = some s → s.isAttached = true →
      s.inCooldown env.now = false → A.takes s.fixture)
    (hR : A.releases env.now) : Changes A σ (σ.handleWsDetach J env id).1 := by
  cases handleWsDetach_cases J env σ id with
  | missing hs h =>
    rw [h]
    exact (handleDetach_stays ..).changes
  | @taken s hs hatt hcool h =>
    rw [h]
    apply (wsClientGone_stays hs).changes.trans
    apply handleBatonTakeover_changes
    intro t ht _
    have hself : (σ.putSession id s.wsClientGone).sessions.lookup id = some s.wsClientGone :=
      (Table.lookup_insert ..).trans (if_pos rfl)
    rw [hself] at ht
    cases ht
    exact hT s hs hatt hcool
  | cooling hs hatt hcool h =>
    rw [h]
    exact (wsClientGone_stays hs).changes
  | released hs hfree hprevious h =>
    rw [h]
    exact (wsClientGone_stays hs).changes.trans (handleBatonRelease_changes env _ id hR)
  | detached hs hfree hprevious h =>
    rw [h]
    exact ((wsClientGone_stays hs).trans (handleDetach_stays ..)).changes

private theorem handleWsClientDisconnect_changes (env : Env) (σ : Server) (c : Nat)
    (hR : A.releases env.now) : Changes A σ (σ.handleWsClientDisconnect env c) := by
  cases handleWsClientDisconnect_cases env σ c with
  | absent hnone h =>
    rw [h]
    exact .refl σ
  | released hid hs hcount hprevious h =>
    rw [h]
    exact (wsClientGone_stays hs).changes.trans (handleBatonRelease_changes env _ _ hR)
  | left hid hs hstays h =>
    rw [h]
    exact (wsClientGone_stays hs).changes

/-! ## Requests and commands -/

private theorem handleRequest_changes {fd : RawFd} {request : Request} {p : Server × Response}
    (hfresh : ∀ fd pid ptsname, env.createPty = .ok (fd, pid, ptsname) →
      0 ≤ fd ∧ σ.sessions.lookup env.uuid = none)
    (hC : ∀ id, request.created env = some id → A.creates (σ.viewOf Session.fixture) id)
    (hS : ∀ id cols rows snapshot, request = .detach id cols rows snapshot →
      0 < cols ∧ 0 < rows → ∀ s, σ.sessions.lookup id = some s → A.sizes s.fixture ⟨cols, rows⟩)
    (h : σ.handleRequest J env fd request = .ok p) : Changes A σ p.1 := by
  cases request with
  | create shell cols rows workingDir terminalId envs =>
    apply handleCreate_changes hfresh _ h
    intro q hq
    apply hC
    rw [Request.created, hq]
    rfl
  | attach id =>
    cases h
    exact (handleAttach_stays ..).changes
  | detach id cols rows snapshot =>
    cases h
    exact handleDetach_changes σ (hS id cols rows snapshot rfl) _
  | list =>
    cases h
    exact (Stays.refl σ).changes
  | kill id =>
    cases h
    exact handleKill_changes ..
  | winsizeUpdate id cols rows =>
    cases h
    exact handleWinsizeUpdate_changes ..
  | ping =>
    cases h
    exact (Stays.refl σ).changes
  | shutdown =>
    cases h
    exact Stays.changes ⟨rfl, rfl, rfl, rfl⟩
  | input id data =>
    cases h
    exact (handleRemoteInput_stays ..).changes

private theorem serve_changes {fd : RawFd} {result : Except String Request} {consumed : Nat}
    (hfresh : ∀ fd pid ptsname, env.createPty = .ok (fd, pid, ptsname) →
      0 ≤ fd ∧ σ.sessions.lookup env.uuid = none)
    (hC : ∀ request, result = .ok request → ∀ id, request.created env = some id →
      A.creates (σ.viewOf Session.fixture) id)
    (hS : ∀ id cols rows snapshot, result = .ok (.detach id cols rows snapshot) →
      0 < cols ∧ 0 < rows → ∀ s, σ.sessions.lookup id = some s → A.sizes s.fixture ⟨cols, rows⟩)
    (h : σ.serve J env fd result consumed = .ok σ') : Changes A σ σ' := by
  obtain ⟨p, hp, rfl⟩ := ok_of_map h
  have hanswered : Stays p.1 ((p.1.answer env fd p.2 consumed).passOn env fd p.2) :=
    (answer_stays ..).trans (passOn_stays ..)
  apply Changes.trans _ hanswered.changes
  cases result with
  | ok request =>
    exact handleRequest_changes hfresh (hC request rfl)
      (fun id cols rows snapshot heq => hS id cols rows snapshot (congrArg _ heq)) hp
  | error e =>
    cases hp
    exact (Stays.refl σ).changes

private theorem handleWsCommand_changes {cmd : WsCommand}
    (hfresh : ∀ fd pid ptsname, env.createPty = .ok (fd, pid, ptsname) →
      0 ≤ fd ∧ σ.sessions.lookup env.uuid = none)
    (hC : ∀ c request reply, cmd = .request c request reply → ∀ id,
      request.created env = some id → A.creates (σ.viewOf Session.fixture) id)
    (hT : ∀ id s, σ.sessions.lookup id = some s → s.isAttached = true →
      (Event.command σ.wsShared cmd env).takesOver id s = true → A.takes s.fixture)
    (hR : ∀ t, (Event.command σ.wsShared cmd env).returns = some t → A.releases t)
    (h : σ.handleWsCommand J env cmd = .ok σ') : Changes A σ σ' := by
  cases cmd with
  | request c request reply =>
    obtain ⟨p, hp, rfl⟩ := ok_of_map h
    have hreplied : Stays p.1 (p.1.emit (.replied reply p.2)) := ⟨rfl, rfl, rfl, rfl⟩
    apply Changes.trans _ hreplied.changes
    split at hp
    · rename_i i
      apply handleWsAttach_changes _ hp
      intro s hs hatt
      exact hT i s hs hatt (decide_eq_true rfl)
    · rename_i i cols rows snapshot
      cases hp
      apply handleWsDetach_changes J env σ i _ (hR _ rfl)
      intro s hs hatt hcool
      exact hT i s hs hatt (by simp [Event.takesOver, hcool])
    · rename_i hdetach
      apply handleRequest_changes hfresh (hC c request reply rfl) _ hp
      intro id cols rows snapshot heq
      exact absurd heq (hdetach id cols rows snapshot)
  | disconnected c =>
    cases h
    exact handleWsClientDisconnect_changes env σ c (hR _ rfl)
  | input id data =>
    cases h
    exact (handleWsInput_stays ..).changes

end

/-! ## Runs -/

/-- The answers are ones the kernel and the generator can give, where the generator keeps apart only
the ids of the sessions there are. -/
def admitsLive (σ : Server) (env : Env) : Bool :=
  (match env.dup with
    | some fd => σ.freeFd fd
    | none => true) &&
  (match env.createPty with
    | .ok (fd, _, _) => σ.freeFd fd && (σ.sessions.lookup env.uuid).isNone
    | .error _ => true)

def eventLive (J : Codec) (σ : Server) : Event → Except Stop Server
  | .command shared cmd env =>
    if σ.admitsLive env then { σ with wsShared := shared }.handleWsCommand J env cmd
    else .error .excluded
  | .request fd result consumed env =>
    if (σ.connOf fd).isSome && σ.admitsLive env then σ.serve J env fd result consumed
    else .error .excluded
  | e => σ.event J e

def occurLive (J : Codec) (σ : Server) : Occurrence → Option Server
  | .event e => (σ.eventLive J e).toOption
  | m => σ.occur J m

/-- The daemon, event by event, under these answers. -/
def lives (J : Codec) : Transition.System Server Occurrence where
  init σ := ∃ listener wakeup now, σ = Server.new listener wakeup now
  step := occurLive J

theorem admitsLive_fresh (h : σ.admitsLive env = true) (fd : RawFd) (pid : Pid) (ptsname : String)
    (hpty : env.createPty = .ok (fd, pid, ptsname)) :
    0 ≤ fd ∧ σ.sessions.lookup env.uuid = none := by
  rw [admitsLive, hpty] at h
  simp only [freeFd, Bool.and_eq_true, decide_eq_true_eq, Option.isNone_iff_eq_none] at h
  exact ⟨h.2.1.1, h.2.2⟩

/-- Where no id is ever given out twice, the live ones are not. -/
theorem admits_live (hinv : Inv σ) (h : σ.admits env = true) : σ.admitsLive env = true := by
  rw [admits, Bool.and_eq_true] at h
  rw [admitsLive, Bool.and_eq_true]
  apply And.intro h.1
  cases hpty : env.createPty with
  | error e => rfl
  | ok p =>
    have hfresh := h.2
    simp only [hpty, Bool.and_eq_true, Bool.not_eq_true'] at hfresh
    simp only [hfresh.1, Bool.true_and, Option.isNone_iff_eq_none]
    cases hs : σ.sessions.lookup env.uuid with
    | none => rfl
    | some s =>
      have hknown := (hinv.session (coreOf_eq_some hs)).known
      simp [hknown] at hfresh

private theorem event_live (hinv : Inv σ) (h : σ.event J e = .ok σ') :
    σ.eventLive J e = .ok σ' := by
  cases event_runs h with
  | command hadmits h =>
    simp only [eventLive, admits_live hinv hadmits]
    exact h
  | request hclient hadmits h =>
    simp only [eventLive, admits_live hinv hadmits, hclient]
    exact h
  | _ => exact h

theorem occur_live (hinv : Inv σ) (h : σ.occur J m = some σ') : σ.occurLive J m = some σ' := by
  cases m with
  | event e =>
    rw [occurLive, event_live hinv (ok_of_toOption h)]
    rfl
  | _ => exact h

/-- The runs of the daemon are among these. -/
theorem occurrences_lives {guard : Server → Occurrence → Prop}
    (h : (occurrences J).Reach guard σ) : (lives J).Reach guard σ := by
  induction h with
  | start hinit => exact .start hinit
  | next h hg hstep ih => exact ih.next hg (occur_live (occurrences_inv h.reachable) hstep)

/-- A creation is that of a request for which the PTY can be made. -/
theorem created_cases (h : m.created = some id) :
    ∃ e env shell cols rows workingDir terminalId envs fd pid ptsname, m = .event e ∧
      e.request? = some (env, .create shell cols rows workingDir terminalId envs) ∧
      env.createPty = .ok (fd, pid, ptsname) ∧ env.uuid = id := by
  cases m with
  | event e =>
    obtain ⟨⟨env, request⟩, hrequest, hid⟩ := Option.bind_eq_some_iff.mp h
    cases request with
    | create shell cols rows workingDir terminalId envs =>
      obtain ⟨p, hpty, rfl⟩ := Option.map_eq_some_iff.mp hid
      cases hp : env.createPty with
      | ok q => exact ⟨e, env, _, _, _, _, _, _, q.1, q.2.1, q.2.2, rfl, hrequest, hp, rfl⟩
      | error message =>
        rw [hp] at hpty
        cases hpty
    | _ => cases hid
  | _ => cases h

theorem loop_lives (h : (loop J).Reachable σ) : (lives J).Reachable σ :=
  occurrences_lives (loop_occurrences h)

section

variable {A : Allowed}

private theorem eventLive_changes (hkeyed : Keyed σ) (hA : A.Allows σ (.event e))
    (h : σ.eventLive J e = .ok σ') : Changes A σ σ' := by
  cases e with
  | reap env =>
    cases h
    exact reapDead_changes hkeyed env
  | command shared cmd env =>
    simp only [eventLive] at h
    split at h
    · rename_i hadmits
      have harrived : Stays σ { σ with wsShared := shared } := ⟨rfl, rfl, rfl, rfl⟩
      have hadmits' : { σ with wsShared := shared }.admitsLive env = true := hadmits
      apply harrived.changes.trans
      apply handleWsCommand_changes (admitsLive_fresh hadmits') _ hA.takes hA.releases h
      intro c request reply heq id hid
      subst heq
      exact hA.creates id hid
    · cases h
  | accept fd =>
    simp only [eventLive, event] at h
    split at h
    · cases h
      exact Stays.changes ⟨rfl, rfl, rfl, rfl⟩
    · cases h
  | request fd result consumed env =>
    simp only [eventLive] at h
    split at h
    · rename_i hadmits
      rw [Bool.and_eq_true] at hadmits
      apply serve_changes (admitsLive_fresh hadmits.2) _ _ h
      · intro request heq id hid
        subst heq
        exact hA.creates id hid
      · intro id cols rows snapshot heq hsize
        subst heq
        exact hA.sizes id ⟨cols, rows⟩ (if_pos hsize)
    · cases h
  | disconnect fd =>
    simp only [eventLive, event] at h
    split at h
    · exact (handleClientDisconnect_stays h).changes
    · cases h
  | childExit pid env =>
    cases h
    exact handleChildExit_changes hkeyed env pid
  | output fd read env =>
    cases h
    exact handleSessionOutput_changes hkeyed env fd read

theorem Inv.keyed (hinv : Inv σ) : Keyed σ := by
  have hboth : ∀ {id f}, σ.viewOf Session.fixture id = some f → f.id = id ∧ 0 ≤ f.masterFd := by
    intro id f hf
    obtain ⟨s, hs, rfl⟩ := Option.map_eq_some_iff.mp hf
    exact ⟨hinv.sessionsOpen.key hs, hinv.sessionsOpen.nonneg hs⟩
  exact ⟨fun hf => (hboth hf).1, fun hf => (hboth hf).2⟩

/-- No event touches the idle time. -/
theorem event_idle (hinv : Inv σ) (h : σ.event J e = .ok σ') : σ'.idleSince = σ.idleSince := by
  have hchanges : Changes { ticks := False } σ σ' := by
    apply eventLive_changes hinv.keyed _ (event_live hinv h)
    refine ⟨fun _ _ => trivial, fun _ _ _ _ _ => trivial, fun _ _ _ _ _ => trivial,
      fun _ _ => trivial, ?_⟩
    intro running idleSince hm
    cases hm
  exact hchanges.idle not_false

/-- What an occurrence does to the lives of the sessions. -/
theorem occurLive_changes (hkeyed : Keyed σ) (hA : A.Allows σ m)
    (h : σ.occurLive J m = some σ') : Changes A σ σ' := by
  cases m with
  | event e => exact eventLive_changes hkeyed hA (ok_of_toOption h)
  | receive fd bytes =>
    obtain ⟨client, hclient, rfl⟩ := Option.map_eq_some_iff.mp h
    exact Stays.changes ⟨rfl, rfl, rfl, rfl⟩
  | tick running idleSince =>
    cases h
    exact Relation.ReflTransGen.single ⟨.ticked rfl rfl rfl, .inr (hA.ticks _ _ rfl)⟩

end

private theorem new_keyed (listener : RawFd) (wakeup : Option (RawFd × RawFd)) (now : Nat) :
    Keyed (Server.new listener wakeup now) := by
  constructor
  · intro id f hf
    cases hf
  · intro id f hf
    cases hf

theorem lives_keyed {guard : Server → Occurrence → Prop} (h : (lives J).Reach guard σ) :
    Keyed σ := by
  apply h.invariant
  · rintro _ ⟨listener, wakeup, now, rfl⟩
    exact new_keyed listener wakeup now
  · intro σ m σ' hkeyed _ hstep
    have hchanges : Changes {} σ σ' := by
      apply occurLive_changes hkeyed _ hstep
      exact ⟨fun _ _ => trivial, fun _ _ _ _ _ => trivial, fun _ _ _ _ _ => trivial,
        fun _ _ => trivial, fun _ _ _ => trivial⟩
    exact hchanges.keyed hkeyed

end Server

end PtyDaemon
