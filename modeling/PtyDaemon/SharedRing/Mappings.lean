import PtyDaemon.Framework.Table
import PtyDaemon.Framework.Transition
import PtyDaemon.SharedRing.Segment

/-!
# The rings of all processes

The daemon creates an object and keeps it mapped; a client opens it by its name and maps it too, and
both write to it, one after the other. This is the life of all `SharedRingBuffer`s of all processes,
call by call: creating and opening, with whatever fails on the way, the accessors, `unlink` and
`Drop`, and a process that is killed while it creates. The calls of different processes interleave in
any order.
-/

namespace PtyDaemon

open Circular Words

/-- What the kernel answers to the calls of `create` or `open`. -/
structure MapAnswers where
  shmOpen : Except String RawFd
  /-- `ftruncate` or `fstat` -/
  sized : Option String
  mmap : Except String Nat

/-- A process and an address in it. -/
abbrev Place := Nat × Nat

/-- A `SharedRingBuffer` that has not been dropped. -/
structure LiveRing where
  process : Nat
  object : Nat
  mapping : Mapping
  deriving DecidableEq

def LiveRing.place (r : LiveRing) : Place := (r.process, r.mapping.mmapPtr)

/-- The shared-memory objects, and what the processes hold of them. -/
structure ShmHost where
  names : Table String Nat
  objects : Table Nat (List UInt8)
  /-- objects made so far -/
  count : Nat
  fds : Table (Nat × RawFd) Nat
  /-- the object at an address -/
  maps : Table Place Nat
  rings : Table Place LiveRing

namespace ShmHost

def empty : ShmHost := ⟨∅, ∅, 0, ∅, ∅, ∅⟩

def bytes (M : ShmHost) (object : Nat) : List UInt8 := (M.objects.lookup object).getD []

def setBytes (M : ShmHost) (object : Nat) (m : List UInt8) : ShmHost :=
  { M with objects := M.objects.insert object m }

/-- `shm_open` with `O_CREAT` and `O_EXCL`, the name being free. -/
def newObject (M : ShmHost) (shmName : String) : ShmHost :=
  { M with
    names := M.names.insert shmName M.count
    objects := M.objects.insert M.count []
    count := M.count + 1 }

def openFd (M : ShmHost) (process : Nat) (fd : RawFd) (object : Nat) : Option ShmHost :=
  if M.fds.lookup (process, fd) = none then
    some { M with fds := M.fds.insert (process, fd) object }
  else none

def closeFd (M : ShmHost) (process : Nat) (fd : RawFd) : ShmHost :=
  { M with fds := M.fds.erase (process, fd) }

def mapAt (M : ShmHost) (place : Place) (object : Nat) : Option ShmHost :=
  if M.maps.lookup place = none then some { M with maps := M.maps.insert place object } else none

def unmap (M : ShmHost) (place : Place) : ShmHost := { M with maps := M.maps.erase place }

def addRing (M : ShmHost) (r : LiveRing) : ShmHost :=
  { M with rings := M.rings.insert r.place r }

/-- `CString::new` takes no name with a NUL in it. -/
def badName (shmName : String) : Bool := shmName.toList.contains (Char.ofNat 0)

/-- `create` as far as the mapping, of which it makes a ring. `none`: the kernel cannot answer this
way. -/
def createMapping (page : PageSize) (M : ShmHost) (process : Nat) (shmName : String)
    (capacity : Nat) (a : MapAnswers) : Option (ShmHost × Except String LiveRing) :=
  if badName shmName then some (M, .error "Invalid shm name")
  else
    let M := { M with names := M.names.erase shmName }
    match a.shmOpen with
    | .error e => some (M, .error e)
    | .ok fd =>
      let object := M.count
      ((M.newObject shmName).openFd process fd object).bind fun M =>
      let size := mmapSizeFor page capacity
      match a.sized with
      | some e => some (M.closeFd process fd, .error e)
      | none =>
        if 2 ^ 63 ≤ size then none
        else
          let M := M.setBytes object (List.replicate size 0)
          match a.mmap with
          | .error e => some (M.closeFd process fd, .error e)
          | .ok ptr =>
            -- nothing of size zero is mapped
            if size = 0 then none else
            (M.mapAt (process, ptr) object).map fun M =>
            (M, .ok ⟨process, object, ⟨shmName, fd, ptr, size, capacity, true⟩⟩)

/-- `SharedRingBuffer::create`. -/
def create (page : PageSize) (M : ShmHost) (process : Nat) (shmName : String) (capacity : Nat)
    (a : MapAnswers) : Option (ShmHost × Except String LiveRing) :=
  (M.createMapping page process shmName capacity a).map fun
    | (M, .error e) => (M, .error e)
    | (M, .ok r) =>
      ((M.setBytes r.object (initHeader (M.bytes r.object) capacity)).addRing r, .ok r)

/-- The process is killed in `create`, where the header has got so many stores; the kernel takes the
mapping and the descriptor back. -/
def createKilled (page : PageSize) (M : ShmHost) (process : Nat) (shmName : String)
    (capacity : Nat) (a : MapAnswers) (stores : Nat) : Option ShmHost :=
  (M.createMapping page process shmName capacity a).map fun
    | (M, .error _) => M
    | (M, .ok r) =>
      ((M.setBytes r.object (partHeader stores (M.bytes r.object) capacity)).unmap r.place).closeFd
        process r.mapping.shmFd

/-- `SharedRingBuffer::open`. -/
def openRing (M : ShmHost) (process : Nat) (shmName : String) (a : MapAnswers) :
    Option (ShmHost × Except String LiveRing) :=
  if badName shmName then some (M, .error "Invalid shm name")
  else
    match a.shmOpen, M.names.lookup shmName with
    | .error e, _ => some (M, .error e)
    | .ok _, none => none
    | .ok fd, some object =>
      (M.openFd process fd object).bind fun M =>
      match a.sized with
      | some e => some (M.closeFd process fd, .error e)
      | none =>
        let size := (M.bytes object).length
        if size < headerSize then some (M.closeFd process fd, .error "Shared memory too small")
        else
          match a.mmap with
          | .error e => some (M.closeFd process fd, .error e)
          | .ok ptr =>
            (M.mapAt (process, ptr) object).bind fun M =>
            match headerError (M.bytes object) with
            | some e => some ((M.unmap (process, ptr)).closeFd process fd, .error e)
            | none =>
              let capacity := load (M.bytes object) 8 8
              let r : LiveRing := ⟨process, object, ⟨shmName, fd, ptr, size, capacity, false⟩⟩
              some (M.addRing r, .ok r)

/-- `Drop for SharedRingBuffer`; so does the kernel when the process ends. -/
def dropRing (M : ShmHost) (r : LiveRing) : ShmHost :=
  let M := (M.unmap r.place).closeFd r.process r.mapping.shmFd
  { M with rings := M.rings.erase r.place }

/-- What a process does next. A ring is named by its place. -/
inductive Label
  | create (process : Nat) (shmName : String) (capacity : Nat) (answers : MapAnswers)
  | createKilled (process : Nat) (shmName : String) (capacity : Nat) (answers : MapAnswers)
      (stores : Nat)
  | openRing (process : Nat) (shmName : String) (answers : MapAnswers)
  | write (place : Place) (data : List UInt8)
  | clear (place : Place)
  | unlink (place : Place)
  | drop (place : Place)

def step (page : PageSize) (M : ShmHost) : Label → Option ShmHost
  | .create process shmName capacity a => (M.create page process shmName capacity a).map (·.1)
  | .createKilled process shmName capacity a stores =>
    M.createKilled page process shmName capacity a stores
  | .openRing process shmName a => (M.openRing process shmName a).map (·.1)
  | .write place data =>
    (M.rings.lookup place).map fun r =>
      M.setBytes r.object (r.mapping.write (M.bytes r.object) data)
  | .clear place =>
    (M.rings.lookup place).map fun r => M.setBytes r.object (Mapping.clear (M.bytes r.object))
  | .unlink place =>
    (M.rings.lookup place).map fun r => { M with names := M.names.erase r.mapping.shmName }
  | .drop place => (M.rings.lookup place).map fun r => M.dropRing r

/-- How far an object has come that is no ring: without bytes, all zeros, or with the magic number
only. -/
inductive Stage
  | bare
  | zeros
  | magic
  deriving DecidableEq

/-- What has happened to an object. -/
inductive Note
  | made (object capacity : Nat)
  | left (object : Nat) (stage : Stage)
  | call (object : Nat) (c : SharedRingBuffer.Call)

/-- What an object is whose header has got so many stores. The capacity is the third. -/
def Note.header (object capacity : Nat) : Nat → Note
  | 0 => .left object .zeros
  | 1 => .left object .magic
  | 2 => .made object 0
  | _ => .made object capacity

/-- What `create` does to the objects, the header getting so many stores. -/
def createNote (page : PageSize) (M : ShmHost) (shmName : String) (capacity : Nat)
    (a : MapAnswers) (stores : Nat) : List Note :=
  if badName shmName then []
  else
    match a.shmOpen, a.sized, a.mmap with
    | .error _, _, _ => []
    | .ok _, some _, _ => [.left M.count .bare]
    | .ok _, none, .error _ =>
      [.left M.count (if mmapSizeFor page capacity = 0 then .bare else .zeros)]
    | .ok _, none, .ok _ => [.header M.count capacity stores]

/-- What a step does to the objects. -/
def note (page : PageSize) (M : ShmHost) (label : Label) (_ : ShmHost) : List Note :=
  match label with
  | .create _ shmName capacity a =>
    M.createNote page shmName capacity a (headerStores capacity).length
  | .createKilled _ shmName capacity a stores => M.createNote page shmName capacity a stores
  | .write place data =>
    match M.rings.lookup place with
    | some r => [.call r.object (.write data)]
    | none => []
  | .clear place =>
    match M.rings.lookup place with
    | some r => [.call r.object .clear]
    | none => []
  | _ => []

def system (page : PageSize) : Transition.System ShmHost Label where
  init M := M = empty
  step := step page

/-- The runs with the record of what happened to every object. -/
def recorded (page : PageSize) : Transition.System (Transition.Recorded ShmHost Note) Label :=
  (system page).record (note page)

end ShmHost

/-- The capacity an object has been made with. -/
def madeWith (object : Nat) : List ShmHost.Note → Option Nat
  | [] => none
  | .made o capacity :: log => if o = object then some capacity else madeWith object log
  | .left _ _ :: log => madeWith object log
  | .call _ _ :: log => madeWith object log

/-- How far an object has come that has not been made. -/
def leftAt (object : Nat) : List ShmHost.Note → Option ShmHost.Stage
  | [] => none
  | .made _ _ :: log => leftAt object log
  | .left o stage :: log => if o = object then some stage else leftAt object log
  | .call _ _ :: log => leftAt object log

/-- The writes to an object and its clears, newest first, by whatever process. -/
def callsOn (object : Nat) : List ShmHost.Note → List SharedRingBuffer.Call
  | [] => []
  | .made _ _ :: log => callsOn object log
  | .left _ _ :: log => callsOn object log
  | .call o c :: log => if o = object then c :: callsOn object log else callsOn object log

/-- What any process has written to the object since any process cleared it. -/
def streamOf (object : Nat) (log : List ShmHost.Note) : List UInt8 :=
  (callsOn object log).foldr (fun c S => c.stream S) []

namespace ShmHost

variable {page : PageSize} {M M' : ShmHost} {process ptr object capacity : Nat} {place : Place}
  {shmName : String} {a : MapAnswers} {fd : RawFd}

private theorem openFd_eq_some (h : M.openFd process fd object = some M') :
    M.fds.lookup (process, fd) = none ∧
      M' = { M with fds := M.fds.insert (process, fd) object } := by
  unfold openFd at h
  split at h
  · rename_i hfree
    cases h
    exact ⟨hfree, rfl⟩
  · cases h

private theorem mapAt_eq_some (h : M.mapAt place object = some M') :
    M.maps.lookup place = none ∧ M' = { M with maps := M.maps.insert place object } := by
  unfold mapAt at h
  split at h
  · rename_i hfree
    cases h
    exact ⟨hfree, rfl⟩
  · cases h

@[simp] theorem bytes_setBytes (M : ShmHost) (object o : Nat) (m : List UInt8) :
    (M.setBytes object m).bytes o = if o = object then m else M.bytes o := by
  rw [bytes, setBytes, Table.lookup_insert]
  split
  · rfl
  · rfl

/-- A new object under a name. -/
def named (M : ShmHost) (shmName : String) (m : List UInt8) : ShmHost :=
  { M with
    names := (M.names.erase shmName).insert shmName M.count
    objects := M.objects.insert M.count m
    count := M.count + 1 }

/-- The descriptor and the mapping of a ring. -/
def holding (M : ShmHost) (r : LiveRing) : ShmHost :=
  { M with
    fds := M.fds.insert (r.process, r.mapping.shmFd) r.object
    maps := M.maps.insert r.place r.object }

/-- A ring with its descriptor and its mapping. -/
def withRing (M : ShmHost) (r : LiveRing) : ShmHost := (M.holding r).addRing r

private theorem bytes_named (M : ShmHost) (shmName : String) (m : List UInt8) (o : Nat) :
    (M.named shmName m).bytes o = if o = M.count then m else M.bytes o :=
  bytes_setBytes M M.count o m

private theorem lookup_withRing (M : ShmHost) (r : LiveRing) (place : Place) :
    (M.withRing r).rings.lookup place = if place = r.place then some r else M.rings.lookup place :=
  Table.lookup_insert _ _ _ _

private theorem setBytes_holding (M : ShmHost) (shmName : String) (m m' : List UInt8) {r : LiveRing}
    (hobject : r.object = M.count) :
    ((M.named shmName m).holding r).setBytes r.object m' = (M.named shmName m').holding r := by
  simp only [named, holding, setBytes, hobject, AList.insert_insert]

private theorem bytes_holding (M : ShmHost) (shmName : String) (m : List UInt8) {r : LiveRing}
    (hobject : r.object = M.count) : ((M.named shmName m).holding r).bytes r.object = m := by
  rw [hobject]
  exact (bytes_named M shmName m M.count).trans (if_pos rfl)

/-- The kernel takes back what it has given. -/
theorem unmap_holding {r : LiveRing} (hfd : M.fds.lookup (r.process, r.mapping.shmFd) = none)
    (hplace : M.maps.lookup r.place = none) :
    ((M.holding r).unmap r.place).closeFd r.process r.mapping.shmFd = M := by
  simp only [holding, unmap, closeFd, Table.erase_insert hfd, Table.erase_insert hplace]

/-- How `create` ends as far as the mapping, with the note that many stores to the header leave. Once
there is an object under the name, an error leaves it there, as far as `ftruncate` has made it. -/
inductive MappingEnds (page : PageSize) (M : ShmHost) (process : Nat) (shmName : String)
    (capacity stores : Nat) : List Note → ShmHost × Except String LiveRing → Prop
  | unnamed {e : String} : MappingEnds page M process shmName capacity stores [] (M, .error e)
  | unopened {e : String} :
      MappingEnds page M process shmName capacity stores []
        ({ M with names := M.names.erase shmName }, .error e)
  | bare {e : String} :
      MappingEnds page M process shmName capacity stores [.left M.count .bare]
        (M.named shmName [], .error e)
  | zeros {e : String} (hzero : mmapSizeFor page capacity ≠ 0) :
      MappingEnds page M process shmName capacity stores [.left M.count .zeros]
        (M.named shmName (List.replicate (mmapSizeFor page capacity) 0), .error e)
  | mapped {fd : RawFd} {ptr : Nat} (hfd : M.fds.lookup (process, fd) = none)
      (hptr : M.maps.lookup (process, ptr) = none) (hzero : mmapSizeFor page capacity ≠ 0)
      (hsize : mmapSizeFor page capacity < 2 ^ 63) {r : LiveRing}
      (hr : r = ⟨process, M.count, ⟨shmName, fd, ptr, mmapSizeFor page capacity, capacity,
        true⟩⟩) :
      MappingEnds page M process shmName capacity stores [.header M.count capacity stores]
        ((M.named shmName (List.replicate (mmapSizeFor page capacity) 0)).holding r, .ok r)

private theorem createMapping_ends {p : ShmHost × Except String LiveRing}
    (h : M.createMapping page process shmName capacity a = some p) (stores : Nat) :
    MappingEnds page M process shmName capacity stores
      (M.createNote page shmName capacity a stores) p := by
  unfold createMapping at h
  unfold createNote
  split at h
  · rename_i hbad
    cases h
    rw [if_pos hbad]
    exact .unnamed
  · rename_i hgood
    rw [if_neg hgood]
    dsimp only at h
    split at h
    · rename_i hopen
      cases h
      rw [hopen]
      exact .unopened
    · rename_i fd hopen
      obtain ⟨N, hN, h⟩ := Option.bind_eq_some_iff.mp h
      obtain ⟨hfd, rfl⟩ := openFd_eq_some hN
      have hclose : (M.fds.insert (process, fd) M.count).erase (process, fd) = M.fds :=
        Table.erase_insert hfd M.count
      rw [hopen]
      split at h
      · rename_i hsized
        cases h
        rw [hsized]
        simp only [closeFd, newObject, hclose]
        exact .bare
      · rename_i hsized
        rw [hsized]
        split at h
        · cases h
        · rename_i hsize
          split at h
          · rename_i hmmap
            cases h
            rw [hmmap]
            simp only [closeFd, newObject, setBytes, AList.insert_insert, hclose]
            by_cases hzero : mmapSizeFor page capacity = 0
            · rw [if_pos hzero, hzero]
              exact .bare
            · rw [if_neg hzero]
              exact .zeros hzero
          · rename_i ptr hmmap
            rw [hmmap]
            split at h
            · cases h
            rename_i hzero
            obtain ⟨N, hN, h⟩ := Option.map_eq_some_iff.mp h
            obtain ⟨hptr, rfl⟩ := mapAt_eq_some hN
            cases h
            simp only [newObject, setBytes, AList.insert_insert]
            exact .mapped (M := M) hfd hptr hzero (Nat.lt_of_not_le hsize) rfl

/-- How `open` ends. An error leaves nothing behind. -/
inductive OpenEnds (M : ShmHost) (process : Nat) (shmName : String) :
    ShmHost × Except String LiveRing → Prop
  | failed {e : String} : OpenEnds M process shmName (M, .error e)
  | opened {fd : RawFd} {ptr object : Nat} (hname : M.names.lookup shmName = some object)
      (hfd : M.fds.lookup (process, fd) = none) (hptr : M.maps.lookup (process, ptr) = none)
      (hheader : headerError (M.bytes object) = none)
      (hsize : headerSize ≤ (M.bytes object).length) {r : LiveRing}
      (hr : r = ⟨process, object, ⟨shmName, fd, ptr, (M.bytes object).length,
        load (M.bytes object) 8 8, false⟩⟩) :
      OpenEnds M process shmName (M.withRing r, .ok r)

private theorem openRing_ends {p : ShmHost × Except String LiveRing}
    (h : M.openRing process shmName a = some p) : OpenEnds M process shmName p := by
  unfold openRing at h
  split at h
  · cases h
    exact .failed
  · split at h
    · cases h
      exact .failed
    · cases h
    · rename_i fd object _ hname
      obtain ⟨N, hN, h⟩ := Option.bind_eq_some_iff.mp h
      obtain ⟨hfd, rfl⟩ := openFd_eq_some hN
      have hclose : (M.fds.insert (process, fd) object).erase (process, fd) = M.fds :=
        Table.erase_insert hfd object
      cases hsized : a.sized with
      | some e =>
        simp only [hsized] at h
        cases h
        simp only [closeFd, hclose]
        exact .failed
      | none =>
        simp only [hsized] at h
        split at h
        · cases h
          simp only [closeFd, hclose]
          exact .failed
        · rename_i hsize
          split at h
          · cases h
            simp only [closeFd, hclose]
            exact .failed
          · rename_i ptr _
            obtain ⟨N, hN, h⟩ := Option.bind_eq_some_iff.mp h
            obtain ⟨hptr, rfl⟩ := mapAt_eq_some hN
            split at h
            · cases h
              simp only [closeFd, unmap, hclose, Table.erase_insert hptr object]
              exact .failed
            · rename_i hheader
              cases h
              exact .opened hname hfd hptr hheader (Nat.le_of_not_lt hsize) rfl

/-! ## All mappings of an object see one ring -/

/-- A capacity for which the sum with the header does not wrap. -/
def Label.Fits : Label → Prop
  | .create _ _ capacity _ => headerSize + capacity < 2 ^ 64
  | .createKilled _ _ capacity _ _ => headerSize + capacity < 2 ^ 64
  | _ => True

/-- The bytes of an object that is no ring. -/
inductive Stage.Shows : Stage → List UInt8 → Prop
  | bare : Stage.Shows .bare []
  | zeros {size : Nat} (hsize : headerSize ≤ size) : Stage.Shows .zeros (List.replicate size 0)
  | magic {size : Nat} (hsize : headerSize ≤ size) : Stage.Shows .magic (marked size)

/-- What `open` says to it; the size is checked before. -/
def Stage.error : Stage → String
  | .bare => "Shared memory too small"
  | .zeros => "Invalid magic number"
  | .magic => "Unsupported version"

private theorem Stage.Shows.headerError {stage : Stage} {m : List UInt8} (h : stage.Shows m) :
    ∃ e, PtyDaemon.headerError m = some e := by
  cases h with
  | bare => exact ⟨_, headerError_replicate 0⟩
  | zeros => exact ⟨_, headerError_replicate _⟩
  | magic hsize => exact ⟨_, headerError_marked hsize⟩

/-- The note on a new object says what its bytes are. -/
inductive Describes (object : Nat) (m : List UInt8) : Note → Prop
  | made {capacity : Nat} (hm : Sound capacity m []) : Describes object m (.made object capacity)
  | left {stage : Stage} (hm : stage.Shows m) : Describes object m (.left object stage)

/-- What holds between two calls of whatever processes. -/
structure Coherent (x : Transition.Recorded ShmHost Note) : Prop where
  names : ∀ {shmName object}, x.state.names.lookup shmName = some object → object < x.state.count
  fresh : ∀ {object}, x.state.count ≤ object →
    madeWith object x.log = none ∧ leftAt object x.log = none ∧ callsOn object x.log = []
  left : ∀ {object}, object < x.state.count → madeWith object x.log = none →
    ∃ stage, leftAt object x.log = some stage ∧ stage.Shows (x.state.bytes object)
  made : ∀ {object capacity}, madeWith object x.log = some capacity →
    leftAt object x.log = none ∧ Sound capacity (x.state.bytes object) (streamOf object x.log)
  rings : ∀ {place r}, x.state.rings.lookup place = some r →
    madeWith r.object x.log = some r.mapping.capacity ∧
      r.mapping.mmapSize = (x.state.bytes r.object).length

variable {x x' : Transition.Recorded ShmHost Note} {r : LiveRing}

private theorem Coherent.lt_count (hx : Coherent x) (h : madeWith object x.log = some capacity) :
    object < x.state.count := by
  by_contra hge
  rw [(hx.fresh (Nat.le_of_not_lt hge)).1] at h
  cases h

private theorem Coherent.empty : Coherent ⟨empty, []⟩ where
  names h := by cases h
  fresh _ := ⟨rfl, rfl, rfl⟩
  left h := absurd h (Nat.not_lt_zero _)
  made h := by cases h
  rings h := by cases h

/-- Giving a name up, or dropping a ring. -/
theorem Coherent.fewer (hx : Coherent x)
    (hnames : ∀ {shmName object}, M.names.lookup shmName = some object →
      x.state.names.lookup shmName = some object)
    (hrings : ∀ {place r}, M.rings.lookup place = some r → x.state.rings.lookup place = some r)
    (hobjects : M.objects = x.state.objects) (hcount : M.count = x.state.count) :
    Coherent ⟨M, x.log⟩ := by
  have hbytes : ∀ o, M.bytes o = x.state.bytes o := fun o => by rw [bytes, hobjects, bytes]
  refine ⟨?_, ?_, ?_, ?_, ?_⟩
  · intro shmName object h
    exact hcount ▸ hx.names (hnames h)
  · intro object h
    exact hx.fresh (hcount ▸ h)
  · intro object hlt h
    rw [hbytes]
    exact hx.left (hcount ▸ hlt) h
  · intro object capacity h
    exact (hbytes object).symm ▸ hx.made h
  · intro place r h
    obtain ⟨hmade, hsize⟩ := hx.rings (hrings h)
    exact ⟨hmade, hsize.trans (congrArg List.length (hbytes r.object).symm)⟩

private theorem lookup_of_erase {κ α : Type} [DecidableEq κ] {t : Table κ α} {k k' : κ} {v : α}
    (h : (t.erase k).lookup k' = some v) : t.lookup k' = some v := by
  rw [Table.lookup_erase] at h
  split at h
  · cases h
  · exact h

private theorem lookup_renamed {t : Table String Nat} {name : String} {o n : Nat}
    (h : ((t.erase shmName).insert shmName n).lookup name = some o) :
    o = n ∨ t.lookup name = some o := by
  rw [Table.lookup_insert, Table.lookup_erase] at h
  split at h
  · cases h
    exact .inl rfl
  · exact .inr h

/-- A note on one object is none on another. -/
theorem Describes.elsewhere {m : List UInt8} {n : Note} (h : Describes object m n) {o : Nat}
    (hne : o ≠ object) (log : List Note) :
    madeWith o (n :: log) = madeWith o log ∧ leftAt o (n :: log) = leftAt o log ∧
      callsOn o (n :: log) = callsOn o log := by
  cases h with
  | made => exact ⟨if_neg (Ne.symm hne), rfl, rfl⟩
  | left => exact ⟨rfl, if_neg (Ne.symm hne), rfl⟩

/-- A new object gets a name. -/
theorem Coherent.added (hx : Coherent x) (shmName : String) {m : List UInt8} {n : Note}
    (hn : Describes x.state.count m n) : Coherent ⟨x.state.named shmName m, n :: x.log⟩ := by
  obtain ⟨hunmade, hunleft, huncalled⟩ := hx.fresh (Nat.le_refl x.state.count)
  refine ⟨?_, ?_, ?_, ?_, ?_⟩
  · intro name object h
    rcases lookup_renamed h with rfl | h
    · exact Nat.lt_succ_self _
    · exact Nat.lt_succ_of_lt (hx.names h)
  · intro object h
    obtain ⟨hmade, hleft, hcalls⟩ := hn.elsewhere (Nat.lt_of_succ_le h).ne' x.log
    rw [hmade, hleft, hcalls]
    exact hx.fresh (Nat.le_of_succ_le h)
  · intro object hlt h
    rw [bytes_named]
    by_cases ho : object = x.state.count
    · subst ho
      rw [if_pos rfl]
      cases hn with
      | made hm =>
        rw [madeWith, if_pos rfl] at h
        cases h
      | left hm => exact ⟨_, if_pos rfl, hm⟩
    · obtain ⟨hmade, hleft, _⟩ := hn.elsewhere ho x.log
      rw [if_neg ho, hleft]
      exact hx.left (Nat.lt_of_le_of_ne (Nat.le_of_lt_succ hlt) ho) (hmade ▸ h)
  · intro object capacity h
    rw [bytes_named]
    by_cases ho : object = x.state.count
    · subst ho
      rw [if_pos rfl]
      cases hn with
      | made hm =>
        rw [madeWith, if_pos rfl] at h
        cases h
        refine ⟨hunleft, ?_⟩
        rw [streamOf, callsOn, huncalled]
        exact hm
      | left hm =>
        rw [madeWith, hunmade] at h
        cases h
    · obtain ⟨hmade, hleft, hcalls⟩ := hn.elsewhere ho x.log
      rw [if_neg ho, hleft, streamOf, hcalls]
      exact hx.made (hmade ▸ h)
  · intro place r h
    obtain ⟨hmade, hsize⟩ := hx.rings h
    have ho := (hx.lt_count hmade).ne
    rw [(hn.elsewhere ho x.log).1, bytes_named, if_neg ho]
    exact ⟨hmade, hsize⟩

/-- A process maps an object of which there is a ring. -/
theorem Coherent.withRing (hx : Coherent x)
    (hmade : madeWith r.object x.log = some r.mapping.capacity)
    (hsize : r.mapping.mmapSize = (x.state.bytes r.object).length) :
    Coherent ⟨x.state.withRing r, x.log⟩ := by
  refine ⟨hx.names, hx.fresh, hx.left, hx.made, ?_⟩
  intro p q hq
  rw [lookup_withRing] at hq
  split at hq
  · cases hq
    exact ⟨hmade, hsize⟩
  · exact hx.rings hq

/-- The header as far as its stores have gone. -/
theorem describes_header (hzero : mmapSizeFor page capacity ≠ 0)
    (hsize : mmapSizeFor page capacity < 2 ^ 63) (hsum : headerSize + capacity < 2 ^ 64)
    (object stores : Nat) :
    Describes object (partHeader stores (List.replicate (mmapSizeFor page capacity) 0) capacity)
      (.header object capacity stores) := by
  have hfits : headerSize + capacity ≤ mmapSizeFor page capacity :=
    SharedRingBuffer.mmapSizeFor_ge hzero hsum
  have hheader : headerSize ≤ mmapSizeFor page capacity := by omega
  match stores with
  | 0 => exact .left (.zeros hheader)
  | 1 => exact .left (.magic hheader)
  | 2 =>
    rw [partHeader_version hheader]
    exact .made (headed_sound hheader hsize)
  | stores + 3 =>
    rw [partHeader_headed hheader (Nat.le_add_left 3 stores)]
    exact .made (headed_sound hfits hsize)

/-- A process writes to an object or clears it. -/
theorem Coherent.call (hx : Coherent x) (hr : x.state.rings.lookup place = some r)
    {c : SharedRingBuffer.Call} {m : List UInt8}
    (hm : Sound r.mapping.capacity m (c.stream (streamOf r.object x.log)))
    (hlength : m.length = (x.state.bytes r.object).length) :
    Coherent ⟨x.state.setBytes r.object m, .call r.object c :: x.log⟩ := by
  obtain ⟨hmade, _⟩ := hx.rings hr
  have hne : ∀ {o}, madeWith o x.log = none → o ≠ r.object := by
    rintro o ho rfl
    rw [hmade] at ho
    cases ho
  refine ⟨?_, ?_, ?_, ?_, ?_⟩
  · intro name object h
    exact hx.names h
  · intro object h
    obtain ⟨hnone, hunleft, hcalls⟩ := hx.fresh h
    exact ⟨hnone, hunleft, (if_neg (Ne.symm (hne hnone))).trans hcalls⟩
  · intro object hlt h
    rw [bytes_setBytes, if_neg (hne h)]
    exact hx.left hlt h
  · intro object cap h
    obtain ⟨hunleft, hsound⟩ := hx.made h
    refine ⟨hunleft, ?_⟩
    rw [bytes_setBytes, streamOf, callsOn]
    by_cases ho : object = r.object
    · subst ho
      cases hmade.symm.trans h
      rw [if_pos rfl, if_pos rfl]
      exact hm
    · rw [if_neg ho, if_neg (Ne.symm ho)]
      exact hsound
  · intro p q hq
    obtain ⟨hqmade, hqsize⟩ := hx.rings hq
    refine ⟨hqmade, ?_⟩
    rw [bytes_setBytes]
    split
    · rename_i ho
      rw [hqsize, ho, hlength]
    · exact hqsize

/-- What is left where `create` ends before the mapping. -/
theorem Coherent.unmapped (hx : Coherent x) (hsum : headerSize + capacity < 2 ^ 64) {stores : Nat}
    {notes : List Note} {e : String}
    (h : MappingEnds page x.state process shmName capacity stores notes (M, .error e)) :
    Coherent ⟨M, notes ++ x.log⟩ := by
  cases h with
  | unnamed => exact hx
  | unopened => exact hx.fewer lookup_of_erase id rfl rfl
  | bare => exact hx.added shmName (.left .bare)
  | zeros hzero =>
    have hfits : headerSize + capacity ≤ mmapSizeFor page capacity :=
      SharedRingBuffer.mmapSizeFor_ge hzero hsum
    exact hx.added shmName (.left (.zeros (by omega)))

private theorem Coherent.create (hx : Coherent x) (hsum : headerSize + capacity < 2 ^ 64)
    {p : ShmHost × Except String LiveRing}
    (h : x.state.create page process shmName capacity a = some p) :
    Coherent ⟨p.1, x.state.createNote page shmName capacity a (headerStores capacity).length ++
      x.log⟩ := by
  obtain ⟨⟨N, result⟩, hmapping, rfl⟩ := Option.map_eq_some_iff.mp h
  have hends := createMapping_ends hmapping (headerStores capacity).length
  generalize x.state.createNote page shmName capacity a (headerStores capacity).length = notes
    at hends ⊢
  cases result with
  | error e => exact hx.unmapped hsum hends
  | ok r =>
    cases hends with
    | mapped hfd hptr hzero hsize hr =>
      have hobject : r.object = x.state.count := by rw [hr]
      have hheader : headerSize ≤ mmapSizeFor page capacity :=
        SharedRingBuffer.header_le_mmapSizeFor hzero
      have hadded := hx.added shmName
        (describes_header hzero hsize hsum x.state.count (headerStores capacity).length)
      have hmade : madeWith r.object (.header x.state.count capacity
          (headerStores capacity).length :: x.log) = some r.mapping.capacity := by
        rw [hr]
        exact if_pos rfl
      have hlength : r.mapping.mmapSize = ((x.state.named shmName (partHeader
          (headerStores capacity).length (List.replicate (mmapSizeFor page capacity) 0)
            capacity)).bytes r.object).length := by
        rw [hobject, bytes_named, if_pos rfl, partHeader_headed hheader (three_le_headerStores capacity),
          headed_length hheader, hr]
      simp only [bytes_holding _ _ _ hobject, setBytes_holding _ _ _ _ hobject]
      exact hadded.withRing hmade hlength

private theorem Coherent.createKilled (hx : Coherent x) (hsum : headerSize + capacity < 2 ^ 64)
    {stores : Nat} (h : x.state.createKilled page process shmName capacity a stores = some M) :
    Coherent ⟨M, x.state.createNote page shmName capacity a stores ++ x.log⟩ := by
  obtain ⟨⟨N, result⟩, hmapping, rfl⟩ := Option.map_eq_some_iff.mp h
  have hends := createMapping_ends hmapping stores
  generalize x.state.createNote page shmName capacity a stores = notes at hends ⊢
  cases result with
  | error e => exact hx.unmapped hsum hends
  | ok r =>
    cases hends with
    | @mapped fd ptr hfd hptr hzero hsize _ hr =>
      have hobject : r.object = x.state.count := by rw [hr]
      have hprocess : process = r.process := by rw [hr]
      have hback := fun m => @unmap_holding (x.state.named shmName m) r (by rw [hr]; exact hfd)
        (by rw [hr]; exact hptr)
      simp only [bytes_holding _ _ _ hobject, setBytes_holding _ _ _ _ hobject, hprocess, hback]
      exact hx.added shmName (describes_header hzero hsize hsum x.state.count stores)

private theorem Coherent.step (hx : Coherent x) {label : Label} (hfits : label.Fits)
    (h : (recorded page).step x label = some x') : Coherent x' := by
  obtain ⟨hs, hlog⟩ := Transition.System.step_record h
  obtain ⟨M, log⟩ := x'
  simp only at hs hlog
  subst hlog
  cases label with
  | create process shmName capacity a =>
    obtain ⟨p, hp, rfl⟩ := Option.map_eq_some_iff.mp hs
    exact hx.create hfits hp
  | createKilled process shmName capacity a stores => exact hx.createKilled hfits hs
  | openRing process shmName a =>
    obtain ⟨p, hp, rfl⟩ := Option.map_eq_some_iff.mp hs
    cases openRing_ends hp with
    | failed => exact hx
    | @opened fd ptr object hname hfd hptr hheader hsize r hr =>
      obtain ⟨capacity, hmade⟩ : ∃ capacity, madeWith object x.log = some capacity := by
        apply Option.ne_none_iff_exists'.mp
        intro hnone
        obtain ⟨stage, _, hshows⟩ := hx.left (hx.names hname) hnone
        obtain ⟨e, he⟩ := hshows.headerError
        rw [he] at hheader
        cases hheader
      have hstored := (hx.made hmade).2.stored
      rw [hr]
      exact hx.withRing (hmade.trans (congrArg some hstored.symm)) rfl
  | write place data =>
    obtain ⟨r, hr, rfl⟩ := Option.map_eq_some_iff.mp hs
    obtain ⟨_, hsound⟩ := hx.made (hx.rings hr).1
    simp only [note, hr, List.singleton_append]
    exact hx.call hr (hsound.write data)
      (write_outside hsound.fits hsound.writePos_le data).length
  | clear place =>
    obtain ⟨r, hr, rfl⟩ := Option.map_eq_some_iff.mp hs
    obtain ⟨_, hsound⟩ := hx.made (hx.rings hr).1
    simp only [note, hr, List.singleton_append]
    exact hx.call hr hsound.clear (clear_outside hsound.fits).length
  | unlink place =>
    obtain ⟨r, hr, rfl⟩ := Option.map_eq_some_iff.mp hs
    exact hx.fewer lookup_of_erase id rfl rfl
  | drop place =>
    obtain ⟨r, hr, rfl⟩ := Option.map_eq_some_iff.mp hs
    exact hx.fewer id lookup_of_erase rfl rfl

/-- The runs in which no sum with the header wraps. -/
abbrev Reaches (page : PageSize) (x : Transition.Recorded ShmHost Note) : Prop :=
  (recorded page).Reach (fun _ label => label.Fits) x

private theorem coherent (hx : Reaches page x) : Coherent x := by
  apply Transition.System.Reach.invariant _ _ hx
  · rintro ⟨M, log⟩ ⟨hM, hlog⟩
    cases hM
    cases hlog
    exact .empty
  · intro y label y' hy hfits hstep
    exact hy.step hfits hstep

instance (label : Label) : Decidable label.Fits := by
  cases label <;> unfold Label.Fits <;> infer_instance

/-- The daemon makes a ring of four bytes, a client opens it, and both write; meanwhile a second
daemon is killed when it has stored the version of another one. -/
def twoWriters : List Label :=
  [.create 0 "/ptyd-0" 4 ⟨.ok 5, none, .ok 0⟩, .openRing 1 "/ptyd-0" ⟨.ok 5, none, .ok 0⟩,
    .write (0, 0) [1, 2, 3], .createKilled 2 "/ptyd-1" 4 ⟨.ok 5, none, .ok 0⟩ 2,
    .write (1, 0) [4, 5]]

private theorem twoWriters_run :
    ((recorded page4096).execWhere (fun _ label => label.Fits) ⟨empty, []⟩
      twoWriters).isSome = true := by
  decide +kernel

def twoWritersEnd : Transition.Recorded ShmHost Note :=
  ((recorded page4096).execWhere (fun _ label => label.Fits) ⟨empty, []⟩ twoWriters).get twoWriters_run

theorem twoWritersEnd_reached : Reaches page4096 twoWritersEnd :=
  have hinit : (recorded page4096).init ⟨empty, []⟩ := ⟨rfl, rfl⟩
  Transition.System.Reach.execWhere (.start hinit) (Option.some_get twoWriters_run).symm

/-- What `create` makes in the object is the ring that `SharedRingBuffer.create` makes, also where the
sum with the header wraps. -/
private theorem create_ring {r : LiveRing}
    (h : M.create page process shmName capacity a = some (M', .ok r)) :
    SharedRingBuffer.create page capacity = some (ringIn (M'.bytes r.object) capacity) := by
  obtain ⟨⟨N, result⟩, hmapping, hmade⟩ := Option.map_eq_some_iff.mp h
  cases result with
  | error e => cases hmade
  | ok r' =>
    cases hmade
    have hends := createMapping_ends hmapping 0
    generalize M.createNote page shmName capacity a 0 = notes at hends
    cases hends with
    | mapped _ _ hzero hsize hr =>
      have hobject : r.object = M.count := by rw [hr]
      have hheader : headerSize ≤ mmapSizeFor page capacity :=
        SharedRingBuffer.header_le_mmapSizeFor hzero
      have hinit : initHeader (List.replicate (mmapSizeFor page capacity) 0) capacity =
          headed (mmapSizeFor page capacity) capacity :=
        partHeader_headed hheader (three_le_headerStores capacity) capacity
      have hbytes := bytes_holding M shmName (headed (mmapSizeFor page capacity) capacity) hobject
      simp only [bytes_holding _ _ _ hobject, setBytes_holding _ _ _ _ hobject, hinit]
      rw [SharedRingBuffer.create, if_neg (by omega), ← ringIn_headed hheader]
      exact congrArg (fun m => some (ringIn m capacity)) hbytes.symm

theorem dump_mapping (hx : Reaches page x)
    (hr : x.state.rings.lookup place = some r)
    (htotal : (streamOf r.object x.log).length < 2 ^ 64) :
    r.mapping.dump (x.state.bytes r.object) =
      some ((streamOf r.object x.log).rtake r.mapping.capacity) := by
  have hcoherent := coherent hx
  rw [dump_ringIn]
  exact (hcoherent.made (hcoherent.rings hr).1).2.holds.dump htotal

/-- `create` makes in an object what `SharedRingBuffer.create` makes. Through every mapping of an
object, in whatever process, the end of the same stream is read. Its capacity is that with which the
object has been made, and it is as large as the object, so that all its mappings agree. -/
theorem mappings_agree (hx : Reaches page x)
    (hr : x.state.rings.lookup place = some r)
    (htotal : (streamOf r.object x.log).length < 2 ^ 64) :
    (∀ process shmName capacity a M made,
      x.state.create page process shmName capacity a = some (M, .ok made) →
        SharedRingBuffer.create page capacity = some (ringIn (M.bytes made.object) capacity)) ∧
      let m := x.state.bytes r.object
      let S := streamOf r.object x.log
      r.mapping.dump m = some (S.rtake r.mapping.capacity) ∧
        r.mapping.len m = min S.length r.mapping.capacity ∧
        (∀ last, r.mapping.readSince m last =
          some (if last < S.length then (S.drop (max last (S.length - r.mapping.capacity)), S.length)
            else ([], S.length))) ∧
        madeWith r.object x.log = some r.mapping.capacity ∧ r.mapping.mmapSize = m.length ∧
        ∀ place' r', x.state.rings.lookup place' = some r' → r'.object = r.object →
          r'.mapping.capacity = r.mapping.capacity ∧ r'.mapping.mmapSize = r.mapping.mmapSize := by
  have hcoherent := coherent hx
  obtain ⟨hmade, hsize⟩ := hcoherent.rings hr
  have hsound := (hcoherent.made hmade).2
  refine ⟨fun _ _ _ _ _ _ => create_ring, dump_mapping hx hr htotal, ?_, ?_, hmade, hsize, ?_⟩
  · rw [len_ringIn]
    exact hsound.holds.len htotal
  · intro last
    rw [readSince_ringIn hsound.small hsound.writePos_le]
    exact hsound.holds.readSince htotal last
  · intro place' r' hr' hobject
    obtain ⟨hmade', hsize'⟩ := hcoherent.rings hr'
    rw [hobject, hmade] at hmade'
    rw [hsize', hobject, hsize]
    exact ⟨(Option.some.inj hmade').symm, rfl⟩

theorem mappings_agree_client :
    Mapping.dump ⟨"/ptyd-0", 5, 0, 4096, 4, true⟩ (twoWritersEnd.state.bytes 0) =
      some [2, 3, 4, 5] := by
  have hr : twoWritersEnd.state.rings.lookup (0, 0) =
      some ⟨0, 0, ⟨"/ptyd-0", 5, 0, 4096, 4, true⟩⟩ := by decide +kernel
  have hlen : (streamOf 0 twoWritersEnd.log).length < 2 ^ 64 := by decide +kernel
  have hdump := (mappings_agree twoWritersEnd_reached hr hlen).2.1
  exact hdump.trans (by decide +kernel)

/-- A name can be opened once its object has got its version, whatever has been written to it since,
with the capacity that has been stored; before that the object has no bytes, or no magic number, or
no version, and nothing is left of the attempt. -/
theorem open_complete (hx : Reaches page x) (hname : badName shmName = false)
    (hobject : x.state.names.lookup shmName = some object) (hfd : a.shmOpen = .ok fd)
    (hfree : x.state.fds.lookup (process, fd) = none) (hsized : a.sized = none)
    (hmmap : a.mmap = .ok ptr) (hunmapped : x.state.maps.lookup (process, ptr) = none) :
    (∀ capacity, madeWith object x.log = some capacity →
        x.state.openRing process shmName a =
          some (x.state.withRing ⟨process, object,
              ⟨shmName, fd, ptr, (x.state.bytes object).length, capacity, false⟩⟩,
            .ok ⟨process, object,
              ⟨shmName, fd, ptr, (x.state.bytes object).length, capacity, false⟩⟩)) ∧
      (∀ stage, leftAt object x.log = some stage →
        x.state.openRing process shmName a = some (x.state, .error stage.error)) ∧
      (madeWith object x.log = none ↔ ∃ stage, leftAt object x.log = some stage) := by
  have hcoherent := coherent hx
  have hbytes : ∀ fds maps, ({ x.state with fds := fds, maps := maps } : ShmHost).bytes object =
      x.state.bytes object := fun _ _ => rfl
  have hclose : (x.state.fds.insert (process, fd) object).erase (process, fd) = x.state.fds :=
    Table.erase_insert hfree object
  have hunmade : ∀ {stage}, leftAt object x.log = some stage → madeWith object x.log = none := by
    intro stage hleft
    by_contra hmade
    obtain ⟨capacity, hmade⟩ := Option.ne_none_iff_exists'.mp hmade
    rw [(hcoherent.made hmade).1] at hleft
    cases hleft
  refine ⟨?_, ?_, ?_, ?_⟩
  · intro capacity hmade
    have hsound := (hcoherent.made hmade).2
    have hfits := hsound.fits
    rw [openRing, if_neg (by simp [hname]), hfd, hobject]
    simp only [openFd, hfree, if_true, Option.bind_some, hsized, hbytes, hmmap, mapAt, hunmapped,
      hsound.headerError, hsound.stored]
    rw [if_neg (by omega)]
    rfl
  · intro stage hleft
    obtain ⟨_, hstage, hshows⟩ := hcoherent.left (hcoherent.names hobject) (hunmade hleft)
    cases hleft.symm.trans hstage
    rw [openRing, if_neg (by simp [hname]), hfd, hobject]
    simp only [openFd, hfree, if_true, Option.bind_some, hsized, hbytes, hmmap, mapAt, hunmapped]
    generalize x.state.bytes object = m at hshows
    cases hshows with
    | bare =>
      rw [if_pos (by decide)]
      simp only [closeFd, hclose]
      rfl
    | zeros hsize =>
      rw [if_neg (by rw [List.length_replicate]; omega), headerError_replicate]
      simp only [closeFd, unmap, hclose, Table.erase_insert hunmapped object]
      rfl
    | magic hsize =>
      rw [if_neg (by rw [marked_length hsize]; omega), headerError_marked hsize]
      simp only [closeFd, unmap, hclose, Table.erase_insert hunmapped object]
      rfl
  · intro hnone
    obtain ⟨stage, hstage, _⟩ := hcoherent.left (hcoherent.names hobject) hnone
    exact ⟨stage, hstage⟩
  · rintro ⟨stage, hstage⟩
    exact hunmade hstage

/-- The second daemon has not come to the capacity of its ring. -/
theorem open_complete_client :
    (twoWritersEnd.state.openRing 2 "/ptyd-1" ⟨.ok 7, none, .ok 2⟩).map (·.2) =
      some (.ok ⟨2, 1, ⟨"/ptyd-1", 7, 2, 4096, 0, false⟩⟩) := by
  have hobject : twoWritersEnd.state.names.lookup "/ptyd-1" = some 1 := by decide +kernel
  have hmade : madeWith 1 twoWritersEnd.log = some 0 := by decide +kernel
  have hsize : (twoWritersEnd.state.bytes 1).length = 4096 := by decide +kernel
  have hfd : (MapAnswers.mk (.ok 7) none (.ok 2)).shmOpen = .ok 7 := rfl
  have hfree : twoWritersEnd.state.fds.lookup (2, 7) = none := by decide +kernel
  have hunmapped : twoWritersEnd.state.maps.lookup (2, 2) = none := by decide +kernel
  have hname : badName "/ptyd-1" = false := by decide +kernel
  have hopen := (open_complete twoWritersEnd_reached hname hobject hfd hfree rfl rfl
    hunmapped).1 0 hmade
  rw [hopen, hsize]
  rfl

/-! ## From one call to a later one -/

/-- What is noted of a new object is noted of no other. -/
theorem madeWith_createNote {stores : Nat} (hne : object ≠ M.count) (log : List Note) :
    madeWith object (M.createNote page shmName capacity a stores ++ log) =
      madeWith object log := by
  unfold createNote
  split
  · rfl
  · split
    · rfl
    · rfl
    · rfl
    · unfold Note.header
      split
      · rfl
      · rfl
      · exact if_neg (Ne.symm hne)
      · exact if_neg (Ne.symm hne)

/-- An object keeps the capacity it has been made with. -/
theorem Coherent.madeWith_step (hx : Coherent x) {label : Label}
    (h : (recorded page).step x label = some x') (hmade : madeWith object x.log = some capacity) :
    madeWith object x'.log = some capacity := by
  obtain ⟨_, hlog⟩ := Transition.System.step_record h
  have hne := (hx.lt_count hmade).ne
  rw [hlog]
  cases label with
  | create => exact (madeWith_createNote hne _).trans hmade
  | createKilled => exact (madeWith_createNote hne _).trans hmade
  | write place data =>
    rw [note]
    split
    · exact hmade
    · exact hmade
  | clear place =>
    rw [note]
    split
    · exact hmade
    · exact hmade
  | _ => exact hmade

private theorem madeWith_exec (hx : Reaches page x) {labels : List Label}
    (hfits : ∀ label ∈ labels, label.Fits) {y : Transition.Recorded ShmHost Note}
    (h : (recorded page).exec x labels = some y) (hmade : madeWith object x.log = some capacity) :
    Reaches page y ∧ madeWith object y.log = some capacity := by
  induction labels generalizing x with
  | nil =>
    cases h
    exact ⟨hx, hmade⟩
  | cons label labels ih =>
    obtain ⟨z, hz, h⟩ := Option.bind_eq_some_iff.mp h
    obtain ⟨hlabel, hlabels⟩ := List.forall_mem_cons.mp hfits
    exact ih (hx.next hlabel hz) hlabels h ((coherent hx).madeWith_step hz hmade)

private theorem foldl_writes (S : List UInt8) (blocks : List (List UInt8)) :
    (blocks.map SharedRingBuffer.Call.write).foldl (fun S c => c.stream S) S =
      S ++ blocks.flatten := by
  induction blocks generalizing S with
  | nil => exact (List.append_nil S).symm
  | cons block blocks ih =>
    rw [List.map_cons, List.foldl_cons, ih, List.flatten_cons, ← List.append_assoc]
    rfl

/-- Writes alone make the stream grow. -/
theorem streamOf_writes {log log' : List Note} {blocks : List (List UInt8)}
    (h : callsOn object log' =
      (blocks.map SharedRingBuffer.Call.write).reverse ++ callsOn object log) :
    streamOf object log' = streamOf object log ++ blocks.flatten := by
  rw [streamOf, h, List.foldr_append, List.foldr_reverse, foldl_writes, streamOf]

/-- A process writes one block after another. -/
theorem exec_writes (hr : x.state.rings.lookup place = some r) (blocks : List (List UInt8)) :
    ∃ y, (recorded page).exec x (blocks.map (Label.write place)) = some y ∧
      callsOn r.object y.log =
        (blocks.map SharedRingBuffer.Call.write).reverse ++ callsOn r.object x.log := by
  induction blocks generalizing x with
  | nil => exact ⟨x, rfl, rfl⟩
  | cons block blocks ih =>
    have hstep : (recorded page).step x (.write place block) =
        some ⟨x.state.setBytes r.object (r.mapping.write (x.state.bytes r.object) block),
          .call r.object (.write block) :: x.log⟩ := by
      simp [recorded, Transition.System.record, system, ShmHost.step, note, hr]
    obtain ⟨y, hy, hcalls⟩ := @ih ⟨x.state.setBytes r.object
      (r.mapping.write (x.state.bytes r.object) block), .call r.object (.write block) :: x.log⟩ hr
    refine ⟨y, ?_, ?_⟩
    · rw [List.map_cons, Transition.System.exec, hstep]
      exact hy
    · rw [hcalls, callsOn, if_pos rfl, List.map_cons, List.reverse_cons, List.append_assoc]
      rfl

/-- While nobody else writes to an object or clears it, every mapping of it has in the end what was
there and the blocks of the one writer. -/
theorem dump_after (hx : Reaches page x) (hr : x.state.rings.lookup place = some r)
    {labels : List Label} (hfits : ∀ label ∈ labels, label.Fits)
    {y : Transition.Recorded ShmHost Note} (hy : (recorded page).exec x labels = some y)
    {blocks : List (List UInt8)}
    (hcalls : callsOn r.object y.log =
      (blocks.map SharedRingBuffer.Call.write).reverse ++ callsOn r.object x.log)
    (htotal : (streamOf r.object x.log ++ blocks.flatten).length < 2 ^ 64) {place' : Place}
    {r' : LiveRing} (hr' : y.state.rings.lookup place' = some r') (hobject : r'.object = r.object) :
    r'.mapping.dump (y.state.bytes r.object) =
      some ((streamOf r.object x.log ++ blocks.flatten).rtake r.mapping.capacity) := by
  obtain ⟨hreaches, hkept⟩ := madeWith_exec hx hfits hy ((coherent hx).rings hr).1
  have hmade := ((coherent hreaches).rings hr').1
  rw [hobject, hkept] at hmade
  have hstream := streamOf_writes hcalls
  have hdump := dump_mapping hreaches hr' (by rw [hobject, hstream]; exact htotal)
  rw [hobject, hstream, ← Option.some.inj hmade] at hdump
  exact hdump

/-! ## Descriptors and mappings -/

/-- The descriptors and mappings of the processes are those of their live rings. -/
structure Books (M : ShmHost) : Prop where
  own : ∀ {place r}, M.rings.lookup place = some r → r.place = place
  fds : ∀ {process fd object}, M.fds.lookup (process, fd) = some object ↔
    ∃ place r, M.rings.lookup place = some r ∧ r.process = process ∧ r.mapping.shmFd = fd ∧
      r.object = object
  apart : ∀ {place place' r r'}, M.rings.lookup place = some r → M.rings.lookup place' = some r' →
    r.process = r'.process → r.mapping.shmFd = r'.mapping.shmFd → place = place'
  maps : ∀ {place object}, M.maps.lookup place = some object ↔
    ∃ r, M.rings.lookup place = some r ∧ r.object = object

private theorem Books.empty : Books empty where
  own h := by cases h
  fds := by
    intro process fd object
    constructor
    · intro h
      cases h
    · rintro ⟨place, r, h, _⟩
      cases h
  apart h := by cases h
  maps := by
    intro place object
    constructor
    · intro h
      cases h
    · rintro ⟨r, h, _⟩
      cases h

/-- Names and bytes are not in the books. -/
theorem Books.congr {N : ShmHost} (hM : Books M) (hfds : N.fds = M.fds) (hmaps : N.maps = M.maps)
    (hrings : N.rings = M.rings) : Books N where
  own h := hM.own (hrings ▸ h)
  fds := by
    rw [hfds, hrings]
    exact hM.fds
  apart h h' := hM.apart (hrings ▸ h) (hrings ▸ h')
  maps := by
    rw [hmaps, hrings]
    exact hM.maps

/-- A new ring takes a descriptor and an address that are free. -/
theorem Books.withRing (hM : Books M)
    (hfd : M.fds.lookup (r.process, r.mapping.shmFd) = none)
    (hplace : M.maps.lookup r.place = none) : Books (M.withRing r) := by
  have hnone : M.rings.lookup r.place = none := by
    by_contra hsome
    obtain ⟨q, hq⟩ := Option.ne_none_iff_exists'.mp hsome
    rw [hM.maps.mpr ⟨q, hq, rfl⟩] at hplace
    cases hplace
  have hother : ∀ {p q}, M.rings.lookup p = some q → p ≠ r.place := by
    rintro p q hq rfl
    rw [hnone] at hq
    cases hq
  have hfdother : ∀ {p q}, M.rings.lookup p = some q → q.process = r.process →
      q.mapping.shmFd ≠ r.mapping.shmFd := by
    intro p q hq hprocess hsame
    have hheld : M.fds.lookup (r.process, r.mapping.shmFd) = some q.object :=
      hM.fds.mpr ⟨p, q, hq, hprocess, hsame, rfl⟩
    rw [hfd] at hheld
    cases hheld
  refine ⟨?_, ?_, ?_, ?_⟩
  · intro p q hq
    rw [lookup_withRing] at hq
    split at hq
    · rename_i hp
      cases hq
      exact hp.symm
    · exact hM.own hq
  · intro process fd object
    have hlookup : (M.withRing r).fds.lookup (process, fd) =
        if (process, fd) = (r.process, r.mapping.shmFd) then some r.object
        else M.fds.lookup (process, fd) := Table.lookup_insert _ _ _ _
    rw [hlookup]
    constructor
    · intro h
      split at h
      · rename_i hkey
        cases h
        cases hkey
        exact ⟨_, r, by rw [lookup_withRing, if_pos rfl], rfl, rfl, rfl⟩
      · obtain ⟨p, q, hq, hrest⟩ := hM.fds.mp h
        exact ⟨p, q, by rw [lookup_withRing, if_neg (hother hq), hq], hrest⟩
    · rintro ⟨p, q, hq, rfl, rfl, rfl⟩
      rw [lookup_withRing] at hq
      split at hq
      · cases hq
        rw [if_pos rfl]
      · rw [if_neg fun hkey => hfdother hq (congrArg Prod.fst hkey) (congrArg Prod.snd hkey)]
        exact hM.fds.mpr ⟨p, q, hq, rfl, rfl, rfl⟩
  · intro p p' q q' hq hq' hprocess hsame
    rw [lookup_withRing] at hq hq'
    split at hq
    · rename_i hp
      cases hq
      split at hq'
      · rename_i hp'
        rw [hp, hp']
      · exact absurd hsame.symm (hfdother hq' hprocess.symm)
    · split at hq'
      · cases hq'
        exact absurd hsame (hfdother hq hprocess)
      · exact hM.apart hq hq' hprocess hsame
  · intro p object
    have hlookup : (M.withRing r).maps.lookup p =
        if p = r.place then some r.object else M.maps.lookup p :=
      Table.lookup_insert _ _ _ _
    rw [hlookup, lookup_withRing]
    split
    · simp
    · exact hM.maps

/-- `Drop` gives back what the ring took. -/
theorem Books.dropRing (hM : Books M) (hr : M.rings.lookup place = some r) :
    Books (M.dropRing r) := by
  have hown := hM.own hr
  have hrings : ∀ p, (M.dropRing r).rings.lookup p =
      if p = place then none else M.rings.lookup p := by
    intro p
    rw [← hown]
    exact Table.lookup_erase _ _ _
  have hkept : ∀ {p q}, (M.dropRing r).rings.lookup p = some q ↔
      p ≠ place ∧ M.rings.lookup p = some q := by
    intro p q
    rw [hrings]
    by_cases hp : p = place <;> simp [hp]
  refine ⟨?_, ?_, ?_, ?_⟩
  · intro p q hq
    exact hM.own (hkept.mp hq).2
  · intro process fd object
    have hlookup : (M.dropRing r).fds.lookup (process, fd) =
        if (process, fd) = (r.process, r.mapping.shmFd) then none
        else M.fds.lookup (process, fd) := Table.lookup_erase _ _ _
    rw [hlookup]
    constructor
    · intro h
      split at h
      · cases h
      · rename_i hkey
        obtain ⟨p, q, hq, hprocess, hfd, hobject⟩ := hM.fds.mp h
        refine ⟨p, q, hkept.mpr ⟨?_, hq⟩, hprocess, hfd, hobject⟩
        rintro rfl
        cases hr.symm.trans hq
        exact hkey (Prod.ext hprocess.symm hfd.symm)
    · rintro ⟨p, q, hq, rfl, rfl, rfl⟩
      obtain ⟨hp, hq⟩ := hkept.mp hq
      rw [if_neg fun hkey =>
        hp (hM.apart hq hr (congrArg Prod.fst hkey) (congrArg Prod.snd hkey))]
      exact hM.fds.mpr ⟨p, q, hq, rfl, rfl, rfl⟩
  · intro p p' q q' hq hq'
    exact hM.apart (hkept.mp hq).2 (hkept.mp hq').2
  · intro p object
    have hlookup : (M.dropRing r).maps.lookup p = if p = place then none else M.maps.lookup p := by
      rw [← hown]
      exact Table.lookup_erase _ _ _
    rw [hlookup, hrings]
    split
    · simp
    · exact hM.maps

private theorem Books.unmapped (hM : Books M) {stores : Nat} {notes : List Note} {e : String}
    (h : MappingEnds page M process shmName capacity stores notes (M', .error e)) : Books M' := by
  cases h with
  | unnamed => exact hM
  | unopened => exact hM.congr rfl rfl rfl
  | bare => exact hM.congr rfl rfl rfl
  | zeros => exact hM.congr rfl rfl rfl

private theorem Books.create (hM : Books M) {p : ShmHost × Except String LiveRing}
    (h : M.create page process shmName capacity a = some p) : Books p.1 := by
  obtain ⟨⟨N, result⟩, hmapping, rfl⟩ := Option.map_eq_some_iff.mp h
  have hends := createMapping_ends hmapping 0
  generalize M.createNote page shmName capacity a 0 = notes at hends
  cases result with
  | error e => exact hM.unmapped hends
  | ok r =>
    cases hends with
    | mapped hfd hplace _ _ hr =>
      have hobject : r.object = M.count := by rw [hr]
      simp only [bytes_holding _ _ _ hobject, setBytes_holding _ _ _ _ hobject]
      have hnamed : Books (M.named shmName
          (initHeader (List.replicate (mmapSizeFor page capacity) 0) capacity)) :=
        hM.congr rfl rfl rfl
      exact hnamed.withRing (by rw [hr]; exact hfd) (by rw [hr]; exact hplace)

private theorem Books.createKilled (hM : Books M) {stores : Nat}
    (h : M.createKilled page process shmName capacity a stores = some M') : Books M' := by
  obtain ⟨⟨N, result⟩, hmapping, rfl⟩ := Option.map_eq_some_iff.mp h
  have hends := createMapping_ends hmapping stores
  generalize M.createNote page shmName capacity a stores = notes at hends
  cases result with
  | error e => exact hM.unmapped hends
  | ok r =>
    cases hends with
    | @mapped fd ptr hfd hplace _ _ _ hr =>
      have hobject : r.object = M.count := by rw [hr]
      have hprocess : process = r.process := by rw [hr]
      have hback := fun m => @unmap_holding (M.named shmName m) r (by rw [hr]; exact hfd)
        (by rw [hr]; exact hplace)
      simp only [bytes_holding _ _ _ hobject, setBytes_holding _ _ _ _ hobject, hprocess, hback]
      exact hM.congr rfl rfl rfl

private theorem Books.step (hM : Books M) {label : Label}
    (h : (system page).step M label = some M') :
    Books M' := by
  cases label with
  | create process shmName capacity a =>
    obtain ⟨p, hp, rfl⟩ := Option.map_eq_some_iff.mp h
    exact hM.create hp
  | createKilled process shmName capacity a stores => exact hM.createKilled h
  | openRing process shmName a =>
    obtain ⟨p, hp, rfl⟩ := Option.map_eq_some_iff.mp h
    cases openRing_ends hp with
    | failed => exact hM
    | opened hname hfd hplace hheader hsize hr =>
      exact hM.withRing (by rw [hr]; exact hfd) (by rw [hr]; exact hplace)
  | write place data =>
    obtain ⟨r, hr, rfl⟩ := Option.map_eq_some_iff.mp h
    exact hM.congr rfl rfl rfl
  | clear place =>
    obtain ⟨r, hr, rfl⟩ := Option.map_eq_some_iff.mp h
    exact hM.congr rfl rfl rfl
  | unlink place =>
    obtain ⟨r, hr, rfl⟩ := Option.map_eq_some_iff.mp h
    exact hM.congr rfl rfl rfl
  | drop place =>
    obtain ⟨r, hr, rfl⟩ := Option.map_eq_some_iff.mp h
    exact hM.dropRing hr

private theorem books (hM : (system page).Reachable M) : Books M := by
  apply Transition.System.Reach.invariant _ _ hM
  · rintro N rfl
    exact .empty
  · intro N label N' hN _ hstep
    exact hN.step hstep

/-- Whatever has failed on the way, every descriptor and every mapping of a shared object belongs to
exactly one ring that has not been dropped, and every such ring has its own. -/
theorem resources_owned (hM : (system page).Reachable M) :
    (∀ process fd object, M.fds.lookup (process, fd) = some object →
      ∃! place, ∃ r, M.rings.lookup place = some r ∧ r.process = process ∧ r.mapping.shmFd = fd ∧
        r.object = object) ∧
      (∀ place object, M.maps.lookup place = some object →
        ∃ r, M.rings.lookup place = some r ∧ r.place = place ∧ r.object = object) ∧
      ∀ place r, M.rings.lookup place = some r →
        place = (r.process, r.mapping.mmapPtr) ∧
          M.fds.lookup (r.process, r.mapping.shmFd) = some r.object ∧
          M.maps.lookup place = some r.object := by
  have hbooks := books hM
  refine ⟨?_, ?_, ?_⟩
  · intro process fd object h
    obtain ⟨place, r, hr, hprocess, hfd, hobject⟩ := hbooks.fds.mp h
    refine ⟨place, ⟨r, hr, hprocess, hfd, hobject⟩, ?_⟩
    rintro place' ⟨r', hr', hprocess', hfd', _⟩
    exact hbooks.apart hr' hr (hprocess'.trans hprocess.symm) (hfd'.trans hfd.symm)
  · intro place object h
    obtain ⟨r, hr, hobject⟩ := hbooks.maps.mp h
    exact ⟨r, hr, hbooks.own hr, hobject⟩
  · intro place r hr
    exact ⟨(hbooks.own hr).symm, hbooks.fds.mpr ⟨place, r, hr, rfl, rfl, rfl⟩,
      hbooks.maps.mpr ⟨r, hr, rfl⟩⟩

theorem resources_owned_client :
    ∃! place, ∃ r, twoWritersEnd.state.rings.lookup place = some r ∧ r.process = 1 ∧
      r.mapping.shmFd = 5 ∧ r.object = 0 :=
  (resources_owned twoWritersEnd_reached.unrecorded).1 1 5 0 (by decide +kernel)

end ShmHost

end PtyDaemon
