import Mathlib.Logic.Function.Basic
import Turbolite.Lib.Runs

/-!
# Turbolite.BrowserRefresh

The page caches of the browser client (`cache.ts`) while pages are read and manifests are swapped
(`index.ts`). The databases of one origin share its private file system. Everything between two awaits
is one step, so a run is any interleaving of the reads and refreshes of any number of databases.

A page is followed by where it was fetched: from which database, under which manifest. `refresh_coherent`
says that the caches of a database hold pages of its own manifest only, as long as no read puts what it
has fetched into a cache that has meanwhile been cleared for another manifest, and the databases do not
share directory names.
-/

namespace Turbolite.BrowserRefresh

open Runs

/-! ### Data -/

/-- A string without a slash at its end. -/
def trimSlash (s : String) : String :=
  if s.toList.getLast? = some '/' then .ofList s.toList.dropLast else s

/-- What requests are sent to. -/
structure Database where
  baseUrl : String
  keyPrefix : String
  deriving DecidableEq

/-- `TurboliteConfig`. -/
structure Config where
  baseUrl : String
  keyPrefix : String
  opfsCache : Bool
  deriving DecidableEq

/-- The URLs of the fetcher. -/
def Config.database (c : Config) : Database := ⟨trimSlash c.baseUrl, trimSlash c.keyPrefix⟩

/-- The directory of `init`: `dbName` and the version of the manifest. -/
def Config.dirName (c : Config) (version : Nat) : String :=
  let dbName : String := .ofList (c.keyPrefix.toList.map fun ch => if ch = '/' then '_' else ch)
  s!"{dbName}_v{version}"

section

variable (M : Type)

/-- A page with its origin. -/
structure Page where
  database : Database
  manifest : M
  page : Nat
  deriving DecidableEq

/-- A `writeOpfs` under way. -/
structure Write where
  dir : String
  page : Nat
  data : Page M

/-- Where a read is suspended. -/
inductive ReadPc where
  /-- in `readOpfs`, on the way to its file in this directory -/
  | opfs (dir : String)
  /-- in `getFile` -/
  | handle (dir : String)
  /-- in `arrayBuffer`, of what the file was -/
  | file (data : Page M)
  /-- in `fetchPagesForGroup` -/
  | fetch
  /-- in the writes of what it fetched -/
  | writes
  | returned (result : Option (Page M))

/-- A `getPageAsync`. -/
structure Read where
  page : Nat
  manifest : M
  pc : ReadPc M
  /-- no refresh has been in progress since it began; no step looks -/
  calm : Bool

/-- Where a refresh that has a new manifest is suspended. -/
inductive RefreshPc where
  /-- `clear`, on the way to the directory -/
  | clearing
  | removing (dir : String)
  | recreating (dir : String)
  | initing
  | prefetching

/-- A `refresh` under way: the manifest it goes to and where it is. -/
structure Refresh where
  target : M
  pc : RefreshPc

/-- A `TurboliteDB` with its cache. -/
structure Instance where
  config : Config
  manifest : M
  opened : Bool := false
  opfsDir : Option String := none
  memCache : Nat → Option (Page M) := fun _ => none
  reads : List (Read M) := []
  refreshes : List (Refresh M) := []
  /-- targets of refreshes that failed while some of their bundles were under way -/
  strays : List M := []

/-- The databases of an origin and its private file system. -/
structure Origin where
  opfs : String → Nat → Option (Page M) := fun _ _ => none
  writes : List (Write M) := []
  instances : List (Instance M) := []

/-- What happens next. `i` is an instance, `t` one of its reads or refreshes, `ok` whether the calls on
the file system succeed. -/
inductive Event where
  | open (config : Config) (manifest : M)
  | read (i page : Nat)
  | opfsHandle (i t : Nat) (ok : Bool)
  | opfsFile (i t : Nat) (ok : Bool)
  | opfsRead (i t : Nat) (ok : Bool)
  | fetched (i t : Nat) (pages : List Nat)
  | fetchFailed (i t : Nat)
  | writesDone (i t : Nat)
  | wrote (k : Nat)
  | writeFailed (k : Nat)
  | refresh (i : Nat) (manifest : M)
  | located (i t : Nat) (ok : Bool)
  | removed (i t : Nat) (ok : Bool)
  | recreated (i t : Nat) (ok : Bool)
  | inited (i t : Nat) (ok : Bool)
  | bundle (i t : Nat) (pages : List Nat)
  | prefetchFailed (i t : Nat)
  | strayBundle (i t : Nat) (pages : List Nat)
  | swapped (i t : Nat)
  /-- the memory budget; which page goes, the source decides by last access -/
  | evict (i page : Nat)
  /-- `cleanOldVersions`, and whatever else removes a directory -/
  | remove (dir : String)

end

/-! ### Steps -/

variable {M : Type}

/-- `putMem`: a page that is there stays. -/
def putMem (mem : Nat → Option (Page M)) (p : Page M) : Nat → Option (Page M) :=
  if (mem p.page).isSome then mem else Function.update mem p.page (some p)

namespace Instance

variable (inst : Instance M)

/-- A page fetched under a manifest. -/
def fetchedPage (m : M) (n : Nat) : Page M := ⟨inst.config.database, m, n⟩

/-- The loop of `getPageAsync` and of `putPages`: into memory, and a write to the directory, if there is
one now. -/
def put (m : M) (pages : List Nat) : Instance M :=
  { inst with memCache := pages.foldl (fun mem n => putMem mem (inst.fetchedPage m n)) inst.memCache }

/-- The writes to OPFS of the pages that were fetched. -/
def putWrites (m : M) (pages : List Nat) : List (Write M) :=
  match inst.opfsDir with
  | some dir => pages.map fun n => ⟨dir, n, inst.fetchedPage m n⟩
  | none => []

/-- A read goes on at another point. -/
def setRead (t : Nat) (r : Read M) (pc : ReadPc M) : Instance M :=
  { inst with reads := inst.reads.set t { r with pc := pc } }

/-- One refresh goes on. -/
def setRefresh (t : Nat) (r : Refresh M) (pc : RefreshPc) : Instance M :=
  { inst with refreshes := inst.refreshes.set t { r with pc := pc } }

/-- The first part of `getPageAsync`. -/
def startRead (page : Nat) : Read M :=
  { page := page
    manifest := inst.manifest
    calm := inst.refreshes.isEmpty
    pc :=
      match inst.memCache page with
      | some p => .returned (some p)
      | none =>
        match inst.opfsDir with
        | some dir => .opfs dir
        | none => .fetch }

/-- The first part of a `refresh` to a new manifest: memory is cleared at once. -/
def startRefresh (m : M) : Instance M :=
  { inst with
    memCache := fun _ => none
    reads := inst.reads.map fun r =>
      match r.pc with
      | .returned _ => r
      | _ => { r with calm := false }
    refreshes := inst.refreshes ++
      [⟨m, if inst.opfsDir.isSome then .clearing else .initing⟩] }

/-- `init`. -/
def init (version : M → Nat) (m : M) (ok : Bool) : Option String :=
  if inst.config.opfsCache then
    if ok then some (inst.config.dirName (version m)) else none
  else inst.opfsDir

end Instance

namespace Origin

variable (s : Origin M)

/-- One instance changes. -/
def set (i : Nat) (inst : Instance M) : Origin M := { s with instances := s.instances.set i inst }

/-- An instance and one of its reads. -/
def read? (i t : Nat) : Option (Instance M × Read M) :=
  s.instances[i]?.bind fun inst => inst.reads[t]?.map fun r => (inst, r)

/-- An instance and one of its refreshes. -/
def refresh? (i t : Nat) : Option (Instance M × Refresh M) :=
  s.instances[i]?.bind fun inst => inst.refreshes[t]?.map fun r => (inst, r)

/-- `removeEntry` of a directory. -/
def clearDir (dir : String) : Origin M := { s with opfs := Function.update s.opfs dir fun _ => none }

end Origin

/-- One step; `none` when the event cannot happen. -/
def step (version : M → Nat) (s : Origin M) : Event M → Option (Origin M)
  | .open config m =>
    some { s with instances := s.instances ++ [{ config, manifest := m, refreshes := [⟨m, .initing⟩] }] }
  | .read i page =>
    s.instances[i]?.bind fun inst =>
      if inst.opened then some (s.set i { inst with reads := inst.reads ++ [inst.startRead page] })
      else none
  | .opfsHandle i t ok =>
    (s.read? i t).bind fun (inst, r) =>
      match r.pc with
      | .opfs dir => some (s.set i (inst.setRead t r (if ok then .handle dir else .fetch)))
      | _ => none
  | .opfsFile i t ok =>
    (s.read? i t).bind fun (inst, r) =>
      match r.pc with
      | .handle dir =>
        match if ok then s.opfs dir r.page else none with
        | some p => some (s.set i (inst.setRead t r (.file p)))
        | none => some (s.set i (inst.setRead t r .fetch))
      | _ => none
  | .opfsRead i t ok =>
    (s.read? i t).bind fun (inst, r) =>
      match r.pc with
      | .file p =>
        if ok then some (s.set i ({ inst with memCache := putMem inst.memCache p }.setRead t r
          (.returned (some p))))
        else some (s.set i (inst.setRead t r .fetch))
      | _ => none
  | .fetched i t pages =>
    (s.read? i t).bind fun (inst, r) =>
      match r.pc with
      | .fetch => some
          { s.set i ((inst.put r.manifest pages).setRead t r .writes) with
            writes := s.writes ++ inst.putWrites r.manifest pages }
      | _ => none
  | .fetchFailed i t =>
    (s.read? i t).bind fun (inst, r) =>
      match r.pc with
      | .fetch => some (s.set i (inst.setRead t r (.returned none)))
      | _ => none
  | .writesDone i t =>
    (s.read? i t).bind fun (inst, r) =>
      match r.pc with
      -- whatever memory has under the number now
      | .writes => some (s.set i (inst.setRead t r (.returned (inst.memCache r.page))))
      | _ => none
  | .wrote k =>
    s.writes[k]?.map fun w =>
      { s with
        opfs := Function.update s.opfs w.dir (Function.update (s.opfs w.dir) w.page (some w.data))
        writes := s.writes.eraseIdx k }
  | .writeFailed k => s.writes[k]?.map fun _ => { s with writes := s.writes.eraseIdx k }
  | .refresh i m =>
    s.instances[i]?.bind fun inst =>
      if inst.opened then
        if version m = version inst.manifest then some s else some (s.set i (inst.startRefresh m))
      else none
  | .located i t ok =>
    (s.refresh? i t).bind fun (inst, r) =>
      match r.pc with
      | .clearing =>
        match if ok then inst.opfsDir else none with
        | some dir => some (s.set i (inst.setRefresh t r (.removing dir)))
        | none => some (s.set i (inst.setRefresh t r .initing))
      | _ => none
  | .removed i t ok =>
    (s.refresh? i t).bind fun (inst, r) =>
      match r.pc with
      | .removing dir =>
        -- the name is taken again, from the directory there is now
        let s := if ok then s.clearDir dir else s
        match if ok then inst.opfsDir else none with
        | some dir' => some (s.set i (inst.setRefresh t r (.recreating dir')))
        | none => some (s.set i (inst.setRefresh t r .initing))
      | _ => none
  | .recreated i t ok =>
    (s.refresh? i t).bind fun (inst, r) =>
      match r.pc with
      | .recreating dir =>
        let opfsDir := if ok then some dir else inst.opfsDir
        some (s.set i ({ inst with opfsDir := opfsDir }.setRefresh t r .initing))
      | _ => none
  | .inited i t ok =>
    (s.refresh? i t).bind fun (inst, r) =>
      match r.pc with
      | .initing =>
        some (s.set i ({ inst with opfsDir := inst.init version r.target ok }.setRefresh t r
          .prefetching))
      | _ => none
  | .bundle i t pages =>
    (s.refresh? i t).bind fun (inst, r) =>
      match r.pc with
      | .prefetching => some
          { s.set i (inst.put r.target pages) with
            writes := s.writes ++ inst.putWrites r.target pages }
      | _ => none
  | .prefetchFailed i t =>
    (s.refresh? i t).bind fun (inst, r) =>
      match r.pc with
      | .prefetching => some (s.set i
          { inst with refreshes := inst.refreshes.eraseIdx t, strays := inst.strays ++ [r.target] })
      | _ => none
  | .strayBundle i t pages =>
    s.instances[i]?.bind fun inst =>
      inst.strays[t]?.map fun m =>
        { s.set i (inst.put m pages) with writes := s.writes ++ inst.putWrites m pages }
  | .swapped i t =>
    (s.refresh? i t).bind fun (inst, r) =>
      match r.pc with
      | .prefetching => some (s.set i
          { inst with manifest := r.target, opened := true, refreshes := inst.refreshes.eraseIdx t })
      | _ => none
  | .evict i page =>
    s.instances[i]?.map fun inst =>
      s.set i { inst with memCache := Function.update inst.memCache page none }
  | .remove dir => some (s.clearDir dir)

/-! ### Coherence -/

/-- With no refresh in progress the caches of an instance have pages of its manifest and no other
database's; and a read that no refresh has overlapped returns the page it was asked for, of the manifest
it began with. -/
structure Coherent (s : Origin M) : Prop where
  memory : ∀ inst ∈ s.instances, inst.refreshes = [] → ∀ n p, inst.memCache n = some p →
    p = ⟨inst.config.database, inst.manifest, n⟩
  directory : ∀ inst ∈ s.instances, inst.refreshes = [] → ∀ dir, inst.opfsDir = some dir →
    ∀ n p, s.opfs dir n = some p → p = ⟨inst.config.database, inst.manifest, n⟩
  reads : ∀ inst ∈ s.instances, ∀ r ∈ inst.reads, r.calm = true → ∀ p, r.pc = .returned (some p) →
    p = ⟨inst.config.database, r.manifest, r.page⟩

/-- What a read has found in the file system. -/
def Read.found (r : Read M) : Option (Page M) :=
  match r.pc with
  | .file p => some p
  | _ => none

/-- The steps that keep the caches apart. Every directory name belongs to one database and manifest. -/
def Undisturbed (version : M → Nat) (owner : String → Database × M) (s : Origin M) : Event M → Prop
  | .open config m => config.opfsCache = true →
      owner (config.dirName (version m)) = (config.database, m)
  | .opfsRead i t _ => ∀ x ∈ s.read? i t, ∀ p ∈ x.2.found,
      x.1.refreshes = [] ∧ p.manifest = x.1.manifest
  | .fetched i t _ => ∀ x ∈ s.read? i t, x.1.refreshes = [] ∧ x.2.manifest = x.1.manifest
  | .refresh i m => ∀ inst ∈ s.instances[i]?, version m ≠ version inst.manifest →
      inst.refreshes = [] ∧
      (inst.config.opfsCache = true →
        owner (inst.config.dirName (version m)) = (inst.config.database, m))
  | .prefetchFailed i _ => ∀ inst ∈ s.instances[i]?, inst.opened = false
  | _ => True

instance [DecidableEq M] (version : M → Nat) (owner : String → Database × M) (s : Origin M) :
    (e : Event M) → Decidable (Undisturbed version owner s e)
  | .open _ _ => inferInstanceAs (Decidable (_ → _))
  | .opfsRead i t _ => inferInstanceAs (Decidable (∀ x ∈ s.read? i t, ∀ p ∈ x.2.found, _ ∧ _))
  | .fetched i t _ => inferInstanceAs (Decidable (∀ x ∈ s.read? i t, _ ∧ _))
  | .refresh i _ => inferInstanceAs (Decidable (∀ inst ∈ s.instances[i]?, _ → _ ∧ (_ → _)))
  | .prefetchFailed i _ => inferInstanceAs (Decidable (∀ inst ∈ s.instances[i]?, _))
  | .read _ _ => .isTrue trivial
  | .opfsHandle _ _ _ => .isTrue trivial
  | .opfsFile _ _ _ => .isTrue trivial
  | .fetchFailed _ _ => .isTrue trivial
  | .writesDone _ _ => .isTrue trivial
  | .wrote _ => .isTrue trivial
  | .writeFailed _ => .isTrue trivial
  | .located _ _ _ => .isTrue trivial
  | .removed _ _ _ => .isTrue trivial
  | .recreated _ _ _ => .isTrue trivial
  | .inited _ _ _ => .isTrue trivial
  | .bundle _ _ _ => .isTrue trivial
  | .strayBundle _ _ _ => .isTrue trivial
  | .swapped _ _ => .isTrue trivial
  | .evict _ _ => .isTrue trivial
  | .remove _ => .isTrue trivial

/-! ### What the invariant says -/

namespace Instance

variable (inst : Instance M)

/-- The manifest the memory cache is for. -/
def target : M :=
  match inst.refreshes with
  | [] => inst.manifest
  | r :: _ => r.target

end Instance

/-- What is known of a read. -/
structure ReadSound (owner : String → Database × M) (inst : Instance M) (r : Read M) : Prop where
  current : r.calm = true → (∀ result, r.pc ≠ .returned result) →
    inst.refreshes = [] ∧ r.manifest = inst.manifest
  result : r.calm = true → ∀ p, r.pc = .returned (some p) →
    p = ⟨inst.config.database, r.manifest, r.page⟩
  dir : ∀ dir, r.pc = .opfs dir ∨ r.pc = .handle dir → (owner dir).1 = inst.config.database ∧
    (r.calm = true → (owner dir).2 = r.manifest)
  file : ∀ p, r.pc = .file p → p.database = inst.config.database ∧ p.page = r.page

/-- What is known of an instance. At most one refresh is in progress; until it has a directory of its
own, nothing is put anywhere. -/
structure Sound (version : M → Nat) (owner : String → Database × M) (inst : Instance M) : Prop where
  memory : ∀ n p, inst.memCache n = some p → p = ⟨inst.config.database, inst.target, n⟩
  reads : ∀ r ∈ inst.reads, ReadSound owner inst r
  one : inst.refreshes = [] ∨ ∃ r, inst.refreshes = [r]
  dir : ∀ dir, inst.opfsDir = some dir → (owner dir).1 = inst.config.database
  settled : inst.refreshes = [] → ∀ dir, inst.opfsDir = some dir → (owner dir).2 = inst.manifest
  prefetching : ∀ r ∈ inst.refreshes, r.pc = .prefetching → ∀ dir, inst.opfsDir = some dir →
    (owner dir).2 = r.target
  named : ∀ r ∈ inst.refreshes, inst.config.opfsCache = true →
    owner (inst.config.dirName (version r.target)) = (inst.config.database, r.target)
  recreating : ∀ r ∈ inst.refreshes, ∀ dir, r.pc = .recreating dir →
    inst.config.opfsCache = true ∧ (owner dir).1 = inst.config.database
  off : inst.config.opfsCache = false → inst.opfsDir = none
  unopened : inst.opened = false → ∀ r ∈ inst.refreshes, r.target = inst.manifest
  strays : ∀ m ∈ inst.strays, m = inst.manifest ∧ inst.opened = false ∧ inst.refreshes = []

/-- Every file is of the owner of its directory, or will be. -/
structure Inv (version : M → Nat) (owner : String → Database × M) (s : Origin M) : Prop where
  files : ∀ dir n p, s.opfs dir n = some p → p = ⟨(owner dir).1, (owner dir).2, n⟩
  writes : ∀ w ∈ s.writes, w.data = ⟨(owner w.dir).1, (owner w.dir).2, w.page⟩
  instances : ∀ inst ∈ s.instances, Sound version owner inst

theorem Inv.coherent {version : M → Nat} {owner : String → Database × M} {s : Origin M}
    (h : Inv version owner s) : Coherent s where
  memory inst hinst hnone n p hp := by
    have hmem := (h.instances inst hinst).memory n p hp
    rwa [Instance.target, hnone] at hmem
  directory inst hinst hnone dir hdir n p hp := by
    have hs := h.instances inst hinst
    rw [h.files dir n p hp, hs.dir dir hdir, hs.settled hnone dir hdir]
  reads inst hinst r hr hcalm p hp := ((h.instances inst hinst).reads r hr).result hcalm p hp

/-! ### What the steps do to it -/

section

variable {version : M → Nat} {owner : String → Database × M} {inst : Instance M}

/-- A page of the cache's manifest may be put into memory. -/
theorem putMem_inv {d : Database} {m : M} {mem : Nat → Option (Page M)} {p : Page M}
    (h : ∀ n q, mem n = some q → q = ⟨d, m, n⟩) (hp : p = ⟨d, m, p.page⟩) :
    ∀ n q, putMem mem p n = some q → q = ⟨d, m, n⟩ := by
  intro n q hq
  unfold putMem at hq
  split at hq
  · exact h n q hq
  · by_cases hn : n = p.page
    · subst hn
      rw [Function.update_self] at hq
      obtain rfl : p = q := Option.some.inj hq
      exact hp
    · rw [Function.update_of_ne hn] at hq
      exact h n q hq

theorem put_inv {m : M} (pages : List Nat)
    (h : ∀ n q, inst.memCache n = some q → q = ⟨inst.config.database, m, n⟩) :
    ∀ n q, (inst.put m pages).memCache n = some q → q = ⟨inst.config.database, m, n⟩ := by
  unfold Instance.put
  dsimp only
  -- page by page, from the memory there is
  generalize inst.memCache = mem at h
  induction pages generalizing mem with
  | nil => exact h
  | cons n pages ih => exact ih _ (putMem_inv h rfl)

/-- The fields a read is judged by. -/
theorem ReadSound.congr {inst' : Instance M} {r : Read M} (h : ReadSound owner inst r)
    (hconfig : inst'.config = inst.config) (hmanifest : inst'.manifest = inst.manifest)
    (hrefreshes : inst'.refreshes = inst.refreshes) : ReadSound owner inst' r where
  current hcalm hpc := by
    rw [hrefreshes, hmanifest]
    exact h.current hcalm hpc
  result hcalm p hp := by
    rw [hconfig]
    exact h.result hcalm p hp
  dir dir hdir := by
    rw [hconfig]
    exact h.dir dir hdir
  file p hp := by
    rw [hconfig]
    exact h.file p hp

/-- A pending read goes on. -/
theorem ReadSound.next {r : Read M} (h : ReadSound owner inst r)
    (hpending : ∀ result, r.pc ≠ .returned result) {pc : ReadPc M}
    (hpc : ∀ result, pc ≠ .returned result)
    (hdir : ∀ dir, pc = .opfs dir ∨ pc = .handle dir → r.pc = .opfs dir ∨ r.pc = .handle dir)
    (hfile : ∀ p, pc = .file p → p.database = inst.config.database ∧ p.page = r.page) :
    ReadSound owner inst { r with pc := pc } where
  current hcalm _ := h.current hcalm hpending
  result _ _ hp := absurd hp (hpc _)
  dir dir hd := h.dir dir (hdir dir hd)
  file := hfile

/-- It goes on to something that is not the file system. -/
theorem ReadSound.leave {r : Read M} (h : ReadSound owner inst r)
    (hpending : ∀ result, r.pc ≠ .returned result) {pc : ReadPc M} (hpc : pc = .fetch ∨ pc = .writes) :
    ReadSound owner inst { r with pc := pc } := by
  rcases hpc with rfl | rfl
  · exact h.next hpending (by simp) (by simp) (by simp)
  · exact h.next hpending (by simp) (by simp) (by simp)

theorem ReadSound.returned {r : Read M} {result : Option (Page M)}
    (h : r.calm = true → ∀ p, result = some p → p = ⟨inst.config.database, r.manifest, r.page⟩) :
    ReadSound owner inst { r with pc := .returned result } where
  current _ hpc := absurd rfl (hpc result)
  result hcalm p hp := by
    cases hp
    exact h hcalm p rfl
  dir dir hdir := by
    rcases hdir with hdir | hdir
    · cases hdir
    · cases hdir
  file p hp := by cases hp

/-- Of a read that a refresh overlaps only the directory counts. -/
theorem ReadSound.disturbed {inst' : Instance M} {r : Read M} (h : ReadSound owner inst r)
    (hconfig : inst'.config = inst.config) : ReadSound owner inst' { r with calm := false } where
  current hcalm := by cases hcalm
  result hcalm := by cases hcalm
  dir dir hdir := by
    refine ⟨?_, fun hcalm => ?_⟩
    · rw [hconfig]
      exact (h.dir dir hdir).1
    · cases hcalm
  file p hp := by
    rw [hconfig]
    exact h.file p hp

/-- Reads are judged one by one. -/
theorem Sound.setRead (h : Sound version owner inst) {t : Nat} {r : Read M} {pc : ReadPc M}
    (hr : ReadSound owner inst { r with pc := pc }) : Sound version owner (inst.setRead t r pc) :=
  { h with
    reads := fun r' hr' => by
      cases List.mem_or_eq_of_mem_set hr' with
      | inl hold => exact (h.reads r' hold).congr rfl rfl rfl
      | inr hnew =>
        subst hnew
        exact hr.congr rfl rfl rfl }

theorem Sound.withMemory (h : Sound version owner inst) {mem : Nat → Option (Page M)}
    (hmem : ∀ n p, mem n = some p → p = ⟨inst.config.database, inst.target, n⟩) :
    Sound version owner { inst with memCache := mem } :=
  { h with
    memory := hmem
    reads := fun r hr => (h.reads r hr).congr rfl rfl rfl }

theorem Sound.put (h : Sound version owner inst) {m : M} (hm : inst.target = m) (pages : List Nat) :
    Sound version owner (inst.put m pages) := by
  subst hm
  exact h.withMemory (put_inv pages h.memory)

/-- What is written belongs into the directory. -/
theorem putWrites_inv {m : M} {pages : List Nat}
    (hdir : ∀ dir, inst.opfsDir = some dir → owner dir = (inst.config.database, m)) :
    ∀ w ∈ inst.putWrites m pages, w.data = ⟨(owner w.dir).1, (owner w.dir).2, w.page⟩ := by
  intro w hw
  unfold Instance.putWrites at hw
  cases hd : inst.opfsDir with
  | none => simp [hd] at hw
  | some dir =>
    simp only [hd, List.mem_map] at hw
    obtain ⟨n, _, rfl⟩ := hw
    simp only [hdir dir hd, Instance.fetchedPage]

theorem Sound.target_settled (hnone : inst.refreshes = []) : inst.target = inst.manifest := by
  rw [Instance.target, hnone]

/-- With no refresh in progress the directory is that of the manifest. -/
theorem Sound.owner_settled (h : Sound version owner inst) (hnone : inst.refreshes = []) (dir : String)
    (hdir : inst.opfsDir = some dir) : owner dir = (inst.config.database, inst.manifest) :=
  Prod.ext (h.dir dir hdir) (h.settled hnone dir hdir)

theorem Sound.startRead (h : Sound version owner inst) (page : Nat) :
    Sound version owner { inst with reads := inst.reads ++ [inst.startRead page] } := by
  have hread : ReadSound owner inst (inst.startRead page) := by
    refine ⟨fun hcalm _ => ⟨by simpa [Instance.startRead] using hcalm, rfl⟩, fun hcalm p hp => ?_,
      fun dir hdir => ?_, fun p hp => ?_⟩
    · have hnone : inst.refreshes = [] := by simpa [Instance.startRead] using hcalm
      unfold Instance.startRead at hp
      dsimp only at hp
      cases hmem : inst.memCache page with
      | none =>
        rw [hmem] at hp
        cases hd : inst.opfsDir <;> simp [hd] at hp
      | some q =>
        rw [hmem] at hp
        obtain rfl : q = p := by simpa using hp
        have hq := h.memory page q hmem
        rwa [target_settled hnone] at hq
    · unfold Instance.startRead at hdir
      dsimp only at hdir
      cases hmem : inst.memCache page with
      | some q => simp [hmem] at hdir
      | none =>
        rw [hmem] at hdir
        cases hd : inst.opfsDir with
        | none => simp [hd] at hdir
        | some d =>
          obtain rfl : d = dir := by simpa [hd] using hdir
          refine ⟨h.dir d hd, fun hcalm => ?_⟩
          have hnone : inst.refreshes = [] := by simpa [Instance.startRead] using hcalm
          exact h.settled hnone d hd
    · unfold Instance.startRead at hp
      dsimp only at hp
      cases hmem : inst.memCache page with
      | some q => simp [hmem] at hp
      | none =>
        rw [hmem] at hp
        cases hd : inst.opfsDir with
        | none => simp [hd] at hp
        | some d => simp [hd] at hp
  exact { h with
    reads := fun r hr => by
      cases List.mem_append.mp hr with
      | inl hold => exact (h.reads r hold).congr rfl rfl rfl
      | inr hnew =>
        rw [List.mem_singleton.mp hnew]
        exact hread.congr rfl rfl rfl }

/-! ### Refreshes -/

theorem Sound.refreshes_eq (h : Sound version owner inst) {t : Nat} {r : Refresh M}
    (hr : inst.refreshes[t]? = some r) : inst.refreshes = [r] ∧ t = 0 := by
  cases h.one with
  | inl hnone => simp [hnone] at hr
  | inr hone =>
    obtain ⟨r', hr'⟩ := hone
    rw [hr'] at hr ⊢
    cases t with
    | zero => simpa using hr
    | succ t => simp at hr

/-- While a refresh is in progress no pending read is calm. -/
theorem Sound.not_calm (h : Sound version owner inst) {r : Refresh M} (hone : inst.refreshes = [r])
    {rd : Read M} (hrd : rd ∈ inst.reads) (hcalm : rd.calm = true) :
    ¬ ∀ result, rd.pc ≠ .returned result := by
  intro hpending
  have hnone := ((h.reads rd hrd).current hcalm hpending).1
  rw [hone] at hnone
  cases hnone

/-- Reads that nothing is asked of but their results. -/
theorem Sound.reads_of_refresh (h : Sound version owner inst) {r : Refresh M}
    (hone : inst.refreshes = [r]) {inst' : Instance M} (hconfig : inst'.config = inst.config)
    {rd : Read M} (hrd : rd ∈ inst.reads) : ReadSound owner inst' rd where
  current hcalm hpending := absurd hpending (h.not_calm hone hrd hcalm)
  result hcalm p hp := by
    rw [hconfig]
    exact (h.reads rd hrd).result hcalm p hp
  dir dir hdir := by
    rw [hconfig]
    exact (h.reads rd hrd).dir dir hdir
  file p hp := by
    rw [hconfig]
    exact (h.reads rd hrd).file p hp

theorem Sound.startRefresh (h : Sound version owner inst) (hopened : inst.opened = true)
    (hnone : inst.refreshes = []) {m : M}
    (hnamed : inst.config.opfsCache = true →
      owner (inst.config.dirName (version m)) = (inst.config.database, m)) :
    Sound version owner (inst.startRefresh m) := by
  have hrefreshes : (inst.startRefresh m).refreshes =
      [⟨m, if inst.opfsDir.isSome then .clearing else .initing⟩] := by
    simp [Instance.startRefresh, hnone]
  have hpc : ∀ r ∈ (inst.startRefresh m).refreshes,
      r.target = m ∧ r.pc ≠ .prefetching ∧ ∀ dir, r.pc ≠ .recreating dir := by
    intro r hr
    rw [hrefreshes, List.mem_singleton] at hr
    subst hr
    cases inst.opfsDir <;> simp
  refine ⟨fun n p hp => ?_, fun r hr => ?_, .inr ⟨_, hrefreshes⟩, h.dir, fun hno => ?_,
    fun r hr hpre => absurd hpre (hpc r hr).2.1, fun r hr hcache => ?_,
    fun r hr dir hrec => absurd hrec ((hpc r hr).2.2 dir), h.off, fun hno => ?_, fun m' hm' => ?_⟩
  · cases hp
  · simp only [Instance.startRefresh, List.mem_map] at hr
    obtain ⟨r, hr, rfl⟩ := hr
    have hread := h.reads r hr
    have hconfig : (inst.startRefresh m).config = inst.config := rfl
    cases hpc : r.pc with
    | returned result =>
      exact ⟨fun _ hpending => absurd hpc (hpending result), hread.result, hread.dir, hread.file⟩
    | opfs dir => simpa only [hpc] using hread.disturbed hconfig
    | handle dir => simpa only [hpc] using hread.disturbed hconfig
    | file p => simpa only [hpc] using hread.disturbed hconfig
    | fetch => simpa only [hpc] using hread.disturbed hconfig
    | writes => simpa only [hpc] using hread.disturbed hconfig
  · rw [hrefreshes] at hno
    cases hno
  · rw [(hpc r hr).1]
    exact hnamed hcache
  · have hopened' : (inst.startRefresh m).opened = true := hopened
    rw [hopened'] at hno
    cases hno
  · have hstray := (h.strays m' hm').2.1
    rw [hopened] at hstray
    cases hstray

/-- A refresh goes on, with another directory perhaps. -/
theorem Sound.advance (h : Sound version owner inst) {t : Nat} {r : Refresh M}
    (hr : inst.refreshes[t]? = some r) {opfsDir : Option String} {pc : RefreshPc}
    (hdir : ∀ dir, opfsDir = some dir → (owner dir).1 = inst.config.database)
    (hoff : inst.config.opfsCache = false → opfsDir = none)
    (hpre : pc = .prefetching → ∀ dir, opfsDir = some dir → (owner dir).2 = r.target)
    (hrec : ∀ dir, pc = .recreating dir →
      inst.config.opfsCache = true ∧ (owner dir).1 = inst.config.database) :
    Sound version owner ({ inst with opfsDir := opfsDir }.setRefresh t r pc) := by
  obtain ⟨hone, rfl⟩ := h.refreshes_eq hr
  have hrefreshes : ({ inst with opfsDir := opfsDir }.setRefresh 0 r pc).refreshes =
      [{ r with pc := pc }] := by
    simp [Instance.setRefresh, hone]
  have hmem : r ∈ inst.refreshes := List.mem_of_getElem? hr
  have htarget : ({ inst with opfsDir := opfsDir }.setRefresh 0 r pc).target = inst.target := by
    rw [Instance.target, hrefreshes, Instance.target, hone]
  refine ⟨fun n p hp => ?_, fun rd hrd => ?_, .inr ⟨_, hrefreshes⟩, hdir, fun hno => ?_,
    fun r' hr' hpre' dir hd => ?_, fun r' hr' hcache => ?_, fun r' hr' dir hrec' => ?_, hoff,
    fun hno r' hr' => ?_, fun m hm => ?_⟩
  · rw [htarget]
    exact h.memory n p hp
  · refine h.reads_of_refresh hone ?_ hrd
    rfl
  · rw [hrefreshes] at hno
    cases hno
  all_goals try
    (rw [hrefreshes, List.mem_singleton] at hr'
     subst hr')
  · exact hpre hpre' dir hd
  · exact h.named r hmem hcache
  · exact hrec dir hrec'
  · exact h.unopened hno r hmem
  · have hstray := (h.strays m hm).2.2
    rw [hone] at hstray
    cases hstray

/-- A refresh that is over leaves an instance of its target. -/
theorem Sound.finish (h : Sound version owner inst) {t : Nat} {r : Refresh M}
    (hr : inst.refreshes[t]? = some r) (hpc : r.pc = .prefetching) {opened : Bool} {strays : List M}
    (hstrays : ∀ m ∈ strays, m = r.target ∧ opened = false) :
    Sound version owner { inst with
      manifest := r.target, opened := opened, refreshes := inst.refreshes.eraseIdx t
      strays := strays } := by
  obtain ⟨hone, rfl⟩ := h.refreshes_eq hr
  have hmem : r ∈ inst.refreshes := List.mem_of_getElem? hr
  have hnone : inst.refreshes.eraseIdx 0 = [] := by simp [hone]
  have htarget : inst.target = r.target := by rw [Instance.target, hone]
  refine ⟨fun n p hp => ?_, fun rd hrd => ?_, .inl hnone, h.dir,
    fun _ dir hdir => h.prefetching r hmem hpc dir hdir, fun r' hr' => ?_, fun r' hr' => ?_,
    fun r' hr' => ?_, h.off, fun _ r' hr' => ?_,
    fun m hm => ⟨(hstrays m hm).1, (hstrays m hm).2, hnone⟩⟩
  · have hp' := h.memory n p hp
    rw [htarget] at hp'
    simpa [Instance.target, hnone] using hp'
  · refine h.reads_of_refresh hone ?_ hrd
    rfl
  all_goals
    dsimp only at hr'
    rw [hnone] at hr'
    cases hr'

/-- `init` takes the directory of the target, where one is taken at all. -/
theorem Sound.init (h : Sound version owner inst) {r : Refresh M} (hr : r ∈ inst.refreshes) {ok : Bool}
    (dir : String) (hdir : inst.init version r.target ok = some dir) :
    owner dir = (inst.config.database, r.target) := by
  unfold Instance.init at hdir
  cases hcache : inst.config.opfsCache with
  | false => simp [hcache, h.off hcache] at hdir
  | true =>
    cases ok with
    | false => simp [hcache] at hdir
    | true =>
      simp only [hcache, if_true, Option.some.injEq] at hdir
      rw [← hdir]
      exact h.named r hr hcache

/-! ### Every step -/

variable {s : Origin M}

theorem Inv.set (h : Inv version owner s) {i : Nat} (hinst : Sound version owner inst) :
    Inv version owner (s.set i inst) where
  files := h.files
  writes := h.writes
  instances inst' hmem := by
    cases List.mem_or_eq_of_mem_set hmem with
    | inl hold => exact h.instances inst' hold
    | inr hnew =>
      subst hnew
      exact hinst

theorem Inv.withWrites (h : Inv version owner s) {ws : List (Write M)}
    (hws : ∀ w ∈ ws, w.data = ⟨(owner w.dir).1, (owner w.dir).2, w.page⟩) :
    Inv version owner { s with writes := s.writes ++ ws } :=
  { h with
    writes := fun w hw => (List.mem_append.mp hw).elim (h.writes w) (hws w) }

theorem Inv.clearDir (h : Inv version owner s) (dir : String) : Inv version owner (s.clearDir dir) :=
  { h with
    files := fun dir' n p hp => by
      simp only [Origin.clearDir] at hp
      by_cases hd : dir' = dir
      · subst hd
        simp at hp
      · rw [Function.update_of_ne hd] at hp
        exact h.files dir' n p hp }

theorem Inv.wrote (h : Inv version owner s) {k : Nat} {w : Write M} (hw : s.writes[k]? = some w) :
    Inv version owner { s with
      opfs := Function.update s.opfs w.dir (Function.update (s.opfs w.dir) w.page (some w.data))
      writes := s.writes.eraseIdx k } where
  files dir n p hp := by
    dsimp only at hp
    by_cases hd : dir = w.dir
    · subst hd
      rw [Function.update_self] at hp
      by_cases hn : n = w.page
      · subst hn
        rw [Function.update_self] at hp
        rw [← Option.some.inj hp]
        exact h.writes w (List.mem_of_getElem? hw)
      · rw [Function.update_of_ne hn] at hp
        exact h.files w.dir n p hp
    · rw [Function.update_of_ne hd] at hp
      exact h.files dir n p hp
  writes w' hw' := h.writes w' (List.mem_of_mem_eraseIdx hw')
  instances := h.instances

theorem Inv.at (h : Inv version owner s) {i : Nat} (hi : s.instances[i]? = some inst) :
    Sound version owner inst :=
  h.instances inst (List.mem_of_getElem? hi)

theorem Inv.at_read (h : Inv version owner s) {i t : Nat} {r : Read M}
    (hr : s.read? i t = some (inst, r)) : Sound version owner inst ∧ r ∈ inst.reads := by
  simp only [Origin.read?, Option.bind_eq_some_iff, Option.map_eq_some_iff, Prod.mk.injEq] at hr
  obtain ⟨inst', hi, r', hr', rfl, rfl⟩ := hr
  exact ⟨h.at hi, List.mem_of_getElem? hr'⟩

theorem Inv.at_refresh (h : Inv version owner s) {i t : Nat} {r : Refresh M}
    (hr : s.refresh? i t = some (inst, r)) :
    s.instances[i]? = some inst ∧ Sound version owner inst ∧ inst.refreshes[t]? = some r := by
  simp only [Origin.refresh?, Option.bind_eq_some_iff, Option.map_eq_some_iff, Prod.mk.injEq] at hr
  obtain ⟨inst', hi, r', hr', rfl, rfl⟩ := hr
  exact ⟨hi, h.at hi, hr'⟩

/-- A new instance is on its way to its first manifest. -/
theorem Sound.open {config : Config} {m : M}
    (hnamed : config.opfsCache = true →
      owner (config.dirName (version m)) = (config.database, m)) :
    Sound version owner
      { config := config, manifest := m, refreshes := [⟨m, .initing⟩] } where
  memory n p hp := by cases hp
  reads r hr := by cases hr
  one := .inr ⟨_, rfl⟩
  dir dir hdir := by cases hdir
  settled hnone := by cases hnone
  prefetching r _ _ dir hdir := by cases hdir
  named r hr hcache := by
    rw [List.mem_singleton.mp hr]
    exact hnamed hcache
  recreating r hr dir hrec := by
    rw [List.mem_singleton.mp hr] at hrec
    cases hrec
  off _ := rfl
  unopened _ r hr := by rw [List.mem_singleton.mp hr]
  strays m hm := by cases hm

/-- A page found in a directory goes into memory and to the reader. -/
theorem Sound.found {r : Read M} (hinst : Sound version owner inst)
    (hr : r ∈ inst.reads) {p : Page M} (hpc : r.pc = .file p) (hnone : inst.refreshes = [])
    (hmanifest : p.manifest = inst.manifest) (t : Nat) :
    Sound version owner
      ({ inst with memCache := putMem inst.memCache p }.setRead t r (.returned (some p))) := by
  have hread := hinst.reads r hr
  obtain ⟨hdatabase, hnumber⟩ := hread.file p hpc
  have hpage : p = ⟨inst.config.database, inst.manifest, r.page⟩ := by
    rw [← hdatabase, ← hmanifest, ← hnumber]
  have hmem : ∀ n q, putMem inst.memCache p n = some q →
      q = ⟨inst.config.database, inst.target, n⟩ := by
    refine putMem_inv hinst.memory ?_
    rw [Sound.target_settled hnone, hpage]
  refine (hinst.withMemory hmem).setRead (.returned fun hcalm q hq => ?_)
  have hpending : ∀ result, r.pc ≠ .returned result := by
    intro result hret
    rw [hpc] at hret
    cases hret
  obtain rfl : p = q := Option.some.inj hq
  rw [hpage, (hread.current hcalm hpending).2]

variable {s' : Origin M}

theorem Inv.step_open (h : Inv version owner s) {config : Config} {m : M}
    (hcond : Undisturbed version owner s (.open config m))
    (hstep : BrowserRefresh.step version s (.open config m) = some s') : Inv version owner s' := by
  cases hstep
  exact { h with
    instances := fun inst hinst => by
      cases List.mem_append.mp hinst with
      | inl hold => exact h.instances inst hold
      | inr hnew =>
        rw [List.mem_singleton.mp hnew]
        exact .open hcond }

theorem Inv.step_read (h : Inv version owner s) {i page : Nat}
    (hstep : BrowserRefresh.step version s (.read i page) = some s') : Inv version owner s' := by
  obtain ⟨inst, hi, hstep⟩ := Option.bind_eq_some_iff.mp hstep
  split at hstep
  · cases hstep
    exact h.set ((h.at hi).startRead page)
  · cases hstep

theorem Inv.step_opfsHandle (h : Inv version owner s) {i t : Nat} {ok : Bool}
    (hstep : BrowserRefresh.step version s (.opfsHandle i t ok) = some s') :
    Inv version owner s' := by
  obtain ⟨⟨inst, r⟩, hr, hstep⟩ := Option.bind_eq_some_iff.mp hstep
  obtain ⟨hinst, hmem⟩ := h.at_read hr
  dsimp only at hstep
  split at hstep
  · rename_i dir hpc
    cases hstep
    cases ok with
    | false => exact h.set (hinst.setRead ((hinst.reads r hmem).leave (by simp [hpc]) (.inl rfl)))
    | true =>
      refine h.set (hinst.setRead ((hinst.reads r hmem).next (by simp [hpc]) (by simp) ?_ (by simp)))
      intro dir' hdir
      rcases hdir with hdir | hdir
      · cases hdir
      · cases hdir
        exact .inl hpc
  · cases hstep

theorem Inv.step_opfsFile (h : Inv version owner s) {i t : Nat} {ok : Bool}
    (hstep : BrowserRefresh.step version s (.opfsFile i t ok) = some s') :
    Inv version owner s' := by
  obtain ⟨⟨inst, r⟩, hr, hstep⟩ := Option.bind_eq_some_iff.mp hstep
  obtain ⟨hinst, hmem⟩ := h.at_read hr
  dsimp only at hstep
  split at hstep
  · rename_i dir hpc
    split at hstep
    · rename_i p hp
      have hfile : s.opfs dir r.page = some p := by
        cases ok with
        | false => cases hp
        | true => exact hp
      cases hstep
      refine h.set (hinst.setRead ((hinst.reads r hmem).next (by simp [hpc]) (by simp) (by simp) ?_))
      intro p' hp'
      cases hp'
      rw [h.files dir r.page p hfile]
      exact ⟨((hinst.reads r hmem).dir dir (.inr hpc)).1, rfl⟩
    · cases hstep
      exact h.set (hinst.setRead ((hinst.reads r hmem).leave (by simp [hpc]) (.inl rfl)))
  · cases hstep

theorem Inv.step_opfsRead (h : Inv version owner s) {i t : Nat} {ok : Bool}
    (hcond : Undisturbed version owner s (.opfsRead i t ok))
    (hstep : BrowserRefresh.step version s (.opfsRead i t ok) = some s') :
    Inv version owner s' := by
  obtain ⟨⟨inst, r⟩, hr, hstep⟩ := Option.bind_eq_some_iff.mp hstep
  obtain ⟨hinst, hmem⟩ := h.at_read hr
  dsimp only at hstep
  split at hstep
  · rename_i p hpc
    split at hstep
    · have hfound : r.found = some p := by
        unfold Read.found
        rw [hpc]
      obtain ⟨hnone, hmanifest⟩ := hcond (inst, r) hr p hfound
      cases hstep
      exact h.set (hinst.found hmem hpc hnone hmanifest t)
    · cases hstep
      exact h.set (hinst.setRead ((hinst.reads r hmem).leave (by simp [hpc]) (.inl rfl)))
  · cases hstep

theorem Inv.step_fetched (h : Inv version owner s) {i t : Nat} {pages : List Nat}
    (hcond : Undisturbed version owner s (.fetched i t pages))
    (hstep : BrowserRefresh.step version s (.fetched i t pages) = some s') :
    Inv version owner s' := by
  obtain ⟨⟨inst, r⟩, hr, hstep⟩ := Option.bind_eq_some_iff.mp hstep
  obtain ⟨hinst, hmem⟩ := h.at_read hr
  dsimp only at hstep
  split at hstep
  · rename_i hpc
    obtain ⟨hnone, hmanifest⟩ := hcond (inst, r) hr
    cases hstep
    have htarget : inst.target = r.manifest := by
      rw [Sound.target_settled hnone, hmanifest]
    have hput := hinst.put htarget pages
    refine (h.set (hput.setRead ((hput.reads r hmem).leave (by simp [hpc]) (.inr rfl)))).withWrites
      (putWrites_inv ?_)
    rw [hmanifest]
    exact hinst.owner_settled hnone
  · cases hstep

theorem Inv.step_fetchFailed (h : Inv version owner s) {i t : Nat}
    (hstep : BrowserRefresh.step version s (.fetchFailed i t) = some s') :
    Inv version owner s' := by
  obtain ⟨⟨inst, r⟩, hr, hstep⟩ := Option.bind_eq_some_iff.mp hstep
  obtain ⟨hinst, hmem⟩ := h.at_read hr
  dsimp only at hstep
  split at hstep
  · cases hstep
    refine h.set (hinst.setRead (.returned fun _ p hp => ?_))
    cases hp
  · cases hstep

theorem Inv.step_writesDone (h : Inv version owner s) {i t : Nat}
    (hstep : BrowserRefresh.step version s (.writesDone i t) = some s') : Inv version owner s' := by
  obtain ⟨⟨inst, r⟩, hr, hstep⟩ := Option.bind_eq_some_iff.mp hstep
  obtain ⟨hinst, hmem⟩ := h.at_read hr
  dsimp only at hstep
  split at hstep
  · rename_i hpc
    cases hstep
    refine h.set (hinst.setRead (.returned fun hcalm p hp => ?_))
    obtain ⟨hnone, hmanifest⟩ := (hinst.reads r hmem).current hcalm (by simp [hpc])
    rw [hinst.memory r.page p hp, Sound.target_settled hnone, hmanifest]
  · cases hstep

theorem Inv.step_wrote (h : Inv version owner s) {k : Nat}
    (hstep : BrowserRefresh.step version s (.wrote k) = some s') : Inv version owner s' := by
  obtain ⟨w, hw, rfl⟩ := Option.map_eq_some_iff.mp hstep
  exact h.wrote hw

theorem Inv.step_writeFailed (h : Inv version owner s) {k : Nat}
    (hstep : BrowserRefresh.step version s (.writeFailed k) = some s') : Inv version owner s' := by
  obtain ⟨w, hw, rfl⟩ := Option.map_eq_some_iff.mp hstep
  exact { h with
    writes := fun w' hw' => h.writes w' (List.mem_of_mem_eraseIdx hw') }

theorem Inv.step_refresh (h : Inv version owner s) {i : Nat} {m : M}
    (hcond : Undisturbed version owner s (.refresh i m))
    (hstep : BrowserRefresh.step version s (.refresh i m) = some s') : Inv version owner s' := by
  obtain ⟨inst, hi, hstep⟩ := Option.bind_eq_some_iff.mp hstep
  split at hstep
  · rename_i hopened
    split at hstep
    · cases hstep
      exact h
    · rename_i hversion
      obtain ⟨hnone, hnamed⟩ := hcond inst hi hversion
      cases hstep
      exact h.set ((h.at hi).startRefresh hopened hnone hnamed)
  · cases hstep

theorem Inv.step_located (h : Inv version owner s) {i t : Nat} {ok : Bool}
    (hstep : BrowserRefresh.step version s (.located i t ok) = some s') : Inv version owner s' := by
  obtain ⟨⟨inst, r⟩, hr, hstep⟩ := Option.bind_eq_some_iff.mp hstep
  obtain ⟨_, hinst, hmem⟩ := h.at_refresh hr
  dsimp only at hstep
  split at hstep
  · split at hstep
    all_goals
      cases hstep
      exact h.set (hinst.advance hmem hinst.dir hinst.off (by simp) (by simp))
  · cases hstep

theorem Inv.step_removed (h : Inv version owner s) {i t : Nat} {ok : Bool}
    (hstep : BrowserRefresh.step version s (.removed i t ok) = some s') : Inv version owner s' := by
  obtain ⟨⟨inst, r⟩, hr, hstep⟩ := Option.bind_eq_some_iff.mp hstep
  obtain ⟨_, hinst, hmem⟩ := h.at_refresh hr
  dsimp only at hstep
  split at hstep
  · rename_i dir hpc
    have hclear : Inv version owner (if ok then s.clearDir dir else s) := by
      split
      · exact h.clearDir dir
      · exact h
    split at hstep
    · rename_i dir' hdir'
      have hopfs : inst.opfsDir = some dir' := by
        cases ok with
        | false => cases hdir'
        | true => exact hdir'
      cases hstep
      refine hclear.set (hinst.advance hmem hinst.dir hinst.off (by simp) fun d hd => ?_)
      cases hd
      refine ⟨?_, hinst.dir dir' hopfs⟩
      by_contra hoff
      rw [hinst.off (by simpa using hoff)] at hopfs
      cases hopfs
    · cases hstep
      exact hclear.set (hinst.advance hmem hinst.dir hinst.off (by simp) (by simp))
  · cases hstep

theorem Inv.step_recreated (h : Inv version owner s) {i t : Nat} {ok : Bool}
    (hstep : BrowserRefresh.step version s (.recreated i t ok) = some s') :
    Inv version owner s' := by
  obtain ⟨⟨inst, r⟩, hr, hstep⟩ := Option.bind_eq_some_iff.mp hstep
  obtain ⟨_, hinst, hmem⟩ := h.at_refresh hr
  dsimp only at hstep
  split at hstep
  · rename_i dir hpc
    obtain ⟨hcache, howner⟩ := hinst.recreating r (List.mem_of_getElem? hmem) dir hpc
    cases hstep
    refine h.set (hinst.advance hmem (fun d hd => ?_) (fun hoff => ?_) (by simp) (by simp))
    · cases ok with
      | false => exact hinst.dir d hd
      | true =>
        cases hd
        exact howner
    · rw [hcache] at hoff
      cases hoff
  · cases hstep

theorem Inv.step_inited (h : Inv version owner s) {i t : Nat} {ok : Bool}
    (hstep : BrowserRefresh.step version s (.inited i t ok) = some s') : Inv version owner s' := by
  obtain ⟨⟨inst, r⟩, hr, hstep⟩ := Option.bind_eq_some_iff.mp hstep
  obtain ⟨_, hinst, hmem⟩ := h.at_refresh hr
  have htaken : ∀ dir, inst.init version r.target ok = some dir →
      owner dir = (inst.config.database, r.target) := hinst.init (List.mem_of_getElem? hmem)
  dsimp only at hstep
  split at hstep
  · cases hstep
    refine h.set (hinst.advance hmem (fun dir hdir => ?_) (fun hoff => ?_) (fun _ dir hdir => ?_)
      (by simp))
    · rw [htaken dir hdir]
    · simp [Instance.init, hoff, hinst.off hoff]
    · rw [htaken dir hdir]
  · cases hstep

theorem Inv.step_bundle (h : Inv version owner s) {i t : Nat} {pages : List Nat}
    (hstep : BrowserRefresh.step version s (.bundle i t pages) = some s') :
    Inv version owner s' := by
  obtain ⟨⟨inst, r⟩, hr, hstep⟩ := Option.bind_eq_some_iff.mp hstep
  obtain ⟨_, hinst, hmem⟩ := h.at_refresh hr
  dsimp only at hstep
  split at hstep
  · rename_i hpc
    cases hstep
    have htarget : inst.target = r.target := by
      rw [Instance.target, (hinst.refreshes_eq hmem).1]
    refine (h.set (hinst.put htarget pages)).withWrites (putWrites_inv fun dir hdir => ?_)
    exact Prod.ext (hinst.dir dir hdir)
      (hinst.prefetching r (List.mem_of_getElem? hmem) hpc dir hdir)
  · cases hstep

theorem Inv.step_prefetchFailed (h : Inv version owner s) {i t : Nat}
    (hcond : Undisturbed version owner s (.prefetchFailed i t))
    (hstep : BrowserRefresh.step version s (.prefetchFailed i t) = some s') :
    Inv version owner s' := by
  obtain ⟨⟨inst, r⟩, hr, hstep⟩ := Option.bind_eq_some_iff.mp hstep
  obtain ⟨hi, hinst, hmem⟩ := h.at_refresh hr
  dsimp only at hstep
  split at hstep
  · rename_i hpc
    have hopened := hcond inst hi
    have hr' := List.mem_of_getElem? hmem
    have htarget := hinst.unopened hopened r hr'
    cases hstep
    have hstrays : ∀ m ∈ inst.strays ++ [r.target], m = r.target ∧ inst.opened = false := by
      intro m hm
      refine ⟨?_, hopened⟩
      cases List.mem_append.mp hm with
      | inl hold => rw [(hinst.strays m hold).1, htarget]
      | inr hnew => exact List.mem_singleton.mp hnew
    have hfinish := hinst.finish hmem hpc hstrays
    rw [htarget] at hfinish ⊢
    exact h.set hfinish
  · cases hstep

theorem Inv.step_strayBundle (h : Inv version owner s) {i t : Nat} {pages : List Nat}
    (hstep : BrowserRefresh.step version s (.strayBundle i t pages) = some s') :
    Inv version owner s' := by
  obtain ⟨inst, hi, hstep⟩ := Option.bind_eq_some_iff.mp hstep
  obtain ⟨m, hm, rfl⟩ := Option.map_eq_some_iff.mp hstep
  have hinst := h.at hi
  obtain ⟨rfl, _, hnone⟩ := hinst.strays m (List.mem_of_getElem? hm)
  exact (h.set (hinst.put (Sound.target_settled hnone) pages)).withWrites
    (putWrites_inv (hinst.owner_settled hnone))

theorem Inv.step_swapped (h : Inv version owner s) {i t : Nat}
    (hstep : BrowserRefresh.step version s (.swapped i t) = some s') : Inv version owner s' := by
  obtain ⟨⟨inst, r⟩, hr, hstep⟩ := Option.bind_eq_some_iff.mp hstep
  obtain ⟨_, hinst, hmem⟩ := h.at_refresh hr
  dsimp only at hstep
  split at hstep
  · rename_i hpc
    cases hstep
    refine h.set (hinst.finish hmem hpc fun m hm => ?_)
    have hnone := (hinst.strays m hm).2.2
    rw [(hinst.refreshes_eq hmem).1] at hnone
    cases hnone
  · cases hstep

theorem Inv.step_evict (h : Inv version owner s) {i page : Nat}
    (hstep : BrowserRefresh.step version s (.evict i page) = some s') : Inv version owner s' := by
  obtain ⟨inst, hi, rfl⟩ := Option.map_eq_some_iff.mp hstep
  refine h.set ((h.at hi).withMemory fun n p hp => ?_)
  by_cases hn : n = page
  · subst hn
    simp at hp
  · rw [Function.update_of_ne hn] at hp
    exact (h.at hi).memory n p hp

theorem Inv.step_remove (h : Inv version owner s) {dir : String}
    (hstep : BrowserRefresh.step version s (.remove dir) = some s') : Inv version owner s' := by
  cases hstep
  exact h.clearDir dir

/-- Every undisturbed step keeps the invariant. -/
theorem Inv.step (h : Inv version owner s) {e : Event M} (hcond : Undisturbed version owner s e)
    (hstep : BrowserRefresh.step version s e = some s') : Inv version owner s' := by
  cases e with
  | «open» config m => exact h.step_open hcond hstep
  | read i page => exact h.step_read hstep
  | opfsHandle i t ok => exact h.step_opfsHandle hstep
  | opfsFile i t ok => exact h.step_opfsFile hstep
  | opfsRead i t ok => exact h.step_opfsRead hcond hstep
  | fetched i t pages => exact h.step_fetched hcond hstep
  | fetchFailed i t => exact h.step_fetchFailed hstep
  | writesDone i t => exact h.step_writesDone hstep
  | wrote k => exact h.step_wrote hstep
  | writeFailed k => exact h.step_writeFailed hstep
  | refresh i m => exact h.step_refresh hcond hstep
  | located i t ok => exact h.step_located hstep
  | removed i t ok => exact h.step_removed hstep
  | recreated i t ok => exact h.step_recreated hstep
  | inited i t ok => exact h.step_inited hstep
  | bundle i t pages => exact h.step_bundle hstep
  | prefetchFailed i t => exact h.step_prefetchFailed hcond hstep
  | strayBundle i t pages => exact h.step_strayBundle hstep
  | swapped i t => exact h.step_swapped hstep
  | evict i page => exact h.step_evict hstep
  | remove dir => exact h.step_remove hstep

end

/-- Browser refresh is coherent in every undisturbed run: whatever the reads, refreshes and writes of
the databases of an origin are interleaved with, the caches of a database that is not being refreshed
hold its own pages, of its own manifest. -/
theorem refresh_coherent {version : M → Nat} {owner : String → Database × M} {es : List (Event M)}
    {s : Origin M} (hrun : run (step version) {} es = some s)
    (hmeets : Meets (step version) (Undisturbed version owner) {} es) : Coherent s := by
  have hinit : Inv version owner ({} : Origin M) := by
    refine ⟨fun dir n p hp => ?_, fun w hw => ?_, fun inst hinst => ?_⟩
    · cases hp
    · cases hw
    · cases hinst
  have hinv : Inv version owner s :=
    run_invariant (fun s e s' hi hc hs => Inv.step hi hc hs) hinit hmeets hrun
  exact hinv.coherent

namespace Example

/-- The database whose prefix has a slash. -/
def config : Config := ⟨"https://cdn", "tenants/app/", true⟩

/-- A manifest is its version. -/
def owner (dir : String) : Database × Nat :=
  (config.database, if dir = config.dirName 1 then 1 else 2)

/-- A database is opened. -/
def opening (config : Config) : List (Event Nat) :=
  [.open config 1, .inited 0 0 true, .swapped 0 0]

/-- Its only refresh, which empties the directory of the old manifest. -/
def refreshing : List (Event Nat) :=
  [.located 0 0 true, .removed 0 0 true, .recreated 0 0 true, .inited 0 0 true, .bundle 0 0 [1],
    .swapped 0 0, .wrote 0]

/-- A read misses the caches and fetches the group of its page. -/
def fetching : List (Event Nat) :=
  [.read 0 5, .opfsHandle 0 0 false, .fetched 0 0 [5, 6], .wrote 0, .wrote 0]

/-- A page that the refresh has prefetched is evicted from memory and read from its file. -/
def rereading : List (Event Nat) :=
  [.evict 0 1, .read 0 1, .opfsHandle 0 2 true, .opfsFile 0 2 true, .opfsRead 0 2 true]

/-- A read before a refresh and two after it. -/
def calm : List (Event Nat) :=
  opening config ++ fetching ++ [.writesDone 0 0, .refresh 0 2] ++ refreshing ++
    [.read 0 5, .opfsHandle 0 1 false, .fetched 0 1 [5, 6], .writesDone 0 1] ++ rereading

/-- The refresh has cleared memory when the pages of the first read come. -/
def late : List (Event Nat) :=
  opening config ++ [.read 0 5, .opfsHandle 0 0 false, .refresh 0 2, .fetched 0 0 [5, 6], .wrote 0,
    .wrote 0] ++ refreshing ++ [.read 0 5]

/-- The directories of both databases have one name. -/
def sibling : Config := ⟨"https://cdn", "tenants_app_", true⟩

/-- The second database reads what the first one has written. -/
def shared : List (Event Nat) :=
  opening config ++ fetching ++ [.open sibling 1, .inited 1 0 true, .swapped 1 0, .read 1 5,
    .opfsHandle 1 0 true, .opfsFile 1 0 true, .opfsRead 1 0 true]

/-- What a read of a run has returned, with what it was asked of. -/
def read (es : List (Event Nat)) (i t : Nat) : Option (Database × Bool × Nat × Option (Page Nat)) :=
  (run (step id) {} es).bind fun s => (s.read? i t).map fun x =>
    (x.1.config.database, x.2.calm, x.2.manifest,
      match x.2.pc with
      | .returned p => p
      | _ => none)

/-- A run that ends with the page of another database or manifest. -/
theorem not_coherent {es : List (Event Nat)} {i t m : Nat} {d : Database} {p : Page Nat}
    (h : read es i t = some (d, true, m, some p)) (hne : p.database ≠ d ∨ p.manifest ≠ m) :
    ∃ s, run (step id) {} es = some s ∧ ¬ Coherent s := by
  obtain ⟨s, hs, hread⟩ := Option.bind_eq_some_iff.mp h
  obtain ⟨⟨inst, r⟩, hr, heq⟩ := Option.map_eq_some_iff.mp hread
  simp only [Prod.mk.injEq] at heq
  obtain ⟨hd, hcalm, hm, hp⟩ := heq
  simp only [Origin.read?, Option.bind_eq_some_iff, Option.map_eq_some_iff, Prod.mk.injEq] at hr
  obtain ⟨inst', hi, r', hr', rfl, rfl⟩ := hr
  have hpc : r'.pc = .returned (some p) := by
    cases hpc : r'.pc with
    | returned result => simpa [hpc] using hp
    | opfs dir => simp [hpc] at hp
    | handle dir => simp [hpc] at hp
    | file q => simp [hpc] at hp
    | fetch => simp [hpc] at hp
    | writes => simp [hpc] at hp
  refine ⟨s, hs, fun hc => ?_⟩
  have hpage := hc.reads inst' (List.mem_of_getElem? hi) r' (List.mem_of_getElem? hr') hcalm p hpc
  cases hne with
  | inl hdb => exact hdb (by rw [hpage, ← hd])
  | inr hman => exact hman (by rw [hpage, ← hm])

end Example

open Example

/-- The reads after the refresh return the pages of the new manifest. -/
theorem example_refresh_coherent :
    ∃ s, run (step id) {} calm = some s ∧ Coherent s ∧
      read calm 0 1 = some (config.database, true, 2, some ⟨config.database, 2, 5⟩) ∧
      read calm 0 2 = some (config.database, true, 2, some ⟨config.database, 2, 1⟩) := by
  obtain ⟨s, hs⟩ := Option.isSome_iff_exists.mp
    (show (run (step id) {} calm).isSome = true by decide +kernel)
  have hmeets : Meets (step id) (Undisturbed id owner) {} calm := by decide +kernel
  exact ⟨s, hs, refresh_coherent hs hmeets, by decide +kernel, by decide +kernel⟩

/-- A read that begins after the refresh has returned is served with the page of the old manifest, which
an earlier read has put into memory after the clear. And a database is served with the page of another
one, from the directory they share. -/
theorem refresh_incoherent :
    ((∃ s, run (step id) {} late = some s ∧ ¬ Coherent s) ∧
      read late 0 1 = some (config.database, true, 2, some ⟨config.database, 1, 5⟩)) ∧
    (∃ s, run (step id) {} shared = some s ∧ ¬ Coherent s) ∧
      config.database ≠ sibling.database ∧
      read shared 1 0 = some (sibling.database, true, 1, some ⟨config.database, 1, 5⟩) := by
  have hlate : read late 0 1 = some (config.database, true, 2, some ⟨config.database, 1, 5⟩) := by
    decide +kernel
  have hshared : read shared 1 0 =
      some (sibling.database, true, 1, some ⟨config.database, 1, 5⟩) := by
    decide +kernel
  refine ⟨⟨not_coherent hlate (.inr ?_), hlate⟩, not_coherent hshared (.inl ?_), ?_, hshared⟩
  · decide
  · decide +kernel
  · decide +kernel

end Turbolite.BrowserRefresh
